import Yavm.Elf.Header

set_option autoImplicit false

/-! # The ELF reader (`c_vm_c/elf.c`, `c_vm_c/main.c`) on an x86-64 build

One definition per C function, on a little-endian host. `parseProgramHeader` and
`parseSectionHeader` work on a local record that is never initialised, and `parseSectionHeader` ends
without a `return`: what is indeterminate there is an argument (`Junk`). -/

namespace Yavm.Elf

open Basis

/-! ## Byte order -/

def swap16 (value : BitVec 16) : BitVec 16 :=
  (value >>> 8) ||| (value <<< 8)

def swap32 (value : BitVec 32) : BitVec 32 :=
  (swap16 ((value >>> 16).setWidth 16)).setWidth 32 |||
    ((swap16 (value.setWidth 16)).setWidth 32 <<< 16)

def swap64 (value : BitVec 64) : BitVec 64 :=
  (swap32 ((value >>> 32).setWidth 32)).setWidth 64 |||
    ((swap32 (value.setWidth 32)).setWidth 64 <<< 32)

/-! ## Reading the file -/

/-- `initMemoryBank`: buffers from `calloc`. -/
def initMemoryBank : MemoryBank where
  elfPtr := fun _ => 0
  phPtr := fun _ => 0
  shPtr := fun _ => 0

/-- `fread(ptr, sizeof(uint8_t), count, file)`: the number of bytes read, the buffer, and the rest
    of the file. -/
def fread (ptr : Bytes) (count : ℕ) (file : List Byte) : ℕ × Bytes × List Byte :=
  ((file.take count).length, fun i => (file.take count).getD i (ptr i), file.drop count)

/-- `readObjectFile(path, mem_bank)`; `file` is what `fopen(path)` opens. -/
def readObjectFile (file : Option (List Byte)) (memBank : MemoryBank) : Except Exit MemoryBank :=
  match file with
  | none => .error ⟨-1, "Wrong path"⟩
  | some file =>
    let (read, elfPtr, file) := fread memBank.elfPtr elfHeaderMaxSize file
    if read = 0 then
      .error ⟨-1, "Failed to carry out read operation on elf header's contents"⟩
    else
      let (read, phPtr, file) := fread memBank.phPtr programHeaderMaxSize file
      if read = 0 then
        .error ⟨-1, "Failed to carry out read operation on program header's contents"⟩
      else
        let (read, shPtr, _) := fread memBank.shPtr sectionHeaderMaxSize file
        if read = 0 then
          .error ⟨-1, "Failed to carry out read operation on section header's contents"⟩
        else
          .ok { elfPtr, phPtr, shPtr }

/-! ## Multi-byte members -/

/-- `count` rounds of `value |= *(ptr + curr_idx); value <<= 8; curr_idx += BYTE;`. -/
def shiftIn {w : ℕ} (ptr : Bytes) (currIdx : ℕ) : ℕ → BitVec w → BitVec w
  | 0, value => value
  | count + 1, value =>
    shiftIn ptr (currIdx + 1) count ((value ||| (ptr currIdx).setWidth w) <<< 8)

/-- The rounds of `while (curr_idx < endingPosition)` with `endingPosition = curr_idx + rest`, a
    `uint16_t`. -/
def rounds (currIdx rest : ℕ) : ℕ :=
  (currIdx + rest) % 65536 - currIdx

/-- `storeData`. -/
def storeData (ptr : Bytes) (destination : Record)
    (destinationMemberOffset elfOffset32 elfOffset64 : ℕ) (sizeDependent bitDepth : Byte) : Record :=
  if sizeDependent ≠ 0 then
    if bitDepth = 32 then
      let count := rounds elfOffset32 3
      let value32 : BitVec 32 := shiftIn ptr elfOffset32 count 0
      let value32 := value32 ||| (ptr (elfOffset32 + count)).setWidth 32
      store 4 destination destinationMemberOffset value32
    else
      let count := rounds elfOffset64 7
      let value64 : BitVec 64 := shiftIn ptr elfOffset64 count 0
      let value64 := value64 ||| (ptr (elfOffset64 + count)).setWidth 64
      store 8 destination destinationMemberOffset value64
  else
    destination

/-- `storeData` into a 64-bit member, and the swap that follows it. -/
def storeSwapped (ptr : Bytes) (member : Field 8) (elfOffset32 elfOffset64 : ℕ) (bitDepth : Byte)
    (r : Record) : Record :=
  let r := storeData ptr r member.offset elfOffset32 elfOffset64 1 bitDepth
  member.set (swap64 (member.get r)) r

/-- `m |= *(ptr + i); m <<= 8; m |= *(ptr + i + BYTE); m = swap16(m);` on a 16-bit member. -/
def parse16 (ptr : Bytes) (member : Field 2) (currIdx : ℕ) (r : Record) : Record :=
  let value : BitVec 16 := member.get r
  let value := (value ||| (ptr currIdx).setWidth 16) <<< 8
  let value := value ||| (ptr (currIdx + 1)).setWidth 16
  member.set (swap16 value) r

/-- Three rounds into a 32-bit member, then `m |= *(ptr + BYTE)`, the byte at index 1, and the
    swap. -/
def parse32 (ptr : Bytes) (member : Field 4) (currIdx : ℕ) (r : Record) : Record :=
  let value : BitVec 32 := shiftIn ptr currIdx (rounds currIdx 3) (member.get r)
  let value := value ||| (ptr 1).setWidth 32
  member.set (swap32 value) r

/-! ## `parseElfHeader` -/

/-- The magic-number test: it rejects only when all four bytes are wrong. -/
def parseMagicNumber (elfPtr : Bytes) : Except Exit Unit :=
  if elfPtr eMagicNumberOffset ≠ 0x7f ∧ elfPtr (eMagicNumberOffset + 1) ≠ 45 ∧
      elfPtr (eMagicNumberOffset + 2) ≠ 0x4c ∧ elfPtr (eMagicNumberOffset + 3) ≠ 46 then
    .error ⟨-1, "Incorrect magic number"⟩
  else
    .ok ()

def parseBitDepth (elfPtr : Bytes) (elfInfo : Record) : Except Exit Record :=
  if elfPtr eBitDepthOffset = 0x1 then .ok (ElfHeader.bitDepth.set 32 elfInfo)
  else if elfPtr eBitDepthOffset = 0x2 then .ok (ElfHeader.bitDepth.set 64 elfInfo)
  else .error ⟨-1, "Could not determine bit depth"⟩

def parseEndianness (elfPtr : Bytes) (elfInfo : Record) : Except Exit Record :=
  if elfPtr eEndiannessOffset = 0x1 then .ok (ElfHeader.isLittleEndian.set 1 elfInfo)
  else if elfPtr eEndiannessOffset = 0x2 then .ok (ElfHeader.isLittleEndian.set 0 elfInfo)
  else .error ⟨-1, "Could not determine endianness"⟩

def parseElfVersion (elfPtr : Bytes) (elfInfo : Record) : Record :=
  ElfHeader.isElfOriginalVersion.set (if elfPtr eElfVersionOffset = 0x1 then 1 else 0) elfInfo

def parseAbi (elfPtr : Bytes) (elfInfo : Record) : Except Exit Record :=
  if elfPtr eOsAbiOffset > 0x12 then
    .error ⟨-1, "Unknown abi os"⟩
  else
    .ok (ElfHeader.abiVersion.set (elfPtr eAbiVersionOffset)
      (ElfHeader.abiOs.set (elfPtr eOsAbiOffset) elfInfo))

/-- `count` rounds of the test of the reserved bytes. -/
def parseEiPad (elfPtr : Bytes) (currIdx : ℕ) : ℕ → Except Exit Unit
  | 0 => .ok ()
  | count + 1 =>
    if elfPtr currIdx ≠ 0x0 then .error ⟨-1, "EI_PAD should be zero"⟩
    else parseEiPad elfPtr (currIdx + 1) count

/-- `if (elf_info.bit_depth == 64) curr_idx = …; else curr_idx = …;`. -/
def offsetByDepth (elfInfo : Record) (offset32 offset64 : ℕ) : ℕ :=
  if ElfHeader.bitDepth.get elfInfo = 64 then offset64 else offset32

/-- The flags: four bytes shifted in, and no swap. -/
def parseFlags (elfPtr : Bytes) (elfInfo : Record) : Record :=
  let currIdx := offsetByDepth elfInfo eFlags32BitOffset eFlags64BitOffset
  let count := rounds currIdx 3
  let value : BitVec 32 := shiftIn elfPtr currIdx count (ElfHeader.flags.get elfInfo)
  ElfHeader.flags.set (value ||| (elfPtr (currIdx + count)).setWidth 32) elfInfo

/-- The members after `EI_PAD`. -/
def parseMembers (elfPtr : Bytes) (elfInfo : Record) : Record :=
  let r := parse16 elfPtr ElfHeader.type eTypeOffset elfInfo
  let r := parse16 elfPtr ElfHeader.isa eIsaOffset r
  let bitDepth : Byte := (ElfHeader.bitDepth.get r).setWidth 8
  let r := storeSwapped elfPtr ElfHeader.entryPointOffset eEntryOffset eEntryOffset bitDepth r
  let r := storeSwapped elfPtr ElfHeader.programHeaderOffset eProgramHeader32BitOffset
    eProgramHeader64BitOffset bitDepth r
  let r := storeSwapped elfPtr ElfHeader.sectionHeaderOffset eSectionHeader32BitOffset
    eSectionHeader64BitOffset bitDepth r
  let r := parseFlags elfPtr r
  let r := parse16 elfPtr ElfHeader.elfHeaderSize
    (offsetByDepth r eElfHeaderSize32BitOffset eElfHeaderSize64BitOffset) r
  let r := parse16 elfPtr ElfHeader.programHeaderSize
    (offsetByDepth r eProgramHeaderSize32BitOffset eProgramHeaderSize64BitOffset) r
  let r := parse16 elfPtr ElfHeader.programHeaderEntriesNum
    (offsetByDepth r eProgramHeaderNumOfEntries32BitOffset eProgramHeaderNumOfEntries64BitOffset) r
  let r := parse16 elfPtr ElfHeader.sectionHeaderSize
    (offsetByDepth r eSectionHeaderSize32BitOffset eSectionHeaderSize64BitOffset) r
  let r := parse16 elfPtr ElfHeader.sectionHeaderEntriesNum
    (offsetByDepth r eSectionHeaderNumOfEntries32BitOffset eSectionHeaderNumOfEntries64BitOffset) r
  parse16 elfPtr ElfHeader.sectionHeaderIndex
    (offsetByDepth r eSectionHeaderEntryIndexContainingNames32BitOffset
      eSectionHeaderEntryIndexContainingNames64BitOffset) r

def parseElfHeader (memBank : MemoryBank) : Except Exit Record := do
  let elfInfo : Record := fun _ => 0
  let elfPtr := memBank.elfPtr
  parseMagicNumber elfPtr
  let elfInfo ← parseBitDepth elfPtr elfInfo
  let elfInfo ← parseEndianness elfPtr elfInfo
  let elfInfo := parseElfVersion elfPtr elfInfo
  let elfInfo ← parseAbi elfPtr elfInfo
  parseEiPad elfPtr eEiPadOffset (rounds eEiPadOffset 7)
  return parseMembers elfPtr elfInfo

/-! ## `parseProgramHeader` and `parseSectionHeader` -/

/-- `parseProgramHeader`; `programHeader` is the uninitialised local. -/
def parseProgramHeader (memBank : MemoryBank) (programHeader : Record) : Record :=
  let phPtr := memBank.phPtr
  let r := parse32 phPtr ProgramHeader.phType pTypeOffset programHeader
  let r := parse32 phPtr ProgramHeader.phFlags pFlagsOffset64Bit r
  let r := storeSwapped phPtr ProgramHeader.phFileImageSegmentOffset64 pFileImageOffset32Bit
    pFileImageOffset64Bit 64 r
  let r := storeSwapped phPtr ProgramHeader.phSegmentVAddr64 pVirtualAddressOffset32Bit
    pVirtualAddressOffset64Bit 64 r
  let r := storeSwapped phPtr ProgramHeader.phSegmentPhysAddr64 pPhysAddressOffset32Bit
    pPhysAddressOffset64Bit 64 r
  let r := storeSwapped phPtr ProgramHeader.phSegmentSizeInFileImage64 pFileSizeOffset32Bit
    pFileSizeOffset64Bit 64 r
  let r := storeSwapped phPtr ProgramHeader.phSegmentSizeInMemory64 pMemorySizeOffset32Bit
    pMemorySizeOffset64Bit 64 r
  let r := ProgramHeader.phSegmentFlags.set 0 r
  storeSwapped phPtr ProgramHeader.phAlign64 pAlignOffset32Bit pAlignOffset64Bit 64 r

/-- The local record of `parseSectionHeader` at the end of its body. -/
def sectionHeaderLocal (memBank : MemoryBank) (sectionHeader : Record) : Record :=
  let shPtr := memBank.shPtr
  let r := parse32 shPtr SectionHeader.shOffsetToNameString shNameOffset sectionHeader
  parse32 shPtr SectionHeader.shType shTypeOffset r

/-- What the language leaves indeterminate in a run of `main`. -/
structure Junk where
  /-- The local of `parseProgramHeader`. -/
  programHeader : Record
  /-- The local of `parseSectionHeader`. -/
  sectionHeader : Record
  /-- What the caller of `parseSectionHeader` finds where the result should be. -/
  returned : Record

/-- `parseSectionHeader`: the local record, and the record the caller gets, which nothing sets. -/
def parseSectionHeader (memBank : MemoryBank) (_bitDepth : BitVec 16) (junk : Junk) :
    Record × Record :=
  (sectionHeaderLocal memBank junk.sectionHeader, junk.returned)

/-- What `main` has before it prints. -/
structure Parsed where
  memBank : MemoryBank
  elfInfo : Record
  phData : Record
  shData : Record

/-- `main`, up to the printing. -/
def main (file : Option (List Byte)) (junk : Junk) : Except Exit Parsed := do
  let memBank ← readObjectFile file initMemoryBank
  let elfInfo ← parseElfHeader memBank
  let phData := parseProgramHeader memBank junk.programHeader
  let (_, shData) := parseSectionHeader memBank (ElfHeader.bitDepth.get elfInfo) junk
  return { memBank, elfInfo, phData, shData }

end Yavm.Elf
