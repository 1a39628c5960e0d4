import Yavm.Basis.LittleEndian

set_option autoImplicit false

/-! # Records, buffers and offsets of the ELF reader (`c_vm_c/elf.h`)

The reader writes its records through `SET_VALUE`, at an offset and with a width of its own
choosing, so a record is its bytes and a member is an offset into them. The two header records are
packed; the section header has natural alignment. Offsets into the file are those of the
enumerations of `elf.h`. -/

namespace Yavm.Elf

open Basis

abbrev Byte := BitVec 8

/-- What `exit` is called with, after printing the message. -/
structure Exit where
  status : ℤ
  message : String
  deriving DecidableEq, Repr

/-! ## Records -/

/-- The bytes of a record. -/
abbrev Record := Bytes

/-- A member of `n` bytes, by its offset. -/
structure Field (n : ℕ) where
  offset : ℕ

namespace Field

variable {n : ℕ}

def get (f : Field n) (r : Record) : BitVec (8 * n) :=
  load n r f.offset

def set (f : Field n) (v : BitVec (8 * n)) (r : Record) : Record :=
  store n r f.offset v

@[simp]
theorem get_set_self (f : Field n) (v : BitVec (8 * n)) (r : Record) : f.get (f.set v r) = v :=
  load_store_self n r f.offset v

/-- Members that do not overlap are independent. -/
theorem get_set_of_disjoint {m : ℕ} {f : Field n} {g : Field m} (v : BitVec (8 * m)) (r : Record)
    (h : f.offset + n ≤ g.offset ∨ g.offset + m ≤ f.offset) : f.get (g.set v r) = f.get r :=
  load_store_of_disjoint r v h

/-- In a record of zeros every member is zero. -/
@[simp]
theorem get_zero (f : Field n) : f.get (fun _ => 0) = 0 :=
  load_zero n f.offset

end Field

namespace ElfHeader

def isLittleEndian : Field 1 := ⟨0⟩
def isElfOriginalVersion : Field 1 := ⟨1⟩
def abiOs : Field 1 := ⟨2⟩
def abiVersion : Field 1 := ⟨3⟩
def bitDepth : Field 2 := ⟨4⟩
def type : Field 2 := ⟨6⟩
def isa : Field 2 := ⟨8⟩
def elfHeaderSize : Field 2 := ⟨10⟩
def programHeaderSize : Field 2 := ⟨14⟩
def programHeaderEntriesNum : Field 2 := ⟨16⟩
def sectionHeaderSize : Field 2 := ⟨18⟩
def sectionHeaderEntriesNum : Field 2 := ⟨20⟩
def sectionHeaderIndex : Field 2 := ⟨22⟩
def flags : Field 4 := ⟨24⟩
def entryPointOffset : Field 8 := ⟨28⟩
def programHeaderOffset : Field 8 := ⟨36⟩
def sectionHeaderOffset : Field 8 := ⟨44⟩

end ElfHeader

namespace ProgramHeader

def phType : Field 4 := ⟨0⟩
def phFlags : Field 4 := ⟨4⟩
def phSegmentFlags : Field 4 := ⟨8⟩
def phFileImageSegmentOffset64 : Field 8 := ⟨12⟩
def phSegmentVAddr64 : Field 8 := ⟨20⟩
def phSegmentPhysAddr64 : Field 8 := ⟨28⟩
def phSegmentSizeInFileImage64 : Field 8 := ⟨36⟩
def phSegmentSizeInMemory64 : Field 8 := ⟨44⟩
def phAlign64 : Field 8 := ⟨52⟩

end ProgramHeader

namespace SectionHeader

def shOffsetToNameString : Field 4 := ⟨0⟩
def shType : Field 4 := ⟨4⟩

end SectionHeader

/-! ## Buffers -/

/-- `MEMORY_BANK`: a pointer is the bytes from it on. -/
structure MemoryBank where
  elfPtr : Bytes
  phPtr : Bytes
  shPtr : Bytes

abbrev elfHeaderMaxSize : ℕ := 0x40
abbrev programHeaderMaxSize : ℕ := 0x38
abbrev sectionHeaderMaxSize : ℕ := 0x40

/-! ## Offsets in the ELF header -/

abbrev eMagicNumberOffset : ℕ := 0x0
abbrev eBitDepthOffset : ℕ := 0x4
abbrev eEndiannessOffset : ℕ := 0x5
abbrev eElfVersionOffset : ℕ := 0x06
abbrev eOsAbiOffset : ℕ := 0x07
abbrev eAbiVersionOffset : ℕ := 0x08
abbrev eEiPadOffset : ℕ := 0x09
abbrev eTypeOffset : ℕ := 0x10
abbrev eIsaOffset : ℕ := 0x12
abbrev eEntryOffset : ℕ := 0x18
abbrev eProgramHeader32BitOffset : ℕ := 0x1C
abbrev eProgramHeader64BitOffset : ℕ := 0x20
abbrev eSectionHeader32BitOffset : ℕ := 0x20
abbrev eSectionHeader64BitOffset : ℕ := 0x28
abbrev eFlags32BitOffset : ℕ := 0x24
abbrev eFlags64BitOffset : ℕ := 0x30
abbrev eElfHeaderSize32BitOffset : ℕ := 0x28
abbrev eElfHeaderSize64BitOffset : ℕ := 0x34
abbrev eProgramHeaderSize32BitOffset : ℕ := 0x2A
abbrev eProgramHeaderSize64BitOffset : ℕ := 0x36
abbrev eProgramHeaderNumOfEntries32BitOffset : ℕ := 0x2C
abbrev eProgramHeaderNumOfEntries64BitOffset : ℕ := 0x38
abbrev eSectionHeaderSize32BitOffset : ℕ := 0x2E
abbrev eSectionHeaderSize64BitOffset : ℕ := 0x3A
abbrev eSectionHeaderNumOfEntries32BitOffset : ℕ := 0x30
abbrev eSectionHeaderNumOfEntries64BitOffset : ℕ := 0x3C
abbrev eSectionHeaderEntryIndexContainingNames32BitOffset : ℕ := 0x32
abbrev eSectionHeaderEntryIndexContainingNames64BitOffset : ℕ := 0x3E

/-! ## Offsets in the program header -/

abbrev pTypeOffset : ℕ := 0x0
abbrev pFlagsOffset64Bit : ℕ := 0x4
abbrev pFileImageOffset32Bit : ℕ := 0x4
abbrev pFileImageOffset64Bit : ℕ := 0x8
abbrev pVirtualAddressOffset32Bit : ℕ := 0x8
abbrev pVirtualAddressOffset64Bit : ℕ := 0x10
abbrev pPhysAddressOffset32Bit : ℕ := 0xC
abbrev pPhysAddressOffset64Bit : ℕ := 0x18
abbrev pFileSizeOffset32Bit : ℕ := 0x10
abbrev pFileSizeOffset64Bit : ℕ := 0x20
abbrev pMemorySizeOffset32Bit : ℕ := 0x14
abbrev pMemorySizeOffset64Bit : ℕ := 0x28
abbrev pFlagsOffset32Bit : ℕ := 0x18
abbrev pAlignOffset32Bit : ℕ := 0x1C
abbrev pAlignOffset64Bit : ℕ := 0x30
abbrev pEndOfProgramHeader32 : ℕ := 0x20
abbrev pEndOfProgramHeader64 : ℕ := 0x38

/-! ## Offsets in the section header -/

abbrev shNameOffset : ℕ := 0x0
abbrev shTypeOffset : ℕ := 0x4
abbrev endOfSectionHeaderOffset32 : ℕ := 0x28
abbrev endOfSectionHeaderOffset64 : ℕ := 0x40

end Yavm.Elf
