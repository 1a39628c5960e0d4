import Yavm.Elf.Format
import Yavm.Elf.Parse

set_option autoImplicit false

/-! # The ELF pipeline against the file format

A well-formed little-endian ELF file with at least one program header and one section header
(`ElfFile`) says in its header where the two tables are. `readObjectFile` reads three consecutive
blocks instead: the first entries end up in their buffers exactly when the file repeats, or has,
them at `0x40` and `0x78` (`phPlaced_iff`, `shPlaced_iff`), and a file that ends in the third block
is accepted (`truncation_iff`). The record of the section header is
never returned, so no file goes through the whole pipeline as `PipelineLaw` asks. -/

namespace Yavm.Elf

open Basis

/-! ## The format -/

/-- The bytes of a file from `off` on, with zeros behind the end. -/
def bytesFrom (file : List Byte) (off : ℕ) : Bytes :=
  fun i => file.getD (off + i) 0

/-- `e_phoff`. -/
def phoff (c : ElfClass) (file : List Byte) : ℕ :=
  c.sized (bytesFrom file 0) eProgramHeader32BitOffset eProgramHeader64BitOffset

/-- `e_shoff`. -/
def shoff (c : ElfClass) (file : List Byte) : ℕ :=
  c.sized (bytesFrom file 0) eSectionHeader32BitOffset eSectionHeader64BitOffset

/-- `e_phnum`. -/
def phnum (c : ElfClass) (file : List Byte) : ℕ :=
  c.half (bytesFrom file 0) eProgramHeaderNumOfEntries32BitOffset
    eProgramHeaderNumOfEntries64BitOffset

/-- `e_shnum`. -/
def shnum (c : ElfClass) (file : List Byte) : ℕ :=
  c.half (bytesFrom file 0) eSectionHeaderNumOfEntries32BitOffset
    eSectionHeaderNumOfEntries64BitOffset

/-- `e_phentsize`. -/
def phentsize (c : ElfClass) (file : List Byte) : ℕ :=
  c.half (bytesFrom file 0) eProgramHeaderSize32BitOffset eProgramHeaderSize64BitOffset

/-- `e_shentsize`. -/
def shentsize (c : ElfClass) (file : List Byte) : ℕ :=
  c.half (bytesFrom file 0) eSectionHeaderSize32BitOffset eSectionHeaderSize64BitOffset

/-- A well-formed little-endian ELF file of class `c` with both tables. -/
structure ElfFile (c : ElfClass) where
  bytes : List Byte
  magic : bytes.take 4 = [0x7f, 0x45, 0x4c, 0x46]
  elfClass : bytes[4]? = some c.code
  data : bytes[5]? = some 1
  version : bytes[6]? = some 1
  headerFits : c.pick 0x34 0x40 ≤ bytes.length
  phentsize_eq : phentsize c bytes = c.programHeaderSize
  shentsize_eq : shentsize c bytes = c.sectionHeaderSize
  phnum_pos : 0 < phnum c bytes
  shnum_pos : 0 < shnum c bytes
  programHeadersFit : phoff c bytes + phnum c bytes * c.programHeaderSize ≤ bytes.length
  sectionHeadersFit : shoff c bytes + shnum c bytes * c.sectionHeaderSize ≤ bytes.length

variable {c : ElfClass}

namespace ElfFile

/-- Byte `i` of the first program header entry. -/
def programHeader (f : ElfFile c) : Bytes := bytesFrom f.bytes (phoff c f.bytes)

/-- Byte `i` of the first section header entry. -/
def sectionHeader (f : ElfFile c) : Bytes := bytesFrom f.bytes (shoff c f.bytes)

end ElfFile

/-! ## What the pipeline should do -/

/-- `p` holds the first program header entry. -/
def HoldsProgramHeader (f : ElfFile c) (p : Bytes) : Prop :=
  ∀ i < c.programHeaderSize, p i = f.programHeader i

/-- `p` holds the first section header entry. -/
def HoldsSectionHeader (f : ElfFile c) (p : Bytes) : Prop :=
  ∀ i < c.sectionHeaderSize, p i = f.sectionHeader i

/-- The record has the members of the entry, decoded with the layout of class `c`. -/
structure ProgramHeaderDecoded (c : ElfClass) (r : Record) (entry : Bytes) : Prop where
  type : ProgramHeader.phType.get r = load 4 entry pTypeOffset
  flags : match c with
    | .elf32 => ProgramHeader.phSegmentFlags.get r = load 4 entry pFlagsOffset32Bit
    | .elf64 => ProgramHeader.phFlags.get r = load 4 entry pFlagsOffset64Bit
  offset : (ProgramHeader.phFileImageSegmentOffset64.get r).toNat
    = c.sized entry pFileImageOffset32Bit pFileImageOffset64Bit
  vaddr : (ProgramHeader.phSegmentVAddr64.get r).toNat
    = c.sized entry pVirtualAddressOffset32Bit pVirtualAddressOffset64Bit
  paddr : (ProgramHeader.phSegmentPhysAddr64.get r).toNat
    = c.sized entry pPhysAddressOffset32Bit pPhysAddressOffset64Bit
  filesz : (ProgramHeader.phSegmentSizeInFileImage64.get r).toNat
    = c.sized entry pFileSizeOffset32Bit pFileSizeOffset64Bit
  memsz : (ProgramHeader.phSegmentSizeInMemory64.get r).toNat
    = c.sized entry pMemorySizeOffset32Bit pMemorySizeOffset64Bit
  align : (ProgramHeader.phAlign64.get r).toNat
    = c.sized entry pAlignOffset32Bit pAlignOffset64Bit

/-- The record has the members of the entry that `parseSectionHeader` parses. -/
structure SectionHeaderDecoded (r : Record) (entry : Bytes) : Prop where
  name : SectionHeader.shOffsetToNameString.get r = load 4 entry shNameOffset
  type : SectionHeader.shType.get r = load 4 entry shTypeOffset

/-- Whatever is indeterminate, `main` reads and decodes the first entry of each table. -/
def PipelineLaw (f : ElfFile c) : Prop :=
  ∀ junk, ∃ parsed, main (some f.bytes) junk = .ok parsed ∧
    HoldsProgramHeader f parsed.memBank.phPtr ∧ HoldsSectionHeader f parsed.memBank.shPtr ∧
    ProgramHeaderDecoded c parsed.phData f.programHeader ∧
    SectionHeaderDecoded parsed.shData f.sectionHeader

/-- `readObjectFile` returns and leaves the first program header entry in `ph_ptr`. -/
def PhPlaced (f : ElfFile c) : Prop :=
  ∃ bank, readObjectFile (some f.bytes) initMemoryBank = .ok bank ∧ HoldsProgramHeader f bank.phPtr

/-- `readObjectFile` returns and leaves the first section header entry in `sh_ptr`. -/
def ShPlaced (f : ElfFile c) : Prop :=
  ∃ bank, readObjectFile (some f.bytes) initMemoryBank = .ok bank ∧ HoldsSectionHeader f bank.shPtr

/-! ## Where the bytes come from -/

/-- A buffer of `n` bytes read at `m`, from `calloc`. -/
def bufferFrom (file : List Byte) (m n : ℕ) : Bytes :=
  fun i => ((file.drop m).take n).getD i 0

/-- What a buffer holds is what the file has there. -/
theorem bufferFrom_holds_iff {file : List Byte} {m n size : ℕ} (entry : Bytes) (hsize : size ≤ n) :
    (∀ i < size, bufferFrom file m n i = entry i) ↔ ∀ i < size, bytesFrom file m i = entry i := by
  refine forall₂_congr fun i hi => ?_
  have hbyte : bufferFrom file m n i = bytesFrom file m i := by
    simp [bufferFrom, bytesFrom, List.getD_eq_getElem?_getD, show i < n by omega]
  rw [hbyte]

/-- The three reads succeed exactly when the file is longer than the first two buffers, which are
    filled from `0`, `0x40` and `0x78`. -/
theorem readObjectFile_eq_ok {file : List Byte} {bank : MemoryBank} :
    readObjectFile (some file) initMemoryBank = .ok bank ↔
      0x78 < file.length ∧
        bank = ⟨bufferFrom file 0 0x40, bufferFrom file 0x40 0x38, bufferFrom file 0x78 0x40⟩ := by
  have hdrop : (file.drop 0x40).drop 0x38 = file.drop 0x78 := List.drop_drop
  have hthird : ((file.drop 0x78).take 0x40).length = 0 ↔ ¬ 0x78 < file.length := by
    rw [List.length_take, List.length_drop]
    omega
  -- a block is empty exactly when the file ends before it, and the third one begins last
  simp only [readObjectFile, fread, initMemoryBank, hdrop]
  by_cases h : 0x78 < file.length
  · have hfirst : (file.take 0x40).length ≠ 0 := by
      rw [List.length_take]
      omega
    have hsecond : ((file.drop 0x40).take 0x38).length ≠ 0 := by
      rw [List.length_take, List.length_drop]
      omega
    rw [if_neg hfirst, if_neg hsecond, if_neg (fun h' => hthird.1 h' h), Except.ok.injEq, eq_comm]
    exact (and_iff_right h).symm
  · rw [if_pos (hthird.2 h)]
    refine iff_of_false (fun hok => ?_) fun hok => h hok.1
    split_ifs at hok

/-- A buffer that is filled from `m` holds an entry exactly when the file is long enough for all
    three reads and has the bytes of that entry there, or zeros where it has ended. -/
theorem placed_iff {file : List Byte} {entry : Bytes} {m n size : ℕ} (part : MemoryBank → Bytes)
    (hsize : size ≤ n)
    (hpart : part ⟨bufferFrom file 0 0x40, bufferFrom file 0x40 0x38, bufferFrom file 0x78 0x40⟩
      = bufferFrom file m n) :
    (∃ bank, readObjectFile (some file) initMemoryBank = .ok bank ∧
        ∀ i < size, part bank i = entry i) ↔
      0x78 < file.length ∧ ∀ i < size, bytesFrom file m i = entry i := by
  simp only [readObjectFile_eq_ok]
  rw [← bufferFrom_holds_iff entry hsize, ← hpart]
  constructor
  · intro h
    obtain ⟨bank, ⟨hlen, rfl⟩, hholds⟩ := h
    exact ⟨hlen, hholds⟩
  · intro h
    obtain ⟨hlen, hholds⟩ := h
    exact ⟨_, ⟨hlen, rfl⟩, hholds⟩

theorem phPlaced_iff (f : ElfFile c) :
    PhPlaced f ↔ 0x78 < f.bytes.length ∧
      ∀ i < c.programHeaderSize, bytesFrom f.bytes 0x40 i = f.programHeader i :=
  placed_iff MemoryBank.phPtr (by cases c <;> decide) rfl

theorem shPlaced_iff (f : ElfFile c) :
    ShPlaced f ↔ 0x78 < f.bytes.length ∧
      ∀ i < c.sectionHeaderSize, bytesFrom f.bytes 0x78 i = f.sectionHeader i :=
  placed_iff MemoryBank.shPtr (by cases c <;> decide) rfl

/-! ## Truncated files -/

/-- Every byte of the three buffers is a byte of the file. -/
structure SuppliedBy (file : List Byte) (bank : MemoryBank) : Prop where
  elfPtr : ∀ i < elfHeaderMaxSize, file[i]? = some (bank.elfPtr i)
  phPtr : ∀ i < programHeaderMaxSize, file[elfHeaderMaxSize + i]? = some (bank.phPtr i)
  shPtr : ∀ i < sectionHeaderMaxSize,
    file[elfHeaderMaxSize + programHeaderMaxSize + i]? = some (bank.shPtr i)

/-- When `readObjectFile` returns, nothing in the buffers is left over from `calloc`. -/
def TruncationLaw (file : List Byte) : Prop :=
  ∀ bank, readObjectFile (some file) initMemoryBank = .ok bank → SuppliedBy file bank

/-- A byte of a buffer is one of the file exactly when the file goes on that far. -/
theorem getElem?_eq_bufferFrom_iff {file : List Byte} {m n i : ℕ} (hi : i < n) :
    file[m + i]? = some (bufferFrom file m n i) ↔ m + i < file.length := by
  constructor
  · intro h
    exact (List.getElem?_eq_some_iff.1 h).1
  · intro h
    simp [bufferFrom, List.getD_eq_getElem?_getD, hi, List.getElem?_eq_getElem h]

theorem suppliedBy_iff {file : List Byte} :
    SuppliedBy file ⟨bufferFrom file 0 0x40, bufferFrom file 0x40 0x38, bufferFrom file 0x78 0x40⟩ ↔
      elfHeaderMaxSize + programHeaderMaxSize + sectionHeaderMaxSize ≤ file.length := by
  constructor
  · intro h
    have hlast : 0x78 + 0x3F < file.length :=
      (getElem?_eq_bufferFrom_iff (by decide)).1 (h.shPtr 0x3F (by decide))
    exact hlast
  · intro hlen
    have hin : ∀ {m n i : ℕ}, m + n ≤ 0xB8 → i < n →
        file[m + i]? = some (bufferFrom file m n i) := by
      intro m n i hmn hi
      have hle : 0xB8 ≤ file.length := hlen
      exact (getElem?_eq_bufferFrom_iff hi).2 (by omega)
    refine ⟨fun i hi => ?_, fun i hi => hin (by decide) hi, fun i hi => hin (by decide) hi⟩
    have hfirst := hin (m := 0) (n := 0x40) (by decide) hi
    rwa [Nat.zero_add] at hfirst

/-- For every file content: what `readObjectFile` accepts fills the three buffers if and only if the
    file ends before the third buffer begins, when it is rejected, or fills that too. The count
    `fread` returns is compared with zero, and not with the size of the buffer. -/
theorem truncation_iff (file : List Byte) :
    TruncationLaw file ↔
      file.length ≤ elfHeaderMaxSize + programHeaderMaxSize ∨
        elfHeaderMaxSize + programHeaderMaxSize + sectionHeaderMaxSize ≤ file.length := by
  rw [← suppliedBy_iff, TruncationLaw]
  constructor
  · intro h
    by_cases hlen : 0x78 < file.length
    · exact Or.inr (h _ (readObjectFile_eq_ok.2 ⟨hlen, rfl⟩))
    · exact Or.inl (Nat.le_of_not_lt hlen)
  · intro h bank hread
    obtain ⟨hlen, rfl⟩ := readObjectFile_eq_ok.1 hread
    rcases h with hshort | hsupplied
    · exact absurd hlen (Nat.not_lt.2 hshort)
    · exact hsupplied

/-- A file of 121 bytes is accepted with one byte for the section header. -/
theorem truncation_broken_by_one_byte :
    (∃ bank, readObjectFile (some (List.replicate 0x79 0)) initMemoryBank = .ok bank) ∧
      ¬ TruncationLaw (List.replicate 0x79 0) := by
  have hlen : 0x78 < (List.replicate 0x79 (0 : Byte)).length := by simp
  refine ⟨⟨_, readObjectFile_eq_ok.2 ⟨hlen, rfl⟩⟩, fun hlaw => ?_⟩
  have hsupplied := suppliedBy_iff.1 (hlaw _ (readObjectFile_eq_ok.2 ⟨hlen, rfl⟩))
  rw [List.length_replicate] at hsupplied
  exact absurd hsupplied (by decide)

/-! ## The section header is lost -/

/-- The caller of `parseSectionHeader` gets nothing from it. -/
theorem shData_eq {file : Option (List Byte)} {junk : Junk} {parsed : Parsed}
    (h : main file junk = .ok parsed) : parsed.shData = junk.returned := by
  unfold main at h
  cases hread : readObjectFile file initMemoryBank with
  | error e => simp [hread, bind, Except.bind] at h
  | ok bank =>
      cases hparse : parseElfHeader bank with
      | error e => simp [hread, hparse, bind, Except.bind] at h
      | ok elfInfo =>
          simp only [hread, hparse, bind, Except.bind] at h
          exact (congrArg Parsed.shData (Except.ok.inj h)).symm

theorem not_pipelineLaw (f : ElfFile c) : ¬ PipelineLaw f := by
  intro hlaw
  -- a byte that differs from the first one of the entry
  obtain ⟨parsed, hmain, -, -, -, hdecoded⟩ :=
    hlaw ⟨fun _ => 0, fun _ => 0, fun _ => ~~~(f.sectionHeader 0)⟩
  have hname := hdecoded.name
  rw [shData_eq hmain] at hname
  have hbyte : ~~~(f.sectionHeader 0) = f.sectionHeader 0 :=
    load_eq_load_iff.1 hname 0 (by decide)
  have hbit := congrArg (fun b : Byte => b.getLsbD 0) hbyte
  simp at hbit

/-- For every well-formed little-endian ELF file of either class with both tables: `readObjectFile`
    places the first program header entry if and only if the file is longer than `0x78` bytes and
    has that entry at `0x40`, it places the first section header entry if and only if the file is
    longer than `0x78` bytes and has that entry at `0x78`, and `main` as a whole never reads and
    decodes both. -/
theorem pipeline_never (f : ElfFile c) :
    ¬ PipelineLaw f ∧
      (PhPlaced f ↔ 0x78 < f.bytes.length ∧
        ∀ i < c.programHeaderSize, bytesFrom f.bytes 0x40 i = f.programHeader i) ∧
      (ShPlaced f ↔ 0x78 < f.bytes.length ∧
        ∀ i < c.sectionHeaderSize, bytesFrom f.bytes 0x78 i = f.sectionHeader i) :=
  ⟨not_pipelineLaw f, phPlaced_iff f, shPlaced_iff f⟩

/-- A 64-bit executable with its section header at `0x40` and a `PT_LOAD` program header at
    `0x80`. -/
def sampleFile : ElfFile .elf64 where
  bytes := [0x7f, 0x45, 0x4c, 0x46, 2, 1, 1] ++ List.replicate 9 0 ++ [2, 0, 0x3e, 0, 1, 0, 0, 0] ++
    List.replicate 8 0 ++ 0x80 :: List.replicate 7 0 ++ 0x40 :: List.replicate 7 0 ++
    List.replicate 4 0 ++ [0x40, 0, 0x38, 0, 1, 0, 0x40, 0, 1, 0, 0, 0] ++ List.replicate 64 0 ++
    1 :: List.replicate 55 0
  magic := by decide
  elfClass := by decide
  data := by decide
  version := by decide
  headerFits := by decide +kernel
  phentsize_eq := by decide
  shentsize_eq := by decide
  phnum_pos := by decide
  shnum_pos := by decide
  programHeadersFit := by decide +kernel
  sectionHeadersFit := by decide +kernel

/-- The sample file is accepted, and neither buffer has the entry it should have. -/
theorem pipeline_broken_by_sample :
    ¬ PipelineLaw sampleFile ∧
      ∀ junk, ∃ parsed, main (some sampleFile.bytes) junk = .ok parsed ∧
        parsed.memBank.phPtr 0 = 0 ∧ sampleFile.programHeader 0 = 1 ∧
        parsed.memBank.shPtr 8 = 1 ∧ sampleFile.sectionHeader 8 = 0 :=
  ⟨not_pipelineLaw sampleFile, fun _ => ⟨_, rfl, rfl, rfl, rfl, rfl⟩⟩

end Yavm.Elf
