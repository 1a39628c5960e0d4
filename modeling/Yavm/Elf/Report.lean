import Yavm.Basis.Text
import Yavm.Elf.Locals
import Yavm.Elf.RoundTrip

set_option autoImplicit false

/-! # The report of the ELF reader (`stringify…`, `print…`, `main`)

What `main` prints, as one text. Every line of the two tables can be read back, so `report_iff` says
exactly which records print the same report: all numbers are in it, and a code is in it as far as
its name tells (`SameName`). `header_report_iff` is what that comes to for the headers of object
files. -/

namespace Yavm.Elf

open Basis

/-! ## Names of codes -/

def abiNames : List (ℕ × String) :=
  [(0x0, "System V (Unix)"), (0x1, "HP_UX"), (0x2, "NetBSD"), (0x3, "Linux"), (0x4, "GNU_HURD"),
    (0x5, "SOLARIS"), (0x6, "AIX"), (0x7, "IRIX"), (0x8, "FreeBSD"), (0x9, "Tru64"),
    (0xA, "NovellModesto"), (0xB, "OpenBSD"), (0xC, "OpenVMS"), (0xD, "NonStopKernel"),
    (0xE, "AROS"), (0xF, "FenixOs"), (0x10, "CloudABI"), (0x11, "StratusTechnologiesOpenVOS")]

def isaNames : List (ℕ × String) :=
  [(0x0, "NoSpecificInstructionSet"), (0x1, "AT_T_WE_32100"), (0x2, "SPARC"), (0x3, "X86"),
    (0x4, "Motorola6800"), (0x5, "Motorola8800"), (0x6, "IntelMCU"), (0x7, "Intel80860"),
    (0x8, "MIPS"), (0x9, "IBM_System_370"), (0xA, "MIPS_RS3000_Little_Endian"), (0xE, "HP_PA_RISC"),
    (0x13, "INTEL_80960"), (0x14, "POWERPC"), (0x15, "POWERPC64"), (0x16, "S390"),
    (0x17, "IBM_SPU"), (0x24, "NEC_V800"), (0x25, "FujitsuFR20"), (0x26, "TRW_RH_32"),
    (0x27, "MotorolaRCE"), (0x28, "ARM"), (0x29, "DigitalAlpha"), (0x2A, "SuperH"),
    (0x2B, "SPARC9"), (0x2C, "SiemensTriCore"), (0x2D, "ArgonautRisc"), (0x2E, "HitachiH8_300"),
    (0x2F, "HitachiH8_300H"), (0x30, "HitachiH8S"), (0x31, "HitachiH8_500"), (0x32, "IA64"),
    (0x33, "StanfordMIPS_X"), (0x34, "MotorolaColdFire"), (0x35, "MotorolaM68HC12"),
    (0x36, "FujitsuMMA"), (0x37, "SiemensPCP"), (0x38, "SonyNCpuRisc"), (0x39, "DensoNDR1"),
    (0x3A, "MotorolaStarCore"), (0x3B, "ToyotaME16"), (0x3C, "STM_ST_100"), (0x3D, "TinyJ"),
    (0x3E, "AMD_X86_64"), (0x8C, "TMS320C6000"), (0xB7, "ARM_64"), (0xF3, "RISC_V"),
    (0xF7, "BerkeleyPacketFilter"), (0x101, "WDC_65C816")]

def elfTypeNames : List (ℕ × String) :=
  [(0x1, "A relocatable file"), (0x2, "An executable file"), (0x3, "A shared object"),
    (0x4, "A core file"), (0xFF00, "Processor-specific"), (0xFFFF, "Processor-specific"),
    (0xFE00, "Processor-specific"), (0xFEFF, "Processor-specific")]

def programHeaderTypeNames : List (ℕ × String) :=
  [(0x0, "Program header table entry unused"), (0x1, "Loadable segment"),
    (0x2, "Dynamic linking information"), (0x3, "Interpreter information"),
    (0x4, "Auxiliary information"), (0x5, "Reserved"), (0x6, "Program header"),
    (0x7, "Thread-Local Storage template"), (0x60000000, "Processor-specific"),
    (0x6FFFFFFF, "Processor-specific"), (0x70000000, "Processor-specific"),
    (0x7FFFFFFF, "Processor-specific")]

def stringifyAbiOs (abiOs : BitVec 16) : String :=
  nameOf abiNames "Undetermined" abiOs.toNat

def stringifyIsa (isa : BitVec 16) : String :=
  nameOf isaNames "Undetermined" isa.toNat

def stringifyElfType (type : BitVec 16) : String :=
  nameOf elfTypeNames "An Unknown type" type.toNat

def stringifyProgramHeaderType (type : BitVec 32) : String :=
  nameOf programHeaderTypeNames "Undetermined" type.toNat

/-! ## Printing -/

/-- What `printElfData` prints under its heading. -/
def elfLines (elfInfo : Record) : List (String × List Char) :=
  [("Endianness: ", text (if ElfHeader.isLittleEndian.get elfInfo ≠ 0 then "Little Endian"
      else "Big Endian")),
    ("Is ELF original version: ", text (if ElfHeader.isElfOriginalVersion.get elfInfo ≠ 0 then "true"
      else "false")),
    ("Abi os: ", text (stringifyAbiOs ((ElfHeader.abiOs.get elfInfo).setWidth 16))),
    ("Abi version: 0x", hexadecimal (ElfHeader.abiVersion.get elfInfo).toNat),
    ("Bit depth: 0x", hexadecimal (ElfHeader.bitDepth.get elfInfo).toNat),
    ("Type: ", text (stringifyElfType (ElfHeader.type.get elfInfo))),
    ("Isa: ", text (stringifyIsa (ElfHeader.isa.get elfInfo))),
    ("Elf header size: 0x", hexadecimal (ElfHeader.elfHeaderSize.get elfInfo).toNat),
    ("Program header size: 0x", hexadecimal (ElfHeader.programHeaderSize.get elfInfo).toNat),
    ("Number of program header entries: 0x",
      hexadecimal (ElfHeader.programHeaderEntriesNum.get elfInfo).toNat),
    ("Section header size: 0x", hexadecimal (ElfHeader.sectionHeaderSize.get elfInfo).toNat),
    ("Number of section header entries: 0x",
      hexadecimal (ElfHeader.sectionHeaderEntriesNum.get elfInfo).toNat),
    ("Section header index: 0x", hexadecimal (ElfHeader.sectionHeaderIndex.get elfInfo).toNat),
    ("Flags: 0x", hexadecimal (ElfHeader.flags.get elfInfo).toNat),
    ("Entry point offset: 0x", hexadecimal (ElfHeader.entryPointOffset.get elfInfo).toNat),
    ("Program header offset: 0x", hexadecimal (ElfHeader.programHeaderOffset.get elfInfo).toNat),
    ("Section header offset: 0x", hexadecimal (ElfHeader.sectionHeaderOffset.get elfInfo).toNat)]

def printElfData (elfInfo : Record) : List Char :=
  text "ELF header table\n" ++ lines (elfLines elfInfo)

/-- What `printProgramHeaderData` prints under its heading. -/
def programHeaderLines (programHeader : Record) : List (String × List Char) :=
  [("Type segment: ",
      text (stringifyProgramHeaderType (ProgramHeader.phType.get programHeader))),
    ("Segment-dependent flags(64 bit): 0x",
      hexadecimal (ProgramHeader.phFlags.get programHeader).toNat),
    ("Offset of the segment in the file image: 0x",
      hexadecimal (ProgramHeader.phFileImageSegmentOffset64.get programHeader).toNat),
    ("Virtual address of the segment in memory: 0x",
      hexadecimal (ProgramHeader.phSegmentVAddr64.get programHeader).toNat),
    ("Physical address of the segment in memory: 0x",
      hexadecimal (ProgramHeader.phSegmentPhysAddr64.get programHeader).toNat),
    ("File image size: 0x",
      hexadecimal (ProgramHeader.phSegmentSizeInFileImage64.get programHeader).toNat),
    ("Size of segment in memory: 0x",
      hexadecimal (ProgramHeader.phSegmentSizeInMemory64.get programHeader).toNat),
    ("Segment-dependent flags(32 bit): 0x",
      hexadecimal (ProgramHeader.phSegmentFlags.get programHeader).toNat),
    ("Alignment: 0x", hexadecimal (ProgramHeader.phAlign64.get programHeader).toNat)]

def printProgramHeaderData (programHeader : Record) : List Char :=
  text "\n\nProgram header table information\n" ++ lines (programHeaderLines programHeader)

/-- The two numbers are printed with `%d`, and without line breaks. -/
def printSectionHeaderData (sectionHeader : Record) : List Char :=
  text "\n\nSection header information\n" ++ text "Offset to header's name: " ++
    decimal (SectionHeader.shOffsetToNameString.get sectionHeader).toInt ++
    text "Header's type: " ++ decimal (SectionHeader.shType.get sectionHeader).toInt

/-- What `main` prints. -/
def report (parsed : Parsed) : List Char :=
  printElfData parsed.elfInfo ++ printProgramHeaderData parsed.phData ++
    printSectionHeaderData parsed.shData

/-! ## What a name tells -/

/-- The codes are equal, or neither has a name, or both have one that several codes share. -/
def SameName (names : List (ℕ × String)) (m n : ℕ) : Prop :=
  m = n ∨ (names.lookup m = none ∧ names.lookup n = none) ∨
    (names.lookup m = some "Processor-specific" ∧ names.lookup n = some "Processor-specific")

/-- No other names are shared, the default is not among them, and all can be printed on a line. -/
structure Telling (names : List (ℕ × String)) (other : String) : Prop where
  own : ∀ e ∈ names, ∀ f ∈ names, e.2 = f.2 → e.1 = f.1 ∨ e.2 = "Processor-specific"
  fresh : other ∉ names.map Prod.snd
  oneLine : ∀ name ∈ other :: names.map Prod.snd, newline ∉ text name

theorem telling_abi : Telling abiNames "Undetermined" := by
  refine ⟨?_, ?_, ?_⟩ <;> decide +kernel

theorem telling_isa : Telling isaNames "Undetermined" := by
  refine ⟨?_, ?_, ?_⟩ <;> decide +kernel

theorem telling_elfType : Telling elfTypeNames "An Unknown type" := by
  refine ⟨?_, ?_, ?_⟩ <;> decide +kernel

theorem telling_programHeaderType : Telling programHeaderTypeNames "Undetermined" := by
  refine ⟨?_, ?_, ?_⟩ <;> decide +kernel

namespace Telling

variable {names : List (ℕ × String)} {other : String} (h : Telling names other)
include h

theorem name_eq_iff (m n : ℕ) :
    text (nameOf names other m) = text (nameOf names other n) ↔ SameName names m n := by
  rw [text_inj, nameOf_eq_iff h.fresh, SameName]
  constructor
  · intro heq
    cases hm : names.lookup m with
    | none => exact Or.inr (Or.inl ⟨rfl, heq ▸ hm⟩)
    | some name =>
        have hn : names.lookup n = some name := heq ▸ hm
        rcases h.own _ (mem_of_lookup hm) _ (mem_of_lookup hn) rfl with hcode | hshared
        · exact Or.inl hcode
        · obtain rfl : name = "Processor-specific" := hshared
          exact Or.inr (Or.inr ⟨rfl, hn⟩)
  · rintro (rfl | ⟨hm, hn⟩ | ⟨hm, hn⟩)
    · rfl
    · rw [hm, hn]
    · rw [hm, hn]

theorem newline_notMem (n : ℕ) : newline ∉ text (nameOf names other n) := by
  refine h.oneLine _ ?_
  unfold nameOf
  cases hlookup : names.lookup n with
  | none => exact List.mem_cons_self ..
  | some name => exact List.mem_cons_of_mem _ (List.mem_map.2 ⟨_, mem_of_lookup hlookup, rfl⟩)

end Telling

theorem hexadecimal_toNat_inj {n : ℕ} {v w : BitVec n} :
    hexadecimal v.toNat = hexadecimal w.toNat ↔ v = w :=
  hexadecimal_injective.eq_iff.trans BitVec.toNat_inj

/-- A choice between two words tells which of them was chosen. -/
theorem text_ite_inj {p q : Prop} [Decidable p] [Decidable q] {s t : String} (hne : s ≠ t) :
    text (if p then s else t) = text (if q then s else t) ↔ (p ↔ q) := by
  rw [text_inj]
  by_cases hp : p <;> by_cases hq : q <;> simp [hp, hq, hne, hne.symm]

theorem newline_notMem_ite {p : Prop} [Decidable p] {s t : String} (hs : newline ∉ text s)
    (ht : newline ∉ text t) : newline ∉ text (if p then s else t) := by
  split
  · exact hs
  · exact ht

/-! ## What the report tells -/

/-- The ELF header table is the same. -/
@[mk_iff]
structure SameElfData (r r' : Record) : Prop where
  isLittleEndian : ElfHeader.isLittleEndian.get r ≠ 0 ↔ ElfHeader.isLittleEndian.get r' ≠ 0
  isElfOriginalVersion :
    ElfHeader.isElfOriginalVersion.get r ≠ 0 ↔ ElfHeader.isElfOriginalVersion.get r' ≠ 0
  abiOs : SameName abiNames (ElfHeader.abiOs.get r).toNat (ElfHeader.abiOs.get r').toNat
  abiVersion : ElfHeader.abiVersion.get r = ElfHeader.abiVersion.get r'
  bitDepth : ElfHeader.bitDepth.get r = ElfHeader.bitDepth.get r'
  type : SameName elfTypeNames (ElfHeader.type.get r).toNat (ElfHeader.type.get r').toNat
  isa : SameName isaNames (ElfHeader.isa.get r).toNat (ElfHeader.isa.get r').toNat
  elfHeaderSize : ElfHeader.elfHeaderSize.get r = ElfHeader.elfHeaderSize.get r'
  programHeaderSize : ElfHeader.programHeaderSize.get r = ElfHeader.programHeaderSize.get r'
  programHeaderEntriesNum :
    ElfHeader.programHeaderEntriesNum.get r = ElfHeader.programHeaderEntriesNum.get r'
  sectionHeaderSize : ElfHeader.sectionHeaderSize.get r = ElfHeader.sectionHeaderSize.get r'
  sectionHeaderEntriesNum :
    ElfHeader.sectionHeaderEntriesNum.get r = ElfHeader.sectionHeaderEntriesNum.get r'
  sectionHeaderIndex : ElfHeader.sectionHeaderIndex.get r = ElfHeader.sectionHeaderIndex.get r'
  flags : ElfHeader.flags.get r = ElfHeader.flags.get r'
  entryPointOffset : ElfHeader.entryPointOffset.get r = ElfHeader.entryPointOffset.get r'
  programHeaderOffset : ElfHeader.programHeaderOffset.get r = ElfHeader.programHeaderOffset.get r'
  sectionHeaderOffset : ElfHeader.sectionHeaderOffset.get r = ElfHeader.sectionHeaderOffset.get r'

theorem oneLine_elfLines (r : Record) : OneLine (elfLines r) := by
  simp only [OneLine, elfLines, List.forall_mem_cons, List.not_mem_nil, false_implies, implies_true,
    newline_notMem_hexadecimal, not_false_eq_true, and_true, true_and]
  exact ⟨newline_notMem_ite (by decide) (by decide), newline_notMem_ite (by decide) (by decide),
    telling_abi.newline_notMem _, telling_elfType.newline_notMem _, telling_isa.newline_notMem _⟩

theorem elfLines_append_inj {r r' : Record} {rest rest' : List Char} :
    lines (elfLines r) ++ rest = lines (elfLines r') ++ rest' ↔
      SameElfData r r' ∧ rest = rest' := by
  have hlabels : (elfLines r).map Prod.fst = (elfLines r').map Prod.fst := by
    simp only [elfLines, List.map_cons, List.map_nil]
  rw [lines_append_inj hlabels (oneLine_elfLines r) (oneLine_elfLines r')]
  refine and_congr_left fun _ => ?_
  simp only [elfLines, List.cons.injEq, Prod.mk.injEq, true_and, and_true, hexadecimal_toNat_inj,
    text_ite_inj (show "Little Endian" ≠ "Big Endian" by decide),
    text_ite_inj (show "true" ≠ "false" by decide), stringifyAbiOs, stringifyElfType, stringifyIsa,
    telling_abi.name_eq_iff, telling_elfType.name_eq_iff, telling_isa.name_eq_iff]
  rw [BitVec.toNat_setWidth_of_le (by decide), BitVec.toNat_setWidth_of_le (by decide)]
  exact (sameElfData_iff r r').symm

theorem printElfData_inj {r r' : Record} : printElfData r = printElfData r' ↔ SameElfData r r' := by
  have hlines : lines (elfLines r) ++ [] = lines (elfLines r') ++ [] ↔
      SameElfData r r' ∧ ([] : List Char) = [] := elfLines_append_inj
  simpa [printElfData] using hlines

/-- The program header table is the same. -/
@[mk_iff]
structure SameProgramHeaderData (r r' : Record) : Prop where
  phType : SameName programHeaderTypeNames (ProgramHeader.phType.get r).toNat
    (ProgramHeader.phType.get r').toNat
  phFlags : ProgramHeader.phFlags.get r = ProgramHeader.phFlags.get r'
  phFileImageSegmentOffset64 : ProgramHeader.phFileImageSegmentOffset64.get r
    = ProgramHeader.phFileImageSegmentOffset64.get r'
  phSegmentVAddr64 : ProgramHeader.phSegmentVAddr64.get r = ProgramHeader.phSegmentVAddr64.get r'
  phSegmentPhysAddr64 :
    ProgramHeader.phSegmentPhysAddr64.get r = ProgramHeader.phSegmentPhysAddr64.get r'
  phSegmentSizeInFileImage64 : ProgramHeader.phSegmentSizeInFileImage64.get r
    = ProgramHeader.phSegmentSizeInFileImage64.get r'
  phSegmentSizeInMemory64 :
    ProgramHeader.phSegmentSizeInMemory64.get r = ProgramHeader.phSegmentSizeInMemory64.get r'
  phSegmentFlags : ProgramHeader.phSegmentFlags.get r = ProgramHeader.phSegmentFlags.get r'
  phAlign64 : ProgramHeader.phAlign64.get r = ProgramHeader.phAlign64.get r'

theorem oneLine_programHeaderLines (r : Record) : OneLine (programHeaderLines r) := by
  simp only [OneLine, programHeaderLines, List.forall_mem_cons, List.not_mem_nil, false_implies,
    implies_true, newline_notMem_hexadecimal, not_false_eq_true, and_true]
  exact telling_programHeaderType.newline_notMem _

theorem programHeaderLines_append_inj {r r' : Record} {rest rest' : List Char} :
    lines (programHeaderLines r) ++ rest = lines (programHeaderLines r') ++ rest' ↔
      SameProgramHeaderData r r' ∧ rest = rest' := by
  have hlabels : (programHeaderLines r).map Prod.fst = (programHeaderLines r').map Prod.fst := by
    simp only [programHeaderLines, List.map_cons, List.map_nil]
  rw [lines_append_inj hlabels (oneLine_programHeaderLines r) (oneLine_programHeaderLines r')]
  refine and_congr_left fun _ => ?_
  simp only [programHeaderLines, List.cons.injEq, Prod.mk.injEq, true_and, and_true,
    hexadecimal_toNat_inj, stringifyProgramHeaderType, telling_programHeaderType.name_eq_iff]
  exact (sameProgramHeaderData_iff r r').symm

/-- Nothing separates the two numbers, but the label of the second one ends the first. -/
theorem printSectionHeaderData_inj {r r' : Record} :
    printSectionHeaderData r = printSectionHeaderData r' ↔ SameSectionHeader r r' := by
  have hlabel : text "Header's type: " = 'H' :: text "eader's type: " := by decide
  have hend : ∀ v, 'H' ∉ decimal v := notMem_decimal (by decide) (by decide)
  simp only [printSectionHeaderData, List.append_assoc, hlabel, List.cons_append,
    List.append_cancel_left_eq]
  rw [append_cons_inj (hend _) (hend _), List.append_cancel_left_eq, decimal_injective.eq_iff,
    decimal_injective.eq_iff, BitVec.toInt_inj, BitVec.toInt_inj]
  exact ⟨fun h => ⟨h.1, h.2⟩, fun h => ⟨h.shOffsetToNameString, h.shType⟩⟩

/-- For all records that `main` can have before it prints: the reports are equal if and only if every
    number in the three tables is, both byte orders and both version marks are, and the operating
    systems, types and instruction sets are as far as their names tell. -/
theorem report_iff (parsed parsed' : Parsed) :
    report parsed = report parsed' ↔ SameElfData parsed.elfInfo parsed'.elfInfo ∧
      SameProgramHeaderData parsed.phData parsed'.phData ∧
      SameSectionHeader parsed.shData parsed'.shData := by
  simp only [report, printElfData, printProgramHeaderData, List.append_assoc,
    List.append_cancel_left_eq]
  rw [elfLines_append_inj, List.append_cancel_left_eq, programHeaderLines_append_inj,
    printSectionHeaderData_inj]

/-! ## The headers of object files -/

theorem byteSwap_inj {n : ℕ} {v w : BitVec (8 * n)} : byteSwap n v = byteSwap n w ↔ v = w := by
  constructor
  · intro h
    rw [← byteSwap_byteSwap v, h, byteSwap_byteSwap]
  · exact congrArg (byteSwap n)

/-- Reading a number in either byte order loses nothing. -/
theorem view_inj {n : ℕ} (order : ByteOrder) {v w : BitVec (8 * n)} :
    order.view v = order.view w ↔ v = w := by
  cases order with
  | little => exact Iff.rfl
  | big => exact byteSwap_inj

/-- As much of an address as the class has room for. -/
def ElfClass.room (c : ElfClass) (v : BitVec 64) : BitVec 64 :=
  match c with
  | .elf32 => (v.setWidth 32).setWidth 64
  | .elf64 => v

theorem widen_inj {v w : BitVec 32} :
    (v.setWidth 64 : BitVec 64) = w.setWidth 64 ↔ v = w := by
  constructor
  · intro h
    have hlow := congrArg (fun x : BitVec 64 => x.setWidth 32) h
    simpa using hlow
  · exact congrArg _

theorem high_half_inj {v w : BitVec 32} :
    (v.setWidth 64 : BitVec 64) <<< 32 = w.setWidth 64 <<< 32 ↔ v = w := by
  constructor
  · intro h
    apply BitVec.eq_of_getLsbD_eq
    intro i hi
    have hbit := congrArg (fun x : BitVec 64 => x.getLsbD (32 + i)) h
    simpa [BitVec.getLsbD_shiftLeft, show 32 + i < 64 by omega, show ¬ 32 + i < 32 by omega, hi]
      using hbit
  · rintro rfl
    rfl

/-- Parsed addresses are equal exactly when what was encoded of them is. -/
theorem parsedAddress_inj {c : ElfClass} {order : ByteOrder} {p p' : Bytes} {off32 off64 : ℕ}
    {v v' : BitVec 64} (h : AddressAt c order p off32 off64 v)
    (h' : AddressAt c order p' off32 off64 v') :
    c.parsedAddress p off32 off64 = c.parsedAddress p' off32 off64 ↔ c.room v = c.room v' := by
  cases c with
  | elf32 =>
      simp only [AddressAt] at h h'
      simp only [ElfClass.parsedAddress, ElfClass.room]
      rw [high_half_inj, h, h', view_inj, widen_inj]
  | elf64 =>
      simp only [AddressAt] at h h'
      simp only [ElfClass.parsedAddress, ElfClass.room]
      rw [h, h', view_inj]

/-- What the table says of two headers of one class and byte order is the same. -/
@[mk_iff]
structure SameHeaderData (c : ElfClass) (order : ByteOrder) (h h' : LogicalHeader) : Prop where
  identVersion : h.identVersion = 1 ↔ h'.identVersion = 1
  osAbi : h.osAbi = h'.osAbi
  abiVersion : h.abiVersion = h'.abiVersion
  type : SameName elfTypeNames (order.view (n := 2) h.type).toNat (order.view (n := 2) h'.type).toNat
  machine :
    SameName isaNames (order.view (n := 2) h.machine).toNat (order.view (n := 2) h'.machine).toNat
  entry : c.room h.entry = c.room h'.entry
  phoff : c.room h.phoff = c.room h'.phoff
  shoff : c.room h.shoff = c.room h'.shoff
  flags : h.flags = h'.flags
  ehsize : h.ehsize = h'.ehsize
  phentsize : h.phentsize = h'.phentsize
  phnum : h.phnum = h'.phnum
  shentsize : h.shentsize = h'.shentsize
  shnum : h.shnum = h'.shnum
  shstrndx : h.shstrndx = h'.shstrndx

instance (names : List (ℕ × String)) : DecidableRel (SameName names) := fun m n =>
  inferInstanceAs (Decidable (m = n ∨ (names.lookup m = none ∧ names.lookup n = none) ∨
    (names.lookup m = some "Processor-specific" ∧ names.lookup n = some "Processor-specific")))

/-- Every ABI that is accepted has a name of its own, or is the only one without. -/
theorem sameName_abi_iff {a b : Byte} (ha : a ≤ 0x12) (hb : b ≤ 0x12) :
    SameName abiNames a.toNat b.toNat ↔ a = b := by
  have hall : ∀ m < 0x13, ∀ n < 0x13, SameName abiNames m n → m = n := by
    decide +kernel
  constructor
  · intro h
    exact BitVec.eq_of_toNat_eq (hall _ (Nat.lt_succ_of_le ha) _ (Nat.lt_succ_of_le hb) h)
  · rintro rfl
    exact Or.inl rfl

theorem depth_inj {c c' : ElfClass} : c.depth = c'.depth ↔ c = c' := by
  cases c <;> cases c' <;> decide

theorem isLittleEndian_iff {c : ElfClass} {order : ByteOrder} {p : Bytes} {r : Record}
    (hr : ParsedFrom c order p r) : ElfHeader.isLittleEndian.get r ≠ 0 ↔ order = .little := by
  rw [hr.isLittleEndian]
  cases order <;> decide

theorem isElfOriginalVersion_iff {c : ElfClass} {order : ByteOrder} {p : Bytes} {r : Record}
    (hr : ParsedFrom c order p r) : ElfHeader.isElfOriginalVersion.get r ≠ 0 ↔ p 6 = 1 := by
  rw [hr.isElfOriginalVersion]
  by_cases h : p 6 = 1 <;> simp [h]

/-- Two members that were both loaded as the encoder wrote them. -/
theorem loaded_inj {n : ℕ} {f : Field n} {r r' : Record} {x x' v v' : BitVec (8 * n)}
    (order : ByteOrder) (hr : f.get r = x) (hx : x = order.view v) (hr' : f.get r' = x')
    (hx' : x' = order.view v') : f.get r = f.get r' ↔ v = v' := by
  rw [hr, hx, hr', hx', view_inj]

theorem sameName_loaded (names : List (ℕ × String)) {n : ℕ} {f : Field n} {r r' : Record}
    {v v' : BitVec (8 * n)} (hr : f.get r = v) (hr' : f.get r' = v') :
    SameName names (f.get r).toNat (f.get r').toNat ↔ SameName names v.toNat v'.toNat := by
  rw [hr, hr']

/-- One class and byte order: what the tables of two encoded headers have in common. -/
theorem sameElfData_iff_of_encoded {c : ElfClass} {order : ByteOrder} {h h' : LogicalHeader}
    {p p' : Bytes} (hp : Encoded c order h p) (hp' : Encoded c order h' p')
    (hosAbi : h.osAbi ≤ 0x12) (hosAbi' : h'.osAbi ≤ 0x12) :
    SameElfData (headerRecord c order p) (headerRecord c order p')
      ↔ SameHeaderData c order h h' := by
  have hr := headerRecord_parsedFrom c order p
  have hr' := headerRecord_parsedFrom c order p'
  have hversion : (ElfHeader.isElfOriginalVersion.get (headerRecord c order p) ≠ 0 ↔
      ElfHeader.isElfOriginalVersion.get (headerRecord c order p') ≠ 0) ↔
      (h.identVersion = 1 ↔ h'.identVersion = 1) := by
    rw [isElfOriginalVersion_iff hr, isElfOriginalVersion_iff hr', hp.identVersion, hp'.identVersion]
  have hosAbi_iff : SameName abiNames (ElfHeader.abiOs.get (headerRecord c order p)).toNat
      (ElfHeader.abiOs.get (headerRecord c order p')).toNat ↔ h.osAbi = h'.osAbi := by
    rw [hr.abiOs, hr'.abiOs, hp.osAbi, hp'.osAbi, sameName_abi_iff hosAbi hosAbi']
  have habiVersion : ElfHeader.abiVersion.get (headerRecord c order p)
      = ElfHeader.abiVersion.get (headerRecord c order p') ↔ h.abiVersion = h'.abiVersion := by
    rw [hr.abiVersion, hr'.abiVersion, hp.abiVersion, hp'.abiVersion]
  have htype := sameName_loaded elfTypeNames (hr.type.trans hp.type) (hr'.type.trans hp'.type)
  have hisa := sameName_loaded isaNames (hr.isa.trans hp.machine) (hr'.isa.trans hp'.machine)
  have hflags : ElfHeader.flags.get (headerRecord c order p)
      = ElfHeader.flags.get (headerRecord c order p') ↔ h.flags = h'.flags := by
    rw [hr.flags, hr'.flags, hp.flags, hp'.flags, byteSwap_inj, view_inj]
  have hentry := parsedAddress_inj hp.entry hp'.entry
  have hphoff := parsedAddress_inj hp.phoff hp'.phoff
  have hshoff := parsedAddress_inj hp.shoff hp'.shoff
  rw [← hr.entryPointOffset, ← hr'.entryPointOffset] at hentry
  rw [← hr.programHeaderOffset, ← hr'.programHeaderOffset] at hphoff
  rw [← hr.sectionHeaderOffset, ← hr'.sectionHeaderOffset] at hshoff
  have hehsize := loaded_inj order hr.elfHeaderSize hp.ehsize hr'.elfHeaderSize hp'.ehsize
  have hphentsize :=
    loaded_inj order hr.programHeaderSize hp.phentsize hr'.programHeaderSize hp'.phentsize
  have hphnum :=
    loaded_inj order hr.programHeaderEntriesNum hp.phnum hr'.programHeaderEntriesNum hp'.phnum
  have hshentsize :=
    loaded_inj order hr.sectionHeaderSize hp.shentsize hr'.sectionHeaderSize hp'.shentsize
  have hshnum :=
    loaded_inj order hr.sectionHeaderEntriesNum hp.shnum hr'.sectionHeaderEntriesNum hp'.shnum
  have hshstrndx :=
    loaded_inj order hr.sectionHeaderIndex hp.shstrndx hr'.sectionHeaderIndex hp'.shstrndx
  constructor
  · intro hsame
    exact ⟨hversion.1 hsame.isElfOriginalVersion, hosAbi_iff.1 hsame.abiOs,
      habiVersion.1 hsame.abiVersion, htype.1 hsame.type, hisa.1 hsame.isa,
      hentry.1 hsame.entryPointOffset, hphoff.1 hsame.programHeaderOffset,
      hshoff.1 hsame.sectionHeaderOffset, hflags.1 hsame.flags, hehsize.1 hsame.elfHeaderSize,
      hphentsize.1 hsame.programHeaderSize, hphnum.1 hsame.programHeaderEntriesNum,
      hshentsize.1 hsame.sectionHeaderSize, hshnum.1 hsame.sectionHeaderEntriesNum,
      hshstrndx.1 hsame.sectionHeaderIndex⟩
  · intro hsame
    exact ⟨(isLittleEndian_iff hr).trans (isLittleEndian_iff hr').symm,
      hversion.2 hsame.identVersion, hosAbi_iff.2 hsame.osAbi, habiVersion.2 hsame.abiVersion,
      hr.bitDepth.trans hr'.bitDepth.symm, htype.2 hsame.type, hisa.2 hsame.machine,
      hehsize.2 hsame.ehsize, hphentsize.2 hsame.phentsize, hphnum.2 hsame.phnum,
      hshentsize.2 hsame.shentsize, hshnum.2 hsame.shnum, hshstrndx.2 hsame.shstrndx,
      hflags.2 hsame.flags, hentry.2 hsame.entry, hphoff.2 hsame.phoff, hshoff.2 hsame.shoff⟩

/-- For every two headers, classes and byte orders, and all buffers that begin with their encodings
    and are accepted: the ELF header tables that are printed are equal if and only if the classes and
    the byte orders are, and the headers agree in all numbers that the table shows, addresses as far
    as the class has room for them, types and instruction sets by name. -/
theorem header_report_iff {c c' : ElfClass} {order order' : ByteOrder} {h h' : LogicalHeader}
    {bank bank' : MemoryBank} {r r' : Record} (hp : Holds bank.elfPtr 0 (encode c order h))
    (hp' : Holds bank'.elfPtr 0 (encode c' order' h')) (hparse : parseElfHeader bank = .ok r)
    (hparse' : parseElfHeader bank' = .ok r') :
    printElfData r = printElfData r' ↔ c = c' ∧ order = order' ∧ SameHeaderData c order h h' := by
  obtain ⟨hosAbi, rfl⟩ := (parse_encoded (encoded_of_holds hp)).1 hparse
  obtain ⟨hosAbi', rfl⟩ := (parse_encoded (encoded_of_holds hp')).1 hparse'
  rw [printElfData_inj]
  constructor
  · intro hsame
    have hr := headerRecord_parsedFrom c order bank.elfPtr
    have hr' := headerRecord_parsedFrom c' order' bank'.elfPtr
    have hdepth := hsame.bitDepth
    rw [hr.bitDepth, hr'.bitDepth, depth_inj] at hdepth
    subst hdepth
    have hlittle := hsame.isLittleEndian
    rw [isLittleEndian_iff hr, isLittleEndian_iff hr'] at hlittle
    have horder : order = order' := by
      cases order <;> cases order' <;> simp at hlittle ⊢
    subst horder
    exact ⟨rfl, rfl, (sameElfData_iff_of_encoded (encoded_of_holds hp) (encoded_of_holds hp')
      hosAbi hosAbi').1 hsame⟩
  · rintro ⟨rfl, rfl, hsame⟩
    exact (sameElfData_iff_of_encoded (encoded_of_holds hp) (encoded_of_holds hp') hosAbi
      hosAbi').2 hsame

/-- The equivalence on the sample header in the two classes. -/
theorem header_report_iff_sample :
    printElfData (headerRecord .elf32 .little (bankOf (encode .elf32 .little sampleHeader)).elfPtr)
        = printElfData
            (headerRecord .elf64 .little (bankOf (encode .elf64 .little sampleHeader)).elfPtr) ↔
      ElfClass.elf32 = .elf64 ∧ ByteOrder.little = .little ∧
        SameHeaderData .elf32 .little sampleHeader sampleHeader :=
  header_report_iff (holds_bankOf _) (holds_bankOf _) (parse_bankOf_encode (by decide))
    (parse_bankOf_encode (by decide))

end Yavm.Elf
