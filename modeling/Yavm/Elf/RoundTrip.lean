import Mathlib.Algebra.Group.Nat.Defs
import Yavm.Elf.Acceptance

set_option autoImplicit false

/-! # Encoded headers, parsed

What `parseElfHeader` makes of a buffer that begins with an encoded header (`encode`).

* Little-endian headers are decoded member by member, but for the flags and for the addresses of
  class 32 (`decode_little`).
* The addresses of a class 32 header end up in the high half of their members, so the two classes
  agree on nothing but zero (`classAgreement_iff`).
* The data byte is recorded and never consulted, so a big-endian header is decoded as if it were
  little-endian (`orderAgreement_iff`). -/

namespace Yavm.Elf

open Basis

/-! ## The members of the record -/

/-- The members of a record of class `c`, parsed from the buffer. -/
structure ParsedFrom (c : ElfClass) (order : ByteOrder) (p : Bytes) (r : Record) : Prop where
  bitDepth : ElfHeader.bitDepth.get r = c.depth
  isLittleEndian : ElfHeader.isLittleEndian.get r = if order = .little then 1 else 0
  isElfOriginalVersion : ElfHeader.isElfOriginalVersion.get r = if p 6 = 1 then 1 else 0
  abiOs : ElfHeader.abiOs.get r = p 7
  abiVersion : ElfHeader.abiVersion.get r = p 8
  type : ElfHeader.type.get r = load 2 p 0x10
  isa : ElfHeader.isa.get r = load 2 p 0x12
  entryPointOffset : ElfHeader.entryPointOffset.get r = c.parsedAddress p 0x18 0x18
  programHeaderOffset : ElfHeader.programHeaderOffset.get r = c.parsedAddress p 0x1C 0x20
  sectionHeaderOffset : ElfHeader.sectionHeaderOffset.get r = c.parsedAddress p 0x20 0x28
  flags : ElfHeader.flags.get r = byteSwap 4 (load 4 p (c.pick 0x24 0x30))
  elfHeaderSize : ElfHeader.elfHeaderSize.get r = load 2 p (c.pick 0x28 0x34)
  programHeaderSize : ElfHeader.programHeaderSize.get r = load 2 p (c.pick 0x2A 0x36)
  programHeaderEntriesNum : ElfHeader.programHeaderEntriesNum.get r = load 2 p (c.pick 0x2C 0x38)
  sectionHeaderSize : ElfHeader.sectionHeaderSize.get r = load 2 p (c.pick 0x2E 0x3A)
  sectionHeaderEntriesNum : ElfHeader.sectionHeaderEntriesNum.get r = load 2 p (c.pick 0x30 0x3C)
  sectionHeaderIndex : ElfHeader.sectionHeaderIndex.get r = load 2 p (c.pick 0x32 0x3E)

theorem headerRecord_parsedFrom (c : ElfClass) (order : ByteOrder) (p : Bytes) :
    ParsedFrom c order p (headerRecord c order p) where
  bitDepth := get_headerRecord_ident (List.mem_of_getElem? (i := 0) rfl)
  isLittleEndian := get_headerRecord_ident (List.mem_of_getElem? (i := 1) rfl)
  isElfOriginalVersion := get_headerRecord_ident (List.mem_of_getElem? (i := 2) rfl)
  abiOs := get_headerRecord_ident (List.mem_of_getElem? (i := 3) rfl)
  abiVersion := get_headerRecord_ident (List.mem_of_getElem? (i := 4) rfl)
  type := get_headerRecord (List.mem_of_getElem? (i := 0) rfl)
  isa := get_headerRecord (List.mem_of_getElem? (i := 1) rfl)
  entryPointOffset := get_headerRecord (List.mem_of_getElem? (i := 2) rfl)
  programHeaderOffset := get_headerRecord (List.mem_of_getElem? (i := 3) rfl)
  sectionHeaderOffset := get_headerRecord (List.mem_of_getElem? (i := 4) rfl)
  flags := get_headerRecord (List.mem_of_getElem? (i := 5) rfl)
  elfHeaderSize := get_headerRecord (List.mem_of_getElem? (i := 6) rfl)
  programHeaderSize := get_headerRecord (List.mem_of_getElem? (i := 7) rfl)
  programHeaderEntriesNum := get_headerRecord (List.mem_of_getElem? (i := 8) rfl)
  sectionHeaderSize := get_headerRecord (List.mem_of_getElem? (i := 9) rfl)
  sectionHeaderEntriesNum := get_headerRecord (List.mem_of_getElem? (i := 10) rfl)
  sectionHeaderIndex := get_headerRecord (List.mem_of_getElem? (i := 11) rfl)

/-- A buffer that begins with an encoded header is accepted exactly when its ABI is a known one. -/
theorem accepted_iff {c : ElfClass} {order : ByteOrder} {h : LogicalHeader} {p : Bytes}
    (hp : Encoded c order h p) : Accepted c order p ↔ h.osAbi ≤ 0x12 :=
  ⟨fun hacc => hp.osAbi ▸ hacc.osAbi,
    fun hosAbi => ⟨Or.inl hp.magic.1, hp.elfClass, hp.data, hp.osAbi ▸ hosAbi, hp.pad⟩⟩

theorem ElfClass.code_injective {c c' : ElfClass} (h : c.code = c'.code) : c = c' := by
  cases c <;> cases c' <;> first | rfl | exact absurd h (by decide)

theorem dataCode_injective {order order' : ByteOrder} (h : dataCode order = dataCode order') :
    order = order' := by
  cases order <;> cases order' <;> first | rfl | exact absurd h (by decide)

/-- What is parsed from a buffer of known class and byte order. -/
theorem parseElfHeader_eq_ok_of {bank : MemoryBank} {r : Record} {c : ElfClass} {order : ByteOrder}
    (hclass : bank.elfPtr 4 = c.code) (hdata : bank.elfPtr 5 = dataCode order) :
    parseElfHeader bank = .ok r ↔
      Accepted c order bank.elfPtr ∧ r = headerRecord c order bank.elfPtr := by
  rw [parseElfHeader_eq_ok]
  constructor
  · intro h
    obtain ⟨c', order', hacc, hr⟩ := h
    obtain rfl := ElfClass.code_injective (hclass.symm.trans hacc.elfClass)
    obtain rfl := dataCode_injective (hdata.symm.trans hacc.data)
    exact ⟨hacc, hr⟩
  · intro h
    obtain ⟨hacc, hr⟩ := h
    exact ⟨c, order, hacc, hr⟩

/-- An encoded header, parsed. -/
theorem parse_encoded {bank : MemoryBank} {r : Record} {c : ElfClass} {order : ByteOrder}
    {h : LogicalHeader} (hp : Encoded c order h bank.elfPtr) :
    parseElfHeader bank = .ok r ↔ h.osAbi ≤ 0x12 ∧ r = headerRecord c order bank.elfPtr := by
  rw [parseElfHeader_eq_ok_of hp.elfClass hp.data, accepted_iff hp]

/-! ## Little-endian headers -/

/-- The record has the numbers of the header, in every member that the reader decodes in class
    `c`. -/
structure DecodesTo (c : ElfClass) (r : Record) (h : LogicalHeader) : Prop where
  bitDepth : ElfHeader.bitDepth.get r = c.depth
  isLittleEndian : ElfHeader.isLittleEndian.get r = 1
  isElfOriginalVersion :
    ElfHeader.isElfOriginalVersion.get r = if h.identVersion = 1 then 1 else 0
  abiOs : ElfHeader.abiOs.get r = h.osAbi
  abiVersion : ElfHeader.abiVersion.get r = h.abiVersion
  type : ElfHeader.type.get r = h.type
  isa : ElfHeader.isa.get r = h.machine
  elfHeaderSize : ElfHeader.elfHeaderSize.get r = h.ehsize
  programHeaderSize : ElfHeader.programHeaderSize.get r = h.phentsize
  programHeaderEntriesNum : ElfHeader.programHeaderEntriesNum.get r = h.phnum
  sectionHeaderSize : ElfHeader.sectionHeaderSize.get r = h.shentsize
  sectionHeaderEntriesNum : ElfHeader.sectionHeaderEntriesNum.get r = h.shnum
  sectionHeaderIndex : ElfHeader.sectionHeaderIndex.get r = h.shstrndx
  addresses : c = .elf64 → ElfHeader.entryPointOffset.get r = h.entry ∧
    ElfHeader.programHeaderOffset.get r = h.phoff ∧ ElfHeader.sectionHeaderOffset.get r = h.shoff

theorem ParsedFrom.decodesTo {c : ElfClass} {p : Bytes} {r : Record}
    (hr : ParsedFrom c .little p r) : DecodesTo c r (headerIn c p) where
  bitDepth := hr.bitDepth
  isLittleEndian := hr.isLittleEndian
  isElfOriginalVersion := hr.isElfOriginalVersion
  abiOs := hr.abiOs
  abiVersion := hr.abiVersion
  type := hr.type
  isa := hr.isa
  elfHeaderSize := hr.elfHeaderSize
  programHeaderSize := hr.programHeaderSize
  programHeaderEntriesNum := hr.programHeaderEntriesNum
  sectionHeaderSize := hr.sectionHeaderSize
  sectionHeaderEntriesNum := hr.sectionHeaderEntriesNum
  sectionHeaderIndex := hr.sectionHeaderIndex
  addresses := by
    rintro rfl
    exact ⟨hr.entryPointOffset, hr.programHeaderOffset, hr.sectionHeaderOffset⟩

/-- Cutting the addresses of class 32 makes no difference to what is decoded in it. -/
theorem DecodesTo.of_asClass {c : ElfClass} {r : Record} {h : LogicalHeader}
    (hr : DecodesTo c r (h.asClass c)) : DecodesTo c r h := by
  cases c with
  | elf32 =>
      obtain ⟨h₁, h₂, h₃, h₄, h₅, h₆, h₇, h₈, h₉, h₁₀, h₁₁, h₁₂, h₁₃, -⟩ := hr
      exact ⟨h₁, h₂, h₃, h₄, h₅, h₆, h₇, h₈, h₉, h₁₀, h₁₁, h₁₂, h₁₃, by simp⟩
  | elf64 => exact hr

/-- In class 32 nothing behind the 52 bytes of the header is read. -/
theorem headerRecord_congr {order : ByteOrder} {p q : Bytes} (h : ∀ i < 52, p i = q i) :
    headerRecord .elf32 order p = headerRecord .elf32 order q := by
  have hload : ∀ n off, off + n ≤ 52 → load n p off = load n q off := by
    intro n off hoff
    rw [load_eq_load_iff]
    intro k hk
    exact h (off + k) (by omega)
  have hident : identMembers .elf32 order p = identMembers .elf32 order q := by
    rw [identMembers, h 6 (by decide), h 7 (by decide), h 8 (by decide)]
    rfl
  have hmembers : members .elf32 p = members .elf32 q := by
    simp (disch := decide) only [members, ElfClass.parsedAddress, ElfClass.pick, hload]
  rw [headerRecord, identRecord, hident, hmembers]
  rfl

/-- For both classes: whatever buffer with data byte 1 `parseElfHeader` accepts, the record has in
    each member, the flags and the addresses of class 32 apart, the little-endian number at its
    standard offset; so an encoded header whose ABI is accepted is given back. In class 32 the
    record depends on the first 52 bytes only. -/
theorem decode_little :
    (∀ c bank r, parseElfHeader bank = .ok r → bank.elfPtr 4 = c.code → bank.elfPtr 5 = 1 →
      DecodesTo c r (headerIn c bank.elfPtr)) ∧
    (∀ c h bank, Holds bank.elfPtr 0 (encode c .little h) → h.osAbi ≤ 0x12 →
      ∃ r, parseElfHeader bank = .ok r ∧ DecodesTo c r h) ∧
    (∀ bank bank' r r', parseElfHeader bank = .ok r → parseElfHeader bank' = .ok r' →
      bank.elfPtr 4 = 1 → (∀ i < 52, bank.elfPtr i = bank'.elfPtr i) → r = r') := by
  refine ⟨fun c bank r hparse hclass hdata => ?_, fun c h bank hp hosAbi => ?_,
    fun bank bank' r r' hparse hparse' hclass hsame => ?_⟩
  · have hdata' : bank.elfPtr 5 = dataCode .little := hdata
    obtain ⟨-, rfl⟩ := (parseElfHeader_eq_ok_of hclass hdata').1 hparse
    exact (headerRecord_parsedFrom c .little bank.elfPtr).decodesTo
  · have hencoded := encoded_of_holds hp
    refine ⟨_, (parse_encoded hencoded).2 ⟨hosAbi, rfl⟩, ?_⟩
    apply DecodesTo.of_asClass
    rw [← headerIn_eq hencoded]
    exact (headerRecord_parsedFrom c .little bank.elfPtr).decodesTo
  · obtain ⟨c, order, hacc, rfl⟩ := parseElfHeader_eq_ok.1 hparse
    obtain rfl : c = .elf32 := ElfClass.code_injective (hacc.elfClass.symm.trans hclass)
    have hclass' : bank'.elfPtr 4 = ElfClass.elf32.code := hsame 4 (by decide) ▸ hclass
    have hdata' : bank'.elfPtr 5 = dataCode order := hsame 5 (by decide) ▸ hacc.data
    obtain ⟨-, rfl⟩ := (parseElfHeader_eq_ok_of hclass' hdata').1 hparse'
    exact headerRecord_congr hsame

/-- A memory bank whose ELF buffer begins with the given bytes. -/
def bankOf (bs : List Byte) : MemoryBank :=
  { initMemoryBank with elfPtr := bytesOf bs }

theorem holds_bankOf (bs : List Byte) : Holds (bankOf bs).elfPtr 0 bs :=
  holds_bytesOf bs

/-- An x86-64 executable that is loaded at 0x400000. -/
def sampleHeader : LogicalHeader where
  identVersion := 1
  osAbi := 0
  abiVersion := 0
  type := 2
  machine := 0x3E
  version := 1
  entry := 0x401000
  phoff := 0x40
  shoff := 0x1000
  flags := 0
  ehsize := 0x40
  phentsize := 0x38
  phnum := 1
  shentsize := 0x40
  shnum := 1
  shstrndx := 0

/-- The sample header is given back. -/
theorem decode_little_sample :
    ∃ r, parseElfHeader (bankOf (encode .elf64 .little sampleHeader)) = .ok r ∧
      DecodesTo .elf64 r sampleHeader :=
  decode_little.2.1 .elf64 sampleHeader _ (holds_bytesOf _) (by decide)

/-! ## The flags -/

/-- For both classes and every buffer with data byte 1 that `parseElfHeader` accepts: the flags are
    the little-endian value of their four bytes if and only if these read the same from both
    ends. -/
theorem flags_iff {c : ElfClass} {bank : MemoryBank} {r : Record}
    (hparse : parseElfHeader bank = .ok r) (hclass : bank.elfPtr 4 = c.code)
    (hdata : bank.elfPtr 5 = 1) :
    ElfHeader.flags.get r = load 4 bank.elfPtr (c.pick 0x24 0x30) ↔
      bank.elfPtr (c.pick 0x24 0x30) = bank.elfPtr (c.pick 0x24 0x30 + 3) ∧
        bank.elfPtr (c.pick 0x24 0x30 + 1) = bank.elfPtr (c.pick 0x24 0x30 + 2) := by
  have hdata' : bank.elfPtr 5 = dataCode .little := hdata
  obtain ⟨-, rfl⟩ := (parseElfHeader_eq_ok_of hclass hdata').1 hparse
  rw [(headerRecord_parsedFrom c .little bank.elfPtr).flags]
  refine byteSwap_load_eq_iff.trans ?_
  constructor
  · intro h
    exact ⟨h 3 (by decide), h 2 (by decide)⟩
  · intro ⟨houter, hinner⟩ k hk
    obtain rfl | rfl | rfl | rfl : k = 0 ∨ k = 1 ∨ k = 2 ∨ k = 3 := by omega
    · exact houter.symm
    · exact hinner.symm
    · exact hinner
    · exact houter

/-- The record of an encoded header whose ABI is accepted. -/
theorem parse_bankOf_encode {c : ElfClass} {order : ByteOrder} {h : LogicalHeader}
    (hosAbi : h.osAbi ≤ 0x12) :
    parseElfHeader (bankOf (encode c order h))
      = .ok (headerRecord c order (bankOf (encode c order h)).elfPtr) := by
  rw [parse_encoded (encoded_of_holds (holds_bankOf _))]
  exact ⟨hosAbi, rfl⟩

/-- The equivalence on the sample header. -/
theorem flags_iff_sample :
    let bank := bankOf (encode .elf64 .little sampleHeader)
    ElfHeader.flags.get (headerRecord .elf64 .little bank.elfPtr) = load 4 bank.elfPtr 0x30 ↔
      bank.elfPtr 0x30 = bank.elfPtr 0x33 ∧ bank.elfPtr 0x31 = bank.elfPtr 0x32 :=
  flags_iff (c := .elf64) (parse_bankOf_encode (by decide)) rfl rfl

/-- The flags `1` are parsed as `0x1000000`. -/
theorem flags_broken_by_one :
    ∃ r, parseElfHeader (bankOf (encode .elf64 .little { sampleHeader with flags := 1 })) = .ok r ∧
      ElfHeader.flags.get r = 0x1000000 ∧
      load 4 (bankOf (encode .elf64 .little { sampleHeader with flags := 1 })).elfPtr 0x30 = 1 := by
  have hp : Encoded .elf64 .little { sampleHeader with flags := 1 }
      (bankOf (encode .elf64 .little { sampleHeader with flags := 1 })).elfPtr :=
    encoded_of_holds (holds_bankOf _)
  refine ⟨_, parse_bankOf_encode (by decide), ?_, hp.flags⟩
  rw [(headerRecord_parsedFrom .elf64 .little _).flags, hp.flags]
  decide

/-! ## The two classes -/

/-- The record has the addresses of the header. -/
def HasAddresses (h : LogicalHeader) (r : Record) : Prop :=
  ElfHeader.entryPointOffset.get r = h.entry ∧ ElfHeader.programHeaderOffset.get r = h.phoff ∧
    ElfHeader.sectionHeaderOffset.get r = h.shoff

/-- Both encodings are parsed, to the addresses that were encoded. -/
def ClassesAgree (h : LogicalHeader) (bank32 bank64 : MemoryBank) : Prop :=
  ∃ r32 r64, parseElfHeader bank32 = .ok r32 ∧ parseElfHeader bank64 = .ok r64 ∧
    HasAddresses h r32 ∧ HasAddresses h r64

/-- A number below 2³² that was moved to the high half of a member is still there only if it is
    zero. -/
theorem high_half_eq_iff {v : BitVec 64} (hv : v.toNat < 2 ^ 32) :
    (v.setWidth 32).setWidth 64 <<< 32 = v ↔ v = 0 := by
  constructor
  · intro h
    have hnat := congrArg BitVec.toNat h
    simp only [BitVec.toNat_shiftLeft, BitVec.toNat_setWidth, Nat.shiftLeft_eq] at hnat
    apply BitVec.eq_of_toNat_eq
    change v.toNat = 0
    omega
  · rintro rfl
    rfl

/-- What a class 32 encoding of an address ends up as. -/
theorem parsedAddress_elf32 {p : Bytes} {off32 off64 : ℕ} {v : BitVec 64}
    (h : AddressAt .elf32 .little p off32 off64 v) :
    ElfClass.elf32.parsedAddress p off32 off64 = (v.setWidth 32).setWidth 64 <<< 32 :=
  congrArg (fun x : BitVec 32 => x.setWidth 64 <<< 32) h

theorem hasAddresses_elf32_iff {h : LogicalHeader} (hentry : h.entry.toNat < 2 ^ 32)
    (hphoff : h.phoff.toNat < 2 ^ 32) (hshoff : h.shoff.toNat < 2 ^ 32) {p : Bytes}
    (hp : Encoded .elf32 .little h p) :
    HasAddresses h (headerRecord .elf32 .little p) ↔ h.entry = 0 ∧ h.phoff = 0 ∧ h.shoff = 0 := by
  have hr := headerRecord_parsedFrom .elf32 .little p
  rw [HasAddresses, hr.entryPointOffset, hr.programHeaderOffset, hr.sectionHeaderOffset,
    parsedAddress_elf32 hp.entry, parsedAddress_elf32 hp.phoff, parsedAddress_elf32 hp.shoff,
    high_half_eq_iff hentry, high_half_eq_iff hphoff, high_half_eq_iff hshoff]

theorem hasAddresses_elf64 {h : LogicalHeader} {p : Bytes} (hp : Encoded .elf64 .little h p) :
    HasAddresses h (headerRecord .elf64 .little p) := by
  have hr := headerRecord_parsedFrom .elf64 .little p
  exact ⟨hr.entryPointOffset.trans hp.entry, hr.programHeaderOffset.trans hp.phoff,
    hr.sectionHeaderOffset.trans hp.shoff⟩

/-- For every header with addresses below 2³² and all buffers that begin with its little-endian
    class 32 and class 64 encodings: both are parsed to the addresses that were encoded if and only
    if the ABI is accepted and the three addresses are zero. -/
theorem classAgreement_iff {h : LogicalHeader} (hentry : h.entry.toNat < 2 ^ 32)
    (hphoff : h.phoff.toNat < 2 ^ 32) (hshoff : h.shoff.toNat < 2 ^ 32) {bank32 bank64 : MemoryBank}
    (h32 : Holds bank32.elfPtr 0 (encode .elf32 .little h))
    (h64 : Holds bank64.elfPtr 0 (encode .elf64 .little h)) :
    ClassesAgree h bank32 bank64 ↔ h.osAbi ≤ 0x12 ∧ h.entry = 0 ∧ h.phoff = 0 ∧ h.shoff = 0 := by
  have hp32 := encoded_of_holds h32
  have hp64 := encoded_of_holds h64
  rw [← hasAddresses_elf32_iff hentry hphoff hshoff hp32]
  constructor
  · rintro ⟨r32, r64, hparse32, -, haddr, -⟩
    obtain ⟨hosAbi, rfl⟩ := (parse_encoded hp32).1 hparse32
    exact ⟨hosAbi, haddr⟩
  · rintro ⟨hosAbi, haddr⟩
    exact ⟨_, _, (parse_encoded hp32).2 ⟨hosAbi, rfl⟩, (parse_encoded hp64).2 ⟨hosAbi, rfl⟩, haddr,
      hasAddresses_elf64 hp64⟩

/-- The equivalence on the sample header without addresses. -/
theorem classAgreement_iff_no_addresses :
    let h := { sampleHeader with entry := 0, phoff := 0, shoff := 0 }
    ClassesAgree h (bankOf (encode .elf32 .little h)) (bankOf (encode .elf64 .little h)) ↔
      h.osAbi ≤ 0x12 ∧ h.entry = 0 ∧ h.phoff = 0 ∧ h.shoff = 0 :=
  classAgreement_iff (by decide) (by decide) (by decide) (holds_bytesOf _) (holds_bytesOf _)

/-- In class 32 the entry point of the sample header is parsed as `0x40100000000000`. -/
theorem classAgreement_broken_by_entry :
    ¬ ClassesAgree sampleHeader (bankOf (encode .elf32 .little sampleHeader))
      (bankOf (encode .elf64 .little sampleHeader)) := by
  intro h
  obtain ⟨r32, r64, hparse32, -, haddr, -⟩ := h
  have hp : Encoded .elf32 .little sampleHeader
      (bankOf (encode .elf32 .little sampleHeader)).elfPtr := encoded_of_holds (holds_bytesOf _)
  obtain ⟨-, rfl⟩ := (parse_encoded hp).1 hparse32
  have hzero := (hasAddresses_elf32_iff (by decide) (by decide) (by decide) hp).1 haddr
  exact absurd hzero.1 (by decide)

/-! ## The two byte orders -/

/-- The records agree in every member but `isLittleEndian`. -/
structure SameNumbers (r r' : Record) : Prop where
  bitDepth : ElfHeader.bitDepth.get r = ElfHeader.bitDepth.get r'
  isElfOriginalVersion :
    ElfHeader.isElfOriginalVersion.get r = ElfHeader.isElfOriginalVersion.get r'
  abiOs : ElfHeader.abiOs.get r = ElfHeader.abiOs.get r'
  abiVersion : ElfHeader.abiVersion.get r = ElfHeader.abiVersion.get r'
  type : ElfHeader.type.get r = ElfHeader.type.get r'
  isa : ElfHeader.isa.get r = ElfHeader.isa.get r'
  flags : ElfHeader.flags.get r = ElfHeader.flags.get r'
  entryPointOffset : ElfHeader.entryPointOffset.get r = ElfHeader.entryPointOffset.get r'
  programHeaderOffset : ElfHeader.programHeaderOffset.get r = ElfHeader.programHeaderOffset.get r'
  sectionHeaderOffset : ElfHeader.sectionHeaderOffset.get r = ElfHeader.sectionHeaderOffset.get r'
  elfHeaderSize : ElfHeader.elfHeaderSize.get r = ElfHeader.elfHeaderSize.get r'
  programHeaderSize : ElfHeader.programHeaderSize.get r = ElfHeader.programHeaderSize.get r'
  programHeaderEntriesNum :
    ElfHeader.programHeaderEntriesNum.get r = ElfHeader.programHeaderEntriesNum.get r'
  sectionHeaderSize : ElfHeader.sectionHeaderSize.get r = ElfHeader.sectionHeaderSize.get r'
  sectionHeaderEntriesNum :
    ElfHeader.sectionHeaderEntriesNum.get r = ElfHeader.sectionHeaderEntriesNum.get r'
  sectionHeaderIndex : ElfHeader.sectionHeaderIndex.get r = ElfHeader.sectionHeaderIndex.get r'

/-- The numbers of the header that read the same in both byte orders. -/
structure Symmetric (h : LogicalHeader) : Prop where
  type : byteSwap 2 h.type = h.type
  machine : byteSwap 2 h.machine = h.machine
  flags : byteSwap 4 h.flags = h.flags
  entry : byteSwap 8 h.entry = h.entry
  phoff : byteSwap 8 h.phoff = h.phoff
  shoff : byteSwap 8 h.shoff = h.shoff
  ehsize : byteSwap 2 h.ehsize = h.ehsize
  phentsize : byteSwap 2 h.phentsize = h.phentsize
  phnum : byteSwap 2 h.phnum = h.phnum
  shentsize : byteSwap 2 h.shentsize = h.shentsize
  shnum : byteSwap 2 h.shnum = h.shnum
  shstrndx : byteSwap 2 h.shstrndx = h.shstrndx

/-- Both encodings are parsed, to records that tell the byte orders apart and agree otherwise. -/
def OrdersAgree (bankLittle bankBig : MemoryBank) : Prop :=
  ∃ rLittle rBig, parseElfHeader bankLittle = .ok rLittle ∧ parseElfHeader bankBig = .ok rBig ∧
    ElfHeader.isLittleEndian.get rLittle = 1 ∧ ElfHeader.isLittleEndian.get rBig = 0 ∧
    SameNumbers rLittle rBig

/-- A member that is loaded as the encoder wrote it shows a big-endian number swapped. -/
theorem same_iff {n : ℕ} {f : Field n} {r r' : Record} {x x' v : BitVec (8 * n)} (hr : f.get r = x)
    (hx : x = v) (hr' : f.get r' = x') (hx' : x' = byteSwap n v) :
    f.get r = f.get r' ↔ byteSwap n v = v := by
  rw [hr, hx, hr', hx', eq_comm]

/-- One equivalence per number. The flags are not swapped back, and so trade places. -/
theorem sameNumbers_iff {h : LogicalHeader} {p q : Bytes} (hp : Encoded .elf64 .little h p)
    (hq : Encoded .elf64 .big h q) :
    SameNumbers (headerRecord .elf64 .little p) (headerRecord .elf64 .big q) ↔ Symmetric h := by
  have hr := headerRecord_parsedFrom .elf64 .little p
  have hr' := headerRecord_parsedFrom .elf64 .big q
  have htype := same_iff hr.type hp.type hr'.type hq.type
  have hisa := same_iff hr.isa hp.machine hr'.isa hq.machine
  have hentry := same_iff hr.entryPointOffset hp.entry hr'.entryPointOffset hq.entry
  have hphoff := same_iff hr.programHeaderOffset hp.phoff hr'.programHeaderOffset hq.phoff
  have hshoff := same_iff hr.sectionHeaderOffset hp.shoff hr'.sectionHeaderOffset hq.shoff
  have hehsize := same_iff hr.elfHeaderSize hp.ehsize hr'.elfHeaderSize hq.ehsize
  have hphentsize := same_iff hr.programHeaderSize hp.phentsize hr'.programHeaderSize hq.phentsize
  have hphnum := same_iff hr.programHeaderEntriesNum hp.phnum hr'.programHeaderEntriesNum hq.phnum
  have hshentsize := same_iff hr.sectionHeaderSize hp.shentsize hr'.sectionHeaderSize hq.shentsize
  have hshnum := same_iff hr.sectionHeaderEntriesNum hp.shnum hr'.sectionHeaderEntriesNum hq.shnum
  have hshstrndx := same_iff hr.sectionHeaderIndex hp.shstrndx hr'.sectionHeaderIndex hq.shstrndx
  have hflags : ElfHeader.flags.get (headerRecord .elf64 .little p)
      = ElfHeader.flags.get (headerRecord .elf64 .big q) ↔ byteSwap 4 h.flags = h.flags := by
    rw [hr.flags, hr'.flags, hp.flags, hq.flags]
    exact Iff.of_eq (congrArg _ (byteSwap_byteSwap (n := 4) h.flags))
  constructor
  · intro hsame
    exact ⟨htype.1 hsame.type, hisa.1 hsame.isa, hflags.1 hsame.flags,
      hentry.1 hsame.entryPointOffset, hphoff.1 hsame.programHeaderOffset,
      hshoff.1 hsame.sectionHeaderOffset, hehsize.1 hsame.elfHeaderSize,
      hphentsize.1 hsame.programHeaderSize, hphnum.1 hsame.programHeaderEntriesNum,
      hshentsize.1 hsame.sectionHeaderSize, hshnum.1 hsame.sectionHeaderEntriesNum,
      hshstrndx.1 hsame.sectionHeaderIndex⟩
  · intro hsym
    refine ⟨hr.bitDepth.trans hr'.bitDepth.symm, ?_, ?_, ?_, htype.2 hsym.type, hisa.2 hsym.machine,
      hflags.2 hsym.flags, hentry.2 hsym.entry, hphoff.2 hsym.phoff, hshoff.2 hsym.shoff,
      hehsize.2 hsym.ehsize, hphentsize.2 hsym.phentsize, hphnum.2 hsym.phnum,
      hshentsize.2 hsym.shentsize, hshnum.2 hsym.shnum, hshstrndx.2 hsym.shstrndx⟩
    · rw [hr.isElfOriginalVersion, hr'.isElfOriginalVersion, hp.identVersion, hq.identVersion]
    · rw [hr.abiOs, hr'.abiOs, hp.osAbi, hq.osAbi]
    · rw [hr.abiVersion, hr'.abiVersion, hp.abiVersion, hq.abiVersion]

/-- For every class 64 header and all buffers that begin with its little-endian and its big-endian
    encoding: both are accepted, and parsed to records that differ in `isLittleEndian` alone, if and
    only if the ABI is accepted and every number of the header reads the same in both byte
    orders. -/
theorem orderAgreement_iff {h : LogicalHeader} {bankLittle bankBig : MemoryBank}
    (hlittle : Holds bankLittle.elfPtr 0 (encode .elf64 .little h))
    (hbig : Holds bankBig.elfPtr 0 (encode .elf64 .big h)) :
    OrdersAgree bankLittle bankBig ↔ h.osAbi ≤ 0x12 ∧ Symmetric h := by
  have hp := encoded_of_holds hlittle
  have hq := encoded_of_holds hbig
  rw [← sameNumbers_iff hp hq]
  constructor
  · rintro ⟨r, r', hparse, hparse', -, -, hsame⟩
    obtain ⟨hosAbi, rfl⟩ := (parse_encoded hp).1 hparse
    obtain ⟨-, rfl⟩ := (parse_encoded hq).1 hparse'
    exact ⟨hosAbi, hsame⟩
  · rintro ⟨hosAbi, hsame⟩
    exact ⟨_, _, (parse_encoded hp).2 ⟨hosAbi, rfl⟩, (parse_encoded hq).2 ⟨hosAbi, rfl⟩,
      (headerRecord_parsedFrom .elf64 .little bankLittle.elfPtr).isLittleEndian,
      (headerRecord_parsedFrom .elf64 .big bankBig.elfPtr).isLittleEndian, hsame⟩

/-- The equivalence on the sample header. -/
theorem orderAgreement_iff_sample :
    OrdersAgree (bankOf (encode .elf64 .little sampleHeader))
        (bankOf (encode .elf64 .big sampleHeader)) ↔
      sampleHeader.osAbi ≤ 0x12 ∧ Symmetric sampleHeader :=
  orderAgreement_iff (holds_bytesOf _) (holds_bytesOf _)

/-- In the big-endian encoding the type `2` of the sample header is parsed as `0x200`. -/
theorem orderAgreement_broken_by_type :
    ¬ OrdersAgree (bankOf (encode .elf64 .little sampleHeader))
      (bankOf (encode .elf64 .big sampleHeader)) := by
  intro h
  obtain ⟨r, r', hparse, hparse', -, -, hsame⟩ := h
  have hp : Encoded .elf64 .little sampleHeader
      (bankOf (encode .elf64 .little sampleHeader)).elfPtr := encoded_of_holds (holds_bytesOf _)
  have hq : Encoded .elf64 .big sampleHeader
      (bankOf (encode .elf64 .big sampleHeader)).elfPtr := encoded_of_holds (holds_bytesOf _)
  obtain ⟨-, rfl⟩ := (parse_encoded hp).1 hparse
  obtain ⟨-, rfl⟩ := (parse_encoded hq).1 hparse'
  exact absurd ((sameNumbers_iff hp hq).1 hsame).type (by decide)

end Yavm.Elf
