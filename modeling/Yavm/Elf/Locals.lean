import Yavm.Elf.Members

set_option autoImplicit false

/-! # Program and section headers, parsed into locals that are never initialised

`parseProgramHeader` and `parseSectionHeader` start from a record that nothing has set. A 64-bit
member is stored whole, so nothing of that record is left in it. The four 32-bit words are
accumulated in the record itself: three of the old bytes are shifted out, and the low byte stays
behind, or'ed into the first byte of the buffer (`wordOver`). `determined_iff` compares two
calls. -/

namespace Yavm.Elf

open Basis

/-! ## What the two functions write -/

/-- The members `parseProgramHeader` sets in the record `r`. -/
def programHeaderMembers (p : Bytes) (r : Record) : List Write :=
  [⟨ProgramHeader.phType, wordOver p 0 (ProgramHeader.phType.get r)⟩,
    ⟨ProgramHeader.phFlags, wordOver p 4 (ProgramHeader.phFlags.get r)⟩,
    ⟨ProgramHeader.phFileImageSegmentOffset64, load 8 p 0x8⟩,
    ⟨ProgramHeader.phSegmentVAddr64, load 8 p 0x10⟩,
    ⟨ProgramHeader.phSegmentPhysAddr64, load 8 p 0x18⟩,
    ⟨ProgramHeader.phSegmentSizeInFileImage64, load 8 p 0x20⟩,
    ⟨ProgramHeader.phSegmentSizeInMemory64, load 8 p 0x28⟩,
    ⟨ProgramHeader.phSegmentFlags, 0⟩, ⟨ProgramHeader.phAlign64, load 8 p 0x30⟩]

/-- The members `parseSectionHeader` sets in the record `r`. -/
def sectionHeaderMembers (p : Bytes) (r : Record) : List Write :=
  [⟨SectionHeader.shOffsetToNameString, wordOver p 0 (SectionHeader.shOffsetToNameString.get r)⟩,
    ⟨SectionHeader.shType, wordOver p 4 (SectionHeader.shType.get r)⟩]

/-- Two words, the second behind the first. -/
theorem parse32_parse32 (ptr : Bytes) {first second : Field 4} {i j : ℕ} (r : Record)
    (hi : i + 3 < 65536) (hj : j + 3 < 65536) (h : first.offset + 4 ≤ second.offset) :
    parse32 ptr second j (parse32 ptr first i r)
      = second.set (wordOver ptr j (second.get r))
          (first.set (wordOver ptr i (first.get r)) r) := by
  have hsecond : second.get (first.set (wordOver ptr i (first.get r)) r) = second.get r :=
    Field.get_set_of_disjoint _ r (Or.inr h)
  rw [parse32_eq_set ptr first r hi, parse32_eq_set ptr second _ hj, hsecond]

theorem parseProgramHeader_eq (bank : MemoryBank) (r : Record) :
    parseProgramHeader bank r = writeAll (programHeaderMembers bank.phPtr r) r := by
  simp only [parseProgramHeader]
  rw [parse32_parse32 _ r (by decide) (by decide) (by decide), storeSwapped_64 _ _ _ _ (by decide),
    storeSwapped_64 _ _ _ _ (by decide), storeSwapped_64 _ _ _ _ (by decide),
    storeSwapped_64 _ _ _ _ (by decide), storeSwapped_64 _ _ _ _ (by decide),
    storeSwapped_64 _ _ _ _ (by decide)]
  rfl

theorem sectionHeaderLocal_eq (bank : MemoryBank) (r : Record) :
    sectionHeaderLocal bank r = writeAll (sectionHeaderMembers bank.shPtr r) r :=
  parse32_parse32 bank.shPtr r (by decide) (by decide) (by decide)

theorem programHeaderMembers_apart (p : Bytes) (r : Record) :
    ((programHeaderMembers p r).map Write.span).Pairwise Apart := by
  change ([(0, 4), (4, 4), (12, 8), (20, 8), (28, 8), (36, 8), (44, 8), (8, 4), (52, 8)] :
    List (ℕ × ℕ)).Pairwise Apart
  decide

theorem sectionHeaderMembers_apart (p : Bytes) (r : Record) :
    ((sectionHeaderMembers p r).map Write.span).Pairwise Apart := by
  change ([(0, 4), (4, 4)] : List (ℕ × ℕ)).Pairwise Apart
  decide

theorem get_parseProgramHeader {bank : MemoryBank} {r : Record} {w : Write}
    (hw : w ∈ programHeaderMembers bank.phPtr r) :
    w.member.get (parseProgramHeader bank r) = w.value := by
  rw [parseProgramHeader_eq]
  exact get_writeAll (programHeaderMembers_apart _ r) hw r

theorem get_sectionHeaderLocal {bank : MemoryBank} {r : Record} {w : Write}
    (hw : w ∈ sectionHeaderMembers bank.shPtr r) :
    w.member.get (sectionHeaderLocal bank r) = w.value := by
  rw [sectionHeaderLocal_eq]
  exact get_writeAll (sectionHeaderMembers_apart _ r) hw r

theorem phType_parseProgramHeader (bank : MemoryBank) (r : Record) :
    ProgramHeader.phType.get (parseProgramHeader bank r)
      = wordOver bank.phPtr 0 (ProgramHeader.phType.get r) :=
  get_parseProgramHeader (List.mem_of_getElem? (i := 0) rfl)

theorem phFlags_parseProgramHeader (bank : MemoryBank) (r : Record) :
    ProgramHeader.phFlags.get (parseProgramHeader bank r)
      = wordOver bank.phPtr 4 (ProgramHeader.phFlags.get r) :=
  get_parseProgramHeader (List.mem_of_getElem? (i := 1) rfl)

theorem shOffsetToNameString_sectionHeaderLocal (bank : MemoryBank) (r : Record) :
    SectionHeader.shOffsetToNameString.get (sectionHeaderLocal bank r)
      = wordOver bank.shPtr 0 (SectionHeader.shOffsetToNameString.get r) :=
  get_sectionHeaderLocal (List.mem_of_getElem? (i := 0) rfl)

theorem shType_sectionHeaderLocal (bank : MemoryBank) (r : Record) :
    SectionHeader.shType.get (sectionHeaderLocal bank r)
      = wordOver bank.shPtr 4 (SectionHeader.shType.get r) :=
  get_sectionHeaderLocal (List.mem_of_getElem? (i := 1) rfl)

/-! ## Two calls -/

/-- The program headers agree in every member that `parseProgramHeader` sets. -/
structure SameProgramHeader (r r' : Record) : Prop where
  phType : ProgramHeader.phType.get r = ProgramHeader.phType.get r'
  phFlags : ProgramHeader.phFlags.get r = ProgramHeader.phFlags.get r'
  phSegmentFlags : ProgramHeader.phSegmentFlags.get r = ProgramHeader.phSegmentFlags.get r'
  phFileImageSegmentOffset64 : ProgramHeader.phFileImageSegmentOffset64.get r
    = ProgramHeader.phFileImageSegmentOffset64.get r'
  phSegmentVAddr64 : ProgramHeader.phSegmentVAddr64.get r = ProgramHeader.phSegmentVAddr64.get r'
  phSegmentPhysAddr64 :
    ProgramHeader.phSegmentPhysAddr64.get r = ProgramHeader.phSegmentPhysAddr64.get r'
  phSegmentSizeInFileImage64 : ProgramHeader.phSegmentSizeInFileImage64.get r
    = ProgramHeader.phSegmentSizeInFileImage64.get r'
  phSegmentSizeInMemory64 :
    ProgramHeader.phSegmentSizeInMemory64.get r = ProgramHeader.phSegmentSizeInMemory64.get r'
  phAlign64 : ProgramHeader.phAlign64.get r = ProgramHeader.phAlign64.get r'

/-- The section headers agree in every member that `parseSectionHeader` sets. -/
structure SameSectionHeader (r r' : Record) : Prop where
  shOffsetToNameString :
    SectionHeader.shOffsetToNameString.get r = SectionHeader.shOffsetToNameString.get r'
  shType : SectionHeader.shType.get r = SectionHeader.shType.get r'

/-- Buffers with the same bytes, as far as they go. -/
structure SameBuffers (bank bank' : MemoryBank) : Prop where
  phPtr : ∀ i < programHeaderMaxSize, bank.phPtr i = bank'.phPtr i
  shPtr : ∀ i < sectionHeaderMaxSize, bank.shPtr i = bank'.shPtr i

/-- The byte `b` has every bit in which the low bytes of the member differ. -/
def LowByteCovered (member : Field 4) (b : Byte) (r r' : Record) : Prop :=
  byte (member.get r) 0 ||| b = byte (member.get r') 0 ||| b

/-- Equal bytes from `off` on, within the buffer, are loaded as equal numbers. -/
theorem load_congr {p p' : Bytes} {size : ℕ} (h : ∀ i < size, p i = p' i) {n off : ℕ}
    (hoff : off + n ≤ size) : load n p off = load n p' off := by
  rw [load_eq_load_iff]
  intro k hk
  exact h (off + k) (by omega)

/-- Of the old value a word shows what the first byte of the buffer does not cover. -/
theorem wordOver_eq_iff {p p' : Bytes} {size off : ℕ} (hsame : ∀ i < size, p i = p' i)
    (hone : 1 < size) (hoff : off + 3 ≤ size) (member : Field 4) (r r' : Record) :
    wordOver p off (member.get r) = wordOver p' off (member.get r') ↔
      LowByteCovered member (p off) r r' := by
  have hp : p off = p' off := hsame off (by omega)
  rw [wordOver, wordOver, load_eq_load_iff, LowByteCovered]
  constructor
  · intro h
    have hfirst := h 0 (by decide)
    simp only [Nat.add_zero, Function.update_self] at hfirst
    rwa [← hp] at hfirst
  · intro h k hk
    by_cases hk0 : k = 0
    · simp only [hk0, Nat.add_zero, Function.update_self]
      rw [← hp, h]
    · have hne : off + k ≠ off := by omega
      rw [Function.update_of_ne hne, Function.update_of_ne hne]
      by_cases hk3 : k = 3
      · rw [hk3, Function.update_self, Function.update_self, hsame 1 hone]
      · have hne3 : off + k ≠ off + 3 := by omega
        rw [Function.update_of_ne hne3, Function.update_of_ne hne3, hsame (off + k) (by omega)]

theorem sameProgramHeader_iff {bank bank' : MemoryBank} (hsame : SameBuffers bank bank')
    (r r' : Record) :
    SameProgramHeader (parseProgramHeader bank r) (parseProgramHeader bank' r') ↔
      LowByteCovered ProgramHeader.phType (bank.phPtr 0) r r' ∧
        LowByteCovered ProgramHeader.phFlags (bank.phPtr 4) r r' := by
  have htype := wordOver_eq_iff hsame.phPtr (by decide)
    (show 0 + 3 ≤ programHeaderMaxSize by decide) ProgramHeader.phType r r'
  have hflags := wordOver_eq_iff hsame.phPtr (by decide)
    (show 4 + 3 ≤ programHeaderMaxSize by decide) ProgramHeader.phFlags r r'
  constructor
  · intro h
    have h₁ := h.phType
    have h₂ := h.phFlags
    rw [phType_parseProgramHeader, phType_parseProgramHeader] at h₁
    rw [phFlags_parseProgramHeader, phFlags_parseProgramHeader] at h₂
    exact ⟨htype.1 h₁, hflags.1 h₂⟩
  · intro ⟨h₁, h₂⟩
    -- what is not accumulated in the record does not depend on it
    have hstored : ∀ (i : ℕ) (w w' : Write), (programHeaderMembers bank.phPtr r)[i]? = some w →
        (programHeaderMembers bank'.phPtr r')[i]? = some w' → w = w' →
        w.member.get (parseProgramHeader bank r) = w.member.get (parseProgramHeader bank' r') := by
      intro i w w' hw hw' heq
      subst heq
      rw [get_parseProgramHeader (List.mem_of_getElem? hw),
        get_parseProgramHeader (List.mem_of_getElem? hw')]
    have hload : ∀ {off : ℕ}, off + 8 ≤ programHeaderMaxSize →
        load 8 bank.phPtr off = load 8 bank'.phPtr off := load_congr hsame.phPtr
    refine ⟨?_, ?_, hstored 7 _ _ rfl rfl rfl, hstored 2 _ _ rfl rfl ?_, hstored 3 _ _ rfl rfl ?_,
      hstored 4 _ _ rfl rfl ?_, hstored 5 _ _ rfl rfl ?_, hstored 6 _ _ rfl rfl ?_,
      hstored 8 _ _ rfl rfl ?_⟩
    · rw [phType_parseProgramHeader, phType_parseProgramHeader]
      exact htype.2 h₁
    · rw [phFlags_parseProgramHeader, phFlags_parseProgramHeader]
      exact hflags.2 h₂
    all_goals rw [hload (by decide)]

theorem sameSectionHeader_local_iff {bank bank' : MemoryBank} (hsame : SameBuffers bank bank')
    (r r' : Record) :
    SameSectionHeader (sectionHeaderLocal bank r) (sectionHeaderLocal bank' r') ↔
      LowByteCovered SectionHeader.shOffsetToNameString (bank.shPtr 0) r r' ∧
        LowByteCovered SectionHeader.shType (bank.shPtr 4) r r' := by
  have hname := wordOver_eq_iff hsame.shPtr (by decide)
    (show 0 + 3 ≤ sectionHeaderMaxSize by decide) SectionHeader.shOffsetToNameString r r'
  have htype := wordOver_eq_iff hsame.shPtr (by decide)
    (show 4 + 3 ≤ sectionHeaderMaxSize by decide) SectionHeader.shType r r'
  rw [← hname, ← htype, ← shOffsetToNameString_sectionHeaderLocal,
    ← shOffsetToNameString_sectionHeaderLocal, ← shType_sectionHeaderLocal,
    ← shType_sectionHeaderLocal]
  exact ⟨fun h => ⟨h.shOffsetToNameString, h.shType⟩, fun h => ⟨h.1, h.2⟩⟩

/-- For all pairs of buffers with the same bytes and all that can be in the locals: the two program
    headers agree if and only if, for each of the two words, the low bytes that were in the locals
    differ at most in bits that are set in the first byte of that word in the buffer. The locals of
    `parseSectionHeader` agree on the same condition for its two words; but they are not returned,
    and the records the callers get agree if and only if what they find there does. -/
theorem determined_iff {bank bank' : MemoryBank} (hsame : SameBuffers bank bank')
    (bitDepth bitDepth' : BitVec 16) (junk junk' : Junk) :
    (SameProgramHeader (parseProgramHeader bank junk.programHeader)
        (parseProgramHeader bank' junk'.programHeader) ↔
      LowByteCovered ProgramHeader.phType (bank.phPtr 0) junk.programHeader junk'.programHeader ∧
        LowByteCovered ProgramHeader.phFlags (bank.phPtr 4) junk.programHeader
          junk'.programHeader) ∧
    (SameSectionHeader (parseSectionHeader bank bitDepth junk).1
        (parseSectionHeader bank' bitDepth' junk').1 ↔
      LowByteCovered SectionHeader.shOffsetToNameString (bank.shPtr 0) junk.sectionHeader
          junk'.sectionHeader ∧
        LowByteCovered SectionHeader.shType (bank.shPtr 4) junk.sectionHeader
          junk'.sectionHeader) ∧
    (SameSectionHeader (parseSectionHeader bank bitDepth junk).2
        (parseSectionHeader bank' bitDepth' junk').2 ↔
      SameSectionHeader junk.returned junk'.returned) :=
  ⟨sameProgramHeader_iff hsame _ _, sameSectionHeader_local_iff hsame _ _, Iff.rfl⟩

/-- Everything indeterminate is zero. -/
def Junk.zero : Junk :=
  ⟨fun _ => 0, fun _ => 0, fun _ => 0⟩

/-- Everything indeterminate is 1, byte by byte. -/
def Junk.ones : Junk :=
  ⟨fun _ => 1, fun _ => 1, fun _ => 1⟩

/-- The equivalences on zero buffers. -/
theorem determined_iff_zero :
    (SameProgramHeader (parseProgramHeader initMemoryBank Junk.zero.programHeader)
        (parseProgramHeader initMemoryBank Junk.ones.programHeader) ↔
      LowByteCovered ProgramHeader.phType (initMemoryBank.phPtr 0) Junk.zero.programHeader
          Junk.ones.programHeader ∧
        LowByteCovered ProgramHeader.phFlags (initMemoryBank.phPtr 4) Junk.zero.programHeader
          Junk.ones.programHeader) :=
  (determined_iff (⟨fun _ _ => rfl, fun _ _ => rfl⟩ : SameBuffers initMemoryBank initMemoryBank)
    64 64 Junk.zero Junk.ones).1

/-- On zero buffers the type is parsed as the low byte that was in the local, and the section header
    is what its caller finds. -/
theorem determined_broken_by_locals :
    ¬ SameProgramHeader (parseProgramHeader initMemoryBank Junk.ones.programHeader)
        (parseProgramHeader initMemoryBank Junk.zero.programHeader) ∧
      ¬ SameSectionHeader (parseSectionHeader initMemoryBank 64 Junk.ones).2
        (parseSectionHeader initMemoryBank 64 Junk.zero).2 := by
  constructor
  · intro h
    have htype := h.phType
    rw [phType_parseProgramHeader, phType_parseProgramHeader] at htype
    exact absurd htype (by decide)
  · intro h
    exact absurd h.shType (by decide)

end Yavm.Elf
