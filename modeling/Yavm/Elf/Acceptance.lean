import Yavm.Basis.Run
import Yavm.Elf.Members

set_option autoImplicit false

/-! # What `parseElfHeader` accepts

`parseElfHeader_eq_ok` says on which buffers it returns, and which record. The test of the magic
number joins its four comparisons with `&&` where it should reject on any of them, and compares two
bytes with decimal numbers that are meant to be hexadecimal; `acceptance_iff` says on which buffers
this makes no difference. -/

namespace Yavm.Elf

open Basis

/-- What `parseElfHeader` tests. -/
structure Accepted (c : ElfClass) (order : ByteOrder) (p : Bytes) : Prop where
  magic : p 0 = 0x7f ∨ p 1 = 45 ∨ p 2 = 0x4c ∨ p 3 = 46
  elfClass : p 4 = c.code
  data : p 5 = dataCode order
  osAbi : p 7 ≤ 0x12
  pad : ∀ i < 7, p (9 + i) = 0

theorem parseMagicNumber_eq_ok {p : Bytes} :
    parseMagicNumber p = .ok () ↔ p 0 = 0x7f ∨ p 1 = 45 ∨ p 2 = 0x4c ∨ p 3 = 46 := by
  unfold parseMagicNumber
  split
  · next h => simpa using h
  · next h =>
      refine iff_of_true rfl ?_
      by_contra hnone
      simp only [not_or] at hnone
      exact h hnone

theorem ElfClass.exists_iff {P : ElfClass → Prop} : (∃ c, P c) ↔ P .elf32 ∨ P .elf64 := by
  constructor
  · intro ⟨c, h⟩
    cases c with
    | elf32 => exact Or.inl h
    | elf64 => exact Or.inr h
  · intro h
    rcases h with h | h
    · exact ⟨.elf32, h⟩
    · exact ⟨.elf64, h⟩

theorem exists_byteOrder_iff {P : ByteOrder → Prop} : (∃ order, P order) ↔ P .little ∨ P .big := by
  constructor
  · intro ⟨order, h⟩
    cases order with
    | little => exact Or.inl h
    | big => exact Or.inr h
  · intro h
    rcases h with h | h
    · exact ⟨.little, h⟩
    · exact ⟨.big, h⟩

/-- The table check of the class and data bytes: 1, or 2, or an error. -/
theorem one_or_two_eq_ok {b : Byte} {x y r : Record} {e : Exit} :
    (if b = 0x1 then Except.ok x else if b = 0x2 then Except.ok y else Except.error e)
        = Except.ok r ↔ (b = 1 ∧ r = x) ∨ (b = 2 ∧ r = y) := by
  constructor
  · intro h
    split_ifs at h with h₁ h₂
    · exact Or.inl ⟨h₁, (Except.ok.inj h).symm⟩
    · exact Or.inr ⟨h₂, (Except.ok.inj h).symm⟩
  · intro h
    rcases h with ⟨hb, hr⟩ | ⟨hb, hr⟩
    · rw [if_pos hb, hr]
    · rw [if_neg (by rw [hb]; decide), if_pos hb, hr]

theorem parseBitDepth_eq_ok {p : Bytes} {r r' : Record} :
    parseBitDepth p r = .ok r' ↔
      ∃ c : ElfClass, p 4 = c.code ∧ r' = ElfHeader.bitDepth.set c.depth r := by
  rw [ElfClass.exists_iff]
  exact one_or_two_eq_ok

theorem parseEndianness_eq_ok {p : Bytes} {r r' : Record} :
    parseEndianness p r = .ok r' ↔ ∃ order : ByteOrder, p 5 = dataCode order ∧
      r' = ElfHeader.isLittleEndian.set (if order = .little then 1 else 0) r := by
  rw [exists_byteOrder_iff]
  exact one_or_two_eq_ok

theorem parseAbi_eq_ok {p : Bytes} {r r' : Record} :
    parseAbi p r = .ok r' ↔
      p 7 ≤ 0x12 ∧ r' = ElfHeader.abiVersion.set (p 8) (ElfHeader.abiOs.set (p 7) r) := by
  unfold parseAbi
  split
  · next h =>
      refine iff_of_false (by simp) fun hle => ?_
      exact absurd hle.1 (BitVec.not_le.2 h)
  · next h =>
      rw [Except.ok.injEq, eq_comm]
      exact (and_iff_right (BitVec.not_lt.1 h)).symm

theorem parseEiPad_eq_ok {p : Bytes} {currIdx count : ℕ} :
    parseEiPad p currIdx count = .ok () ↔ ∀ i < count, p (currIdx + i) = 0 := by
  induction count generalizing currIdx with
  | zero => simp [parseEiPad]
  | succ count ih =>
      have hshift : (∀ i < count, p (currIdx + (i + 1)) = 0) ↔
          ∀ i < count, p (currIdx + 1 + i) = 0 := by
        refine forall₂_congr fun i _ => ?_
        rw [Nat.add_right_comm, Nat.add_assoc]
      rw [parseEiPad, Nat.forall_lt_succ_left, hshift, ← ih]
      by_cases h : p currIdx = 0
      · rw [if_neg (not_not.2 h)]
        exact (and_iff_right h).symm
      · rw [if_pos h]
        exact iff_of_false (by simp) fun hall => h hall.1

/-- `parseElfHeader` returns exactly on what it accepts, with the record of the tables. -/
theorem parseElfHeader_eq_ok {bank : MemoryBank} {r : Record} :
    parseElfHeader bank = .ok r ↔ ∃ c order, Accepted c order bank.elfPtr ∧
      r = headerRecord c order bank.elfPtr := by
  have hrecord : ∀ c order, parseMembers bank.elfPtr (identRecord c order bank.elfPtr)
      = headerRecord c order bank.elfPtr := by
    intro c order
    refine parseMembers_eq bank.elfPtr ?_ fun f hf => ?_
    · exact get_writeAll (identMembers_apart c order _) (List.mem_cons_self ..) _
    · rw [identRecord, get_writeAll_of_apart, Field.get_zero]
      exact fun w hw => Or.inr (Nat.le_trans (identMembers_before c order _ w hw) hf)
  simp only [parseElfHeader, bind_eq_ok, parseBitDepth_eq_ok, parseEndianness_eq_ok, parseAbi_eq_ok,
    Except.ok.injEq, pure, Except.pure]
  constructor
  · rintro ⟨⟨⟩, hmagic, _, ⟨c, hclass, rfl⟩, _, ⟨order, hdata, rfl⟩, _, ⟨hosAbi, rfl⟩, ⟨⟩, hpad,
      rfl⟩
    exact ⟨c, order, ⟨parseMagicNumber_eq_ok.1 hmagic, hclass, hdata, hosAbi,
      parseEiPad_eq_ok.1 hpad⟩, hrecord c order⟩
  · rintro ⟨c, order, h, rfl⟩
    exact ⟨(), parseMagicNumber_eq_ok.2 h.magic, _, ⟨c, h.elfClass, rfl⟩, _, ⟨order, h.data, rfl⟩,
      _, ⟨h.osAbi, rfl⟩, (), parseEiPad_eq_ok.2 h.pad, hrecord c order⟩

/-! ## Against the format -/

/-- Bytes 0..3 are the magic number. -/
def HasMagic (p : Bytes) : Prop :=
  p 0 = 0x7f ∧ p 1 = 0x45 ∧ p 2 = 0x4c ∧ p 3 = 0x46

/-- The other identification bytes that are tested are as they should be. -/
structure IdentOk (p : Bytes) : Prop where
  elfClass : p 4 = 1 ∨ p 4 = 2
  data : p 5 = 1 ∨ p 5 = 2
  osAbi : p 7 ≤ 0x12
  pad : ∀ i, 9 ≤ i → i ≤ 15 → p i = 0

/-- `parseElfHeader` returns on exactly the buffers it should return on; on the others it exits. -/
def AcceptanceLaw (bank : MemoryBank) : Prop :=
  (∃ r, parseElfHeader bank = .ok r) ↔ HasMagic bank.elfPtr ∧ IdentOk bank.elfPtr

/-- Where the four comparisons come to what they should: the magic number is there, or every byte of
    it fails its comparison, or the buffer is rejected for another reason. -/
def MagicDecides (p : Bytes) : Prop :=
  HasMagic p ∨ (p 0 ≠ 0x7f ∧ p 1 ≠ 45 ∧ p 2 ≠ 0x4c ∧ p 3 ≠ 46) ∨ ¬ IdentOk p

theorem identOk_iff {p : Bytes} : IdentOk p ↔ (∃ c : ElfClass, p 4 = c.code) ∧
    (∃ order, p 5 = dataCode order) ∧ p 7 ≤ 0x12 ∧ ∀ i < 7, p (9 + i) = 0 := by
  have hpad : (∀ i < 7, p (9 + i) = 0) ↔ ∀ i, 9 ≤ i → i ≤ 15 → p i = 0 := by
    constructor
    · intro h i hlo hhi
      have hi := h (i - 9) (by omega)
      rwa [Nat.add_sub_of_le hlo] at hi
    · exact fun h i hi => h (9 + i) (by omega) (by omega)
  rw [ElfClass.exists_iff, exists_byteOrder_iff, hpad]
  exact ⟨fun h => ⟨h.elfClass, h.data, h.osAbi, h.pad⟩, fun ⟨h₁, h₂, h₃, h₄⟩ => ⟨h₁, h₂, h₃, h₄⟩⟩

/-- What `parseElfHeader` accepts: one right comparison is enough for the magic number. -/
theorem parseElfHeader_returns_iff {bank : MemoryBank} :
    (∃ r, parseElfHeader bank = .ok r) ↔
      ¬ (bank.elfPtr 0 ≠ 0x7f ∧ bank.elfPtr 1 ≠ 45 ∧ bank.elfPtr 2 ≠ 0x4c ∧ bank.elfPtr 3 ≠ 46) ∧
        IdentOk bank.elfPtr := by
  simp only [parseElfHeader_eq_ok, identOk_iff]
  constructor
  · rintro ⟨_, c, order, h, -⟩
    refine ⟨fun hnone => ?_, ⟨c, h.elfClass⟩, ⟨order, h.data⟩, h.osAbi, h.pad⟩
    rcases h.magic with h₀ | h₁ | h₂ | h₃
    · exact hnone.1 h₀
    · exact hnone.2.1 h₁
    · exact hnone.2.2.1 h₂
    · exact hnone.2.2.2 h₃
  · rintro ⟨hsome, ⟨c, hclass⟩, ⟨order, hdata⟩, hosAbi, hpad⟩
    refine ⟨_, c, order, ⟨?_, hclass, hdata, hosAbi, hpad⟩, rfl⟩
    by_contra hnone
    exact hsome (by simpa only [not_or] using hnone)

/-- For every buffer: `parseElfHeader` returns on it exactly when its identification is well-formed,
    if and only if the magic number is there, or all four of its bytes fail their comparisons, or
    another identification byte is wrong. -/
theorem acceptance_iff (bank : MemoryBank) : AcceptanceLaw bank ↔ MagicDecides bank.elfPtr := by
  unfold AcceptanceLaw MagicDecides
  rw [parseElfHeader_returns_iff]
  by_cases hident : IdentOk bank.elfPtr
  · by_cases hmagic : HasMagic bank.elfPtr
    · refine iff_of_true (iff_of_true ⟨fun hnone => hnone.1 hmagic.1, hident⟩ ⟨hmagic, hident⟩)
        (Or.inl hmagic)
    -- without the magic number the buffer has to be rejected, which takes four failed comparisons
    · simp only [hident, hmagic, and_true, iff_false, not_not, false_or, not_true,
        or_false]
  · exact iff_of_true (iff_of_false (fun h => hident h.2) fun h => hident h.2)
      (Or.inr (Or.inr hident))

/-- A buffer with the first byte of the magic number, the class and the data byte, and zeros. -/
theorem acceptance_broken_by_first_byte :
    ¬ AcceptanceLaw { initMemoryBank with
      elfPtr := fun i => if i = 0 then 0x7f else if i = 4 ∨ i = 5 then 1 else 0 } := by
  intro hlaw
  have hreturns := hlaw.1 ⟨_, rfl⟩
  exact absurd hreturns.1.2.1 (by decide)

end Yavm.Elf
