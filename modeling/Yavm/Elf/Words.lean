import Yavm.Elf.Locals

set_option autoImplicit false

/-! # The 32-bit words of program and section headers

`parseProgramHeader` and `parseSectionHeader` take three bytes of a word in a loop and the fourth
from `ptr + BYTE` instead of `ptr + curr_idx`: byte 1 of the buffer stands in for byte 3 or byte 7.
The words are right exactly on buffers where that is the same byte (`words_iff`). -/

namespace Yavm.Elf

open Basis

/-! ## What the two functions compute -/

/-- The word at `off` as `parse32` reads it. -/
def wordAt (ptr : Bytes) (off : ℕ) : BitVec 32 :=
  load 4 (Function.update ptr (off + 3) (ptr 1)) off

theorem wordAt_eq_iff {ptr : Bytes} {off : ℕ} :
    wordAt ptr off = load 4 ptr off ↔ ptr (off + 3) = ptr 1 :=
  load_update_last_iff.trans eq_comm

theorem wordOver_get_zero (ptr : Bytes) (off : ℕ) (member : Field 4) :
    wordOver ptr off (member.get fun _ => 0) = wordAt ptr off := by
  rw [Field.get_zero]
  exact wordOver_zero ptr off

theorem phType_of_zero (bank : MemoryBank) :
    ProgramHeader.phType.get (parseProgramHeader bank fun _ => 0) = wordAt bank.phPtr 0 := by
  rw [phType_parseProgramHeader, wordOver_get_zero]

theorem phFlags_of_zero (bank : MemoryBank) :
    ProgramHeader.phFlags.get (parseProgramHeader bank fun _ => 0) = wordAt bank.phPtr 4 := by
  rw [phFlags_parseProgramHeader, wordOver_get_zero]

theorem shOffsetToNameString_of_zero (bank : MemoryBank) :
    SectionHeader.shOffsetToNameString.get (sectionHeaderLocal bank fun _ => 0)
      = wordAt bank.shPtr 0 := by
  rw [shOffsetToNameString_sectionHeaderLocal, wordOver_get_zero]

theorem shType_of_zero (bank : MemoryBank) :
    SectionHeader.shType.get (sectionHeaderLocal bank fun _ => 0) = wordAt bank.shPtr 4 := by
  rw [shType_sectionHeaderLocal, wordOver_get_zero]

/-! ## Against the format -/

/-- On records that are zero before parsing, the four words are the little-endian ones of their
    buffers. -/
structure WordsLaw (bank : MemoryBank) : Prop where
  phType : ProgramHeader.phType.get (parseProgramHeader bank fun _ => 0) = load 4 bank.phPtr 0
  phFlags : ProgramHeader.phFlags.get (parseProgramHeader bank fun _ => 0) = load 4 bank.phPtr 4
  shOffsetToNameString :
    SectionHeader.shOffsetToNameString.get (sectionHeaderLocal bank fun _ => 0)
      = load 4 bank.shPtr 0
  shType : SectionHeader.shType.get (sectionHeaderLocal bank fun _ => 0) = load 4 bank.shPtr 4

/-- For every program-header and every section-header buffer: the four words are parsed right if and
    only if bytes 3 and 7 of each buffer are equal to its byte 1. -/
theorem words_iff (bank : MemoryBank) :
    WordsLaw bank ↔ bank.phPtr 3 = bank.phPtr 1 ∧ bank.phPtr 7 = bank.phPtr 1 ∧
      bank.shPtr 3 = bank.shPtr 1 ∧ bank.shPtr 7 = bank.shPtr 1 := by
  constructor
  · intro h
    refine ⟨wordAt_eq_iff.1 ?_, wordAt_eq_iff.1 ?_, wordAt_eq_iff.1 ?_, wordAt_eq_iff.1 ?_⟩
    · rw [← phType_of_zero, h.phType]
    · rw [← phFlags_of_zero, h.phFlags]
    · rw [← shOffsetToNameString_of_zero, h.shOffsetToNameString]
    · rw [← shType_of_zero, h.shType]
  · intro ⟨htype, hflags, hname, hshType⟩
    exact ⟨(phType_of_zero bank).trans (wordAt_eq_iff.2 htype),
      (phFlags_of_zero bank).trans (wordAt_eq_iff.2 hflags),
      (shOffsetToNameString_of_zero bank).trans (wordAt_eq_iff.2 hname),
      (shType_of_zero bank).trans (wordAt_eq_iff.2 hshType)⟩

/-- The type of the segment that starts with the bytes 1, 2, 0, 0 is parsed as `0x02000201`. -/
theorem words_broken_by_type :
    ¬ WordsLaw { initMemoryBank with
      phPtr := fun i => if i = 0 then 1 else if i = 1 then 2 else 0 } := by
  intro hlaw
  have htype := (phType_of_zero _).symm.trans hlaw.phType
  exact absurd (wordAt_eq_iff.1 htype) (by decide)

end Yavm.Elf
