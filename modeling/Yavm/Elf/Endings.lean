import Yavm.Elf.Acceptance
import Yavm.Elf.Pipeline

set_option autoImplicit false

/-! # How the ELF reader ends

`main` opens and reads the file and then tests its header; each test that fails ends the process
with a message of its own. `checks` lists the tests in the order in which they are made, and
`reader_outcome` shows that the first one that fails decides how `main` ends, and that it gets to the
printing when none does. -/

namespace Yavm.Elf

open Basis

/-- A test on the way, and the message of its failure. -/
structure Check where
  passes : Bool
  message : String

/-- `exit(-1)`, with the message of the first check that fails. -/
def firstFailure : List Check → Option Exit
  | [] => none
  | check :: checks => if check.passes then firstFailure checks else some ⟨-1, check.message⟩

/-- The computation fails as the checks say, and not otherwise. -/
def Checked {α : Type} (x : Except Exit α) (checks : List Check) : Prop :=
  ∀ e, x = .error e ↔ firstFailure checks = some e

/-! ## Composing checks -/

theorem firstFailure_append (before after : List Check) :
    firstFailure (before ++ after) = (firstFailure before).or (firstFailure after) := by
  induction before with
  | nil => rfl
  | cons check before ih =>
      rw [List.cons_append, firstFailure, firstFailure, ih]
      split <;> rfl

namespace Checked

variable {α β : Type}

theorem ok (a : α) : Checked (.ok a) [] := by
  intro e
  simp [firstFailure]

/-- One check. -/
theorem single {x : Except Exit α} {p : Prop} [Decidable p] {message : String}
    (hpass : p → ∃ a, x = .ok a) (hfail : ¬ p → x = .error ⟨-1, message⟩) :
    Checked x [⟨decide p, message⟩] := by
  intro e
  by_cases hp : p
  · obtain ⟨a, ha⟩ := hpass hp
    simp [ha, hp, firstFailure]
  · simp [hfail hp, hp, firstFailure]

/-- The checks of the second computation are made after those of the first. -/
theorem bind {x : Except Exit α} {f : α → Except Exit β} {before after : List Check}
    (hx : Checked x before) (hf : ∀ a, x = .ok a → Checked (f a) after) :
    Checked (x >>= f) (before ++ after) := by
  intro e
  rw [bind_eq_error, firstFailure_append]
  cases hresult : x with
  | error e' =>
      have hfirst := (hx e').1 hresult
      simp [hfirst]
  | ok a =>
      have hnone : firstFailure before = none := by
        cases hfirst : firstFailure before with
        | none => rfl
        | some e' =>
            have herror := (hx e').2 hfirst
            rw [hresult] at herror
            simp at herror
      simp [hnone, hf a hresult e]

/-- What follows makes no more checks. -/
theorem map {x : Except Exit α} {checks : List Check} (hx : Checked x checks) (g : α → β) :
    Checked (x >>= fun a => .ok (g a)) checks := by
  have hbind := hx.bind fun a _ => ok (g a)
  rwa [List.append_nil] at hbind

end Checked

/-! ## The checks of the reader -/

/-- The path, and the three calls of `fread`. -/
def fileChecks (file : Option (List Byte)) : List Check :=
  let size := (file.getD []).length
  [⟨file.isSome, "Wrong path"⟩,
    ⟨0 < size, "Failed to carry out read operation on elf header's contents"⟩,
    ⟨elfHeaderMaxSize < size, "Failed to carry out read operation on program header's contents"⟩,
    ⟨elfHeaderMaxSize + programHeaderMaxSize < size,
      "Failed to carry out read operation on section header's contents"⟩]

/-- One right byte is enough for the magic number. -/
def headerChecks (p : Bytes) : List Check :=
  [⟨decide (p 0 = 0x7f ∨ p 1 = 45 ∨ p 2 = 0x4c ∨ p 3 = 46), "Incorrect magic number"⟩,
    ⟨decide (p 4 = 1 ∨ p 4 = 2), "Could not determine bit depth"⟩,
    ⟨decide (p 5 = 1 ∨ p 5 = 2), "Could not determine endianness"⟩,
    ⟨decide (p 7 ≤ 0x12), "Unknown abi os"⟩,
    ⟨decide (∀ i ∈ List.range 7, p (9 + i) = 0), "EI_PAD should be zero"⟩]

/-- All of them, in order. -/
def checks (file : Option (List Byte)) : List Check :=
  fileChecks file ++ headerChecks (bufferFrom (file.getD []) 0 elfHeaderMaxSize)

theorem readObjectFile_checked (file : Option (List Byte)) :
    Checked (readObjectFile file initMemoryBank) (fileChecks file) := by
  intro e
  cases file with
  | none => simp [readObjectFile, fileChecks, firstFailure]
  | some file =>
      have hdrop : (file.drop 0x40).drop 0x38 = file.drop 0x78 := List.drop_drop
      have hfirst : (file.take 0x40).length = 0 ↔ ¬ 0 < file.length := by
        rw [List.length_take]
        omega
      have hsecond : ((file.drop 0x40).take 0x38).length = 0 ↔ ¬ 0x40 < file.length := by
        rw [List.length_take, List.length_drop]
        omega
      have hthird : ((file.drop 0x78).take 0x40).length = 0 ↔ ¬ 0x40 + 0x38 < file.length := by
        rw [List.length_take, List.length_drop]
        omega
      simp only [readObjectFile, fread, hdrop, hfirst, hsecond, hthird, fileChecks, firstFailure,
        Option.getD_some, Option.isSome_some, decide_eq_true_eq, if_true, ite_not]
      split_ifs <;> simp

theorem parseMagicNumber_checked (p : Bytes) :
    Checked (parseMagicNumber p)
      [⟨decide (p 0 = 0x7f ∨ p 1 = 45 ∨ p 2 = 0x4c ∨ p 3 = 46), "Incorrect magic number"⟩] := by
  refine Checked.single (fun h => ⟨(), parseMagicNumber_eq_ok.2 h⟩) fun h => ?_
  simp only [not_or] at h
  exact if_pos h

theorem parseBitDepth_checked (p : Bytes) (r : Record) :
    Checked (parseBitDepth p r)
      [⟨decide (p 4 = 1 ∨ p 4 = 2), "Could not determine bit depth"⟩] := by
  refine Checked.single (fun h => ?_) fun h => ?_
  · obtain ⟨c, hc⟩ := (ElfClass.exists_iff (P := fun c => p 4 = c.code)).2 h
    exact ⟨_, parseBitDepth_eq_ok.2 ⟨c, hc, rfl⟩⟩
  · simp only [not_or] at h
    exact (if_neg h.1).trans (if_neg h.2)

theorem parseEndianness_checked (p : Bytes) (r : Record) :
    Checked (parseEndianness p r)
      [⟨decide (p 5 = 1 ∨ p 5 = 2), "Could not determine endianness"⟩] := by
  refine Checked.single (fun h => ?_) fun h => ?_
  · obtain ⟨order, horder⟩ := (exists_byteOrder_iff (P := fun order => p 5 = dataCode order)).2 h
    exact ⟨_, parseEndianness_eq_ok.2 ⟨order, horder, rfl⟩⟩
  · simp only [not_or] at h
    exact (if_neg h.1).trans (if_neg h.2)

theorem parseAbi_checked (p : Bytes) (r : Record) :
    Checked (parseAbi p r) [⟨decide (p 7 ≤ 0x12), "Unknown abi os"⟩] :=
  Checked.single (fun h => ⟨_, parseAbi_eq_ok.2 ⟨h, rfl⟩⟩) fun h => if_pos (BitVec.not_le.1 h)

/-- The loop over the reserved bytes fails with one message only. -/
theorem parseEiPad_error {p : Bytes} {currIdx count : ℕ} {e : Exit}
    (h : parseEiPad p currIdx count = .error e) : e = ⟨-1, "EI_PAD should be zero"⟩ := by
  induction count generalizing currIdx with
  | zero => simp [parseEiPad] at h
  | succ count ih =>
      rw [parseEiPad] at h
      split at h
      · exact (Except.error.inj h).symm
      · exact ih h

theorem parseEiPad_checked (p : Bytes) :
    Checked (parseEiPad p eEiPadOffset (rounds eEiPadOffset 7))
      [⟨decide (∀ i ∈ List.range 7, p (9 + i) = 0), "EI_PAD should be zero"⟩] := by
  have hpad_iff : parseEiPad p eEiPadOffset (rounds eEiPadOffset 7) = .ok () ↔
      ∀ i ∈ List.range 7, p (9 + i) = 0 := by
    simp only [List.mem_range]
    exact parseEiPad_eq_ok
  refine Checked.single (fun h => ⟨(), hpad_iff.2 h⟩) fun h => ?_
  cases hpad : parseEiPad p eEiPadOffset (rounds eEiPadOffset 7) with
  | ok u => exact absurd (hpad_iff.1 hpad) h
  | error e => rw [parseEiPad_error hpad]

theorem parseElfHeader_checked (bank : MemoryBank) :
    Checked (parseElfHeader bank) (headerChecks bank.elfPtr) := by
  refine (parseMagicNumber_checked _).bind fun _ _ => ?_
  refine (parseBitDepth_checked _ _).bind fun _ _ => ?_
  refine (parseEndianness_checked _ _).bind fun _ _ => ?_
  refine (parseAbi_checked _ _).bind fun _ _ => ?_
  exact (parseEiPad_checked _).map _

/-! ## `main` -/

/-- What `readObjectFile` leaves in the buffers. -/
def buffersOf (bytes : List Byte) : MemoryBank where
  elfPtr := bufferFrom bytes 0 elfHeaderMaxSize
  phPtr := bufferFrom bytes elfHeaderMaxSize programHeaderMaxSize
  shPtr := bufferFrom bytes (elfHeaderMaxSize + programHeaderMaxSize) sectionHeaderMaxSize

theorem main_checked (file : Option (List Byte)) (junk : Junk) :
    Checked (main file junk) (checks file) := by
  refine (readObjectFile_checked file).bind fun bank hread => ?_
  cases file with
  | none => simp [readObjectFile] at hread
  | some bytes =>
      obtain ⟨-, rfl⟩ := readObjectFile_eq_ok.1 hread
      exact (parseElfHeader_checked (buffersOf bytes)).map _

/-- For every file and everything that is indeterminate: `main` exits if and only if a check fails,
    with status -1 and the message of the first one. Otherwise it prints what it has read: the three
    buffers, the header of the class and byte order that the buffer names, the program header as
    decoded into its uninitialised record, and no section header. -/
theorem reader_outcome (file : Option (List Byte)) (junk : Junk) :
    (∀ e, main file junk = .error e ↔ firstFailure (checks file) = some e) ∧
    (∀ parsed, main file junk = .ok parsed ↔ ∃ bytes c order, file = some bytes ∧
      0x78 < bytes.length ∧ Accepted c order (buffersOf bytes).elfPtr ∧
      parsed = { memBank := buffersOf bytes, elfInfo := headerRecord c order (buffersOf bytes).elfPtr,
                 phData := parseProgramHeader (buffersOf bytes) junk.programHeader,
                 shData := junk.returned }) := by
  refine ⟨main_checked file junk, fun parsed => ?_⟩
  have hmain : main file junk = .ok parsed ↔
      ∃ bank, readObjectFile file initMemoryBank = .ok bank ∧
        ∃ elfInfo, parseElfHeader bank = .ok elfInfo ∧
          parsed = { memBank := bank, elfInfo,
                     phData := parseProgramHeader bank junk.programHeader,
                     shData := junk.returned } := by
    simp only [main, bind_eq_ok, parseSectionHeader, pure, Except.pure, Except.ok.injEq]
    refine exists_congr fun _ => and_congr_right fun _ => exists_congr fun _ => ?_
    exact and_congr_right fun _ => eq_comm
  rw [hmain]
  constructor
  · rintro ⟨bank, hread, elfInfo, hparse, rfl⟩
    obtain ⟨c, order, hacc, rfl⟩ := parseElfHeader_eq_ok.1 hparse
    cases file with
    | none => simp [readObjectFile] at hread
    | some bytes =>
        obtain ⟨hlen, rfl⟩ := readObjectFile_eq_ok.1 hread
        exact ⟨bytes, c, order, rfl, hlen, hacc, rfl⟩
  · rintro ⟨bytes, c, order, rfl, hlen, hacc, rfl⟩
    exact ⟨buffersOf bytes, readObjectFile_eq_ok.2 ⟨hlen, rfl⟩, _,
      parseElfHeader_eq_ok.2 ⟨c, order, hacc, rfl⟩, rfl⟩

end Yavm.Elf
