import Yavm.Lc3.State

set_option autoImplicit false

/-! # The Java machine (`lc3_vm_java/src/Main.java`)

The static fields of `Main` and the loop of `main`. Java's `int` is a 32-bit word, `>>` is
arithmetic, and an index outside an array throws. `memory` has 65536 elements here, and the
registers have the indices of the C machine. -/

namespace Yavm.Java

open Basis
open Lc3 (Reg)

/-- Java's `int`. -/
abbrev JavaInt := BitVec 32

/-- Java's `char`. -/
abbrev Char16 := BitVec 16

/-- The field `UINT16_MAX` of `Main`. -/
abbrev uint16Max : ℕ := 65536

/-- What ends a computation before its result. -/
inductive Stop
  /-- The loop of `main` was left: `running` is false. -/
  | halted
  /-- `ArrayIndexOutOfBoundsException`. -/
  | arrayIndex (i : ℤ)
  deriving DecidableEq, Repr

/-- The static fields of `Main` and the characters printed so far. -/
structure State where
  memory : Fin uint16Max → JavaInt
  registers : Reg → JavaInt
  running : Bool
  stdout : List Char16

/-- The static fields before `main`: an `int` is zero and a `boolean` is false by default. -/
def initialState : State where
  memory := fun _ => 0
  registers := fun _ => 0
  running := false
  stdout := []

/-- `registers[r] = v`. -/
def State.setReg (s : State) (r : Reg) (v : JavaInt) : State :=
  { s with registers := Function.update s.registers r v }

@[simp]
theorem State.setReg_self (s : State) (r : Reg) (v : JavaInt) : (s.setReg r v).registers r = v := by
  simp [setReg]

theorem State.setReg_other (s : State) {r r' : Reg} (v : JavaInt) (h : r' ≠ r) :
    (s.setReg r v).registers r' = s.registers r' := by
  simp [setReg, h]

/-- The flags of `ConditionFlags`. -/
def flagCode : Lc3.Flag → JavaInt
  | .pos => 1
  | .zr => 1 <<< 1
  | .neg => 1 <<< 2

/-- `memoryRead(where)`. -/
def memoryRead («where» : JavaInt) (s : State) : Except Stop JavaInt :=
  if h : «where».toInt.toNat < uint16Max ∧ 0 ≤ «where».toInt then
    .ok (s.memory ⟨«where».toInt.toNat, h.1⟩)
  else
    .error (.arrayIndex «where».toInt)

/-- `memoryWrite(address, value)`. -/
def memoryWrite (address value : JavaInt) (s : State) : Except Stop State :=
  if h : address.toInt.toNat < uint16Max ∧ 0 ≤ address.toInt then
    .ok { s with memory := Function.update s.memory ⟨address.toInt.toNat, h.1⟩ value }
  else
    .error (.arrayIndex address.toInt)

/-- The `switch` of `main`: every arm is a comment and a `break`. -/
def dispatch (_operation : JavaInt) (s : State) : State := s

/-- The body of the loop of `main`: the increment takes effect before the call. -/
def iteration (s : State) : Except Stop State := do
  let pc := s.registers .pc
  let s := s.setReg .pc (pc + 1)
  let instruction ← memoryRead pc s
  let operation := instruction.sshiftRight 12
  return dispatch operation s

/-- One trip round `while (running)`. -/
def mainStep (s : State) : Except Stop State :=
  if s.running then iteration s else .error .halted

theorem toNat_setWidth_32 (a : Lc3.Word) : (a.setWidth 32 : JavaInt).toNat = a.toNat := by
  have hlt := a.isLt
  rw [BitVec.toNat_setWidth, Nat.mod_eq_of_lt (by omega)]

theorem toInt_setWidth_32 (a : Lc3.Word) : (a.setWidth 32 : JavaInt).toInt = a.toNat := by
  have hlt := a.isLt
  rw [BitVec.toInt_eq_toNat_of_lt (by rw [toNat_setWidth_32]; omega), toNat_setWidth_32]

/-- A word is what it was after being widened to an `int` and cut back to a `char`. -/
theorem setWidth_16_setWidth_32 (a : Lc3.Word) : (a.setWidth 32 : JavaInt).setWidth 16 = a := by
  simp

theorem setWidth_32_inj {a b : Lc3.Word} :
    (a.setWidth 32 : JavaInt) = b.setWidth 32 ↔ a = b := by
  constructor
  · intro h
    rw [← setWidth_16_setWidth_32 a, h, setWidth_16_setWidth_32]
  · rintro rfl
    rfl

/-- A word is an index inside `memory`. -/
theorem memoryRead_word (a : Lc3.Word) (s : State) :
    memoryRead (a.setWidth 32) s = .ok (s.memory ⟨a.toNat, a.isLt⟩) := by
  have hint := toInt_setWidth_32 a
  have hindex : (a.setWidth 32 : JavaInt).toInt.toNat < uint16Max ∧
      0 ≤ (a.setWidth 32 : JavaInt).toInt := by
    rw [hint]
    exact ⟨a.isLt, Int.natCast_nonneg _⟩
  rw [memoryRead, dif_pos hindex]
  simp only [hint, Int.toNat_natCast]

/-- An iteration with the program counter inside `memory` increments it, and that is all. -/
theorem mainStep_eq_ok {s : State} (hrun : s.running = true) {pc : Lc3.Word}
    (hpc : s.registers .pc = pc.setWidth 32) :
    mainStep s = .ok (s.setReg .pc (s.registers .pc + 1)) := by
  rw [mainStep, if_pos hrun, iteration, hpc, memoryRead_word]
  rfl

end Yavm.Java
