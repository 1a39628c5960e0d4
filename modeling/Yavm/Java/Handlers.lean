import Yavm.Java.Machine
import Yavm.Lc3.Effect

set_option autoImplicit false

/-! # The instruction handlers of `Main.java`

One definition per Java method, with the instruction as an `int`. On a 16-bit word each of them is
restated in the words of the LC-3 instruction set (`addOp_eq` … `jumpRegister_eq`), so that what is
proved about the handlers never unfolds one.

Where the methods depart from the instruction set, these equations say so: the mask `0xFFFF << n`
of `signExtend` is that of a 16-bit word and reaches bit `n + 15` of an `int`; `loadRegister`,
`storeRegister` and `jumpRegister` use the number of the base register for its contents;
`storeIndirect` uses the constant `R_PC` for the program counter; `storeRegister` takes five bits of
its offset; `jump` indexes the registers with the opcode. -/

namespace Yavm.Java

open Basis
open Lc3 (Reg Word Flag Op)

/-! ## The methods -/

/-- `signExtend(x, bit_count)`. -/
def signExtend (x : JavaInt) (bitCount : ℕ) : JavaInt :=
  if (x.sshiftRight (bitCount - 1)) &&& 1 = 1 then
    x ||| ((0xFFFF : JavaInt) <<< bitCount)
  else
    x

def updateFlags (reg : Reg) (s : State) : State :=
  if s.registers reg = 0 then
    s.setReg .cond (flagCode .zr)
  else if (s.registers reg).sshiftRight 15 = 1 then
    s.setReg .cond (flagCode .neg)
  else
    s.setReg .cond (flagCode .pos)

/-- `registers[i]`, for an index that may be outside the array. -/
def readRegister (i : JavaInt) (s : State) : Except Stop JavaInt :=
  if h : i.toInt.toNat < 10 ∧ 0 ≤ i.toInt then
    .ok (s.registers ⟨i.toInt.toNat, h.1⟩)
  else
    .error (.arrayIndex i.toInt)

/-- The index `x & 0x7`. -/
def low3 (x : JavaInt) : Reg :=
  ⟨(x &&& 0x7).toNat, Nat.lt_of_le_of_lt Nat.and_le_right (by decide)⟩

/-- The constants of `GPRegister`. -/
def number (r : Reg) : JavaInt :=
  BitVec.ofNat 32 r.val

def addOp (instruction : JavaInt) (s : State) : State :=
  let dr := low3 (instruction.sshiftRight 9)
  let sr1 := low3 (instruction.sshiftRight 6)
  let immFlag := instruction.sshiftRight 5 &&& 0x1
  if immFlag = 1 then
    let imm5 := signExtend (instruction &&& 0x1F) 5
    updateFlags dr (s.setReg dr (s.registers sr1 + imm5))
  else
    let sr2 := low3 instruction
    updateFlags dr (s.setReg dr (s.registers sr1 + s.registers sr2))

def load (instruction : JavaInt) (s : State) : Except Stop State := do
  let dr := low3 (instruction.sshiftRight 9)
  let pcOffset := signExtend (instruction &&& 0x1FF) 9
  let value ← memoryRead (s.registers .pc + pcOffset) s
  return updateFlags dr (s.setReg dr value)

def loadIndirect (instruction : JavaInt) (s : State) : Except Stop State := do
  let dr := low3 (instruction.sshiftRight 9)
  let pcOffset := signExtend (instruction &&& 0x1FF) 9
  let pointer ← memoryRead (s.registers .pc + pcOffset) s
  let value ← memoryRead pointer s
  return updateFlags dr (s.setReg dr value)

/-- `loadRegister` adds the number of the base register, not its contents. -/
def loadRegister (instruction : JavaInt) (s : State) : Except Stop State := do
  let dr := low3 (instruction.sshiftRight 9)
  let baseR := instruction.sshiftRight 6 &&& 0x7
  let pcOffset := signExtend (instruction &&& 0x3F) 6
  let value ← memoryRead (baseR + pcOffset) s
  return updateFlags dr (s.setReg dr value)

def store (instruction : JavaInt) (s : State) : Except Stop State :=
  let sr := low3 (instruction.sshiftRight 9)
  let pcOffset := signExtend (instruction &&& 0x1FF) 9
  memoryWrite (s.registers .pc + pcOffset) (s.registers sr) s

/-- `storeIndirect` adds the constant `R_PC`, not the program counter. -/
def storeIndirect (instruction : JavaInt) (s : State) : Except Stop State := do
  let sr := low3 (instruction.sshiftRight 9)
  let pcOffset := signExtend (instruction &&& 0x1FF) 9
  let pointer ← memoryRead (number .pc + pcOffset) s
  memoryWrite pointer (s.registers sr) s

/-- `storeRegister` adds the number of the base register, and takes five bits of the offset. -/
def storeRegister (instruction : JavaInt) (s : State) : Except Stop State :=
  let sr := low3 (instruction.sshiftRight 9)
  let baseR := instruction.sshiftRight 6 &&& 0x7
  let pcOffset := signExtend (instruction &&& 0x1F) 5
  memoryWrite (baseR + pcOffset) (s.registers sr) s

def loadEffectiveAddress (instruction : JavaInt) (s : State) : State :=
  let dr := low3 (instruction.sshiftRight 9)
  let pcOffset := signExtend (instruction &&& 0x1FF) 9
  updateFlags dr (s.setReg dr (s.registers .pc + pcOffset))

def bitwiseAnd (instruction : JavaInt) (s : State) : State :=
  let dr := low3 (instruction.sshiftRight 9)
  let sr1 := low3 (instruction.sshiftRight 6)
  let immFlag := instruction.sshiftRight 5 &&& 0x1
  if immFlag = 1 then
    let imm := signExtend (instruction &&& 0x1F) 5
    updateFlags dr (s.setReg dr (s.registers sr1 &&& imm))
  else
    let sr2 := low3 instruction
    updateFlags dr (s.setReg dr (s.registers sr1 &&& s.registers sr2))

def bitwiseNot (instruction : JavaInt) (s : State) : State :=
  let dr := low3 (instruction.sshiftRight 9)
  let sr := low3 (instruction.sshiftRight 6)
  updateFlags dr (s.setReg dr (~~~s.registers sr))

/-- `branch` never reads `registers[R_COND]`. -/
def branch (instruction : JavaInt) (s : State) : State :=
  let negBit := instruction.sshiftRight 0xB &&& 0x1
  let zeroBit := instruction.sshiftRight 0xA &&& 0x1
  let posBit := instruction.sshiftRight 0x9 &&& 0x1
  if negBit ||| zeroBit ||| posBit = 1 then
    s.setReg .pc (s.registers .pc + signExtend (instruction &&& 0x1FF) 9)
  else
    s

/-- `jump` shifts by seven and does not mask. -/
def jump (instruction : JavaInt) (s : State) : Except Stop State := do
  let baseR := instruction.sshiftRight 0x7
  let value ← readRegister baseR s
  return s.setReg .pc value

/-- Without bit 11, `jumpRegister` goes to the number of the base register. -/
def jumpRegister (instruction : JavaInt) (s : State) : State :=
  let eleventhBit := instruction.sshiftRight 0xB &&& 0x1
  let s := s.setReg .r7 (s.registers .pc)
  if eleventhBit = 1 then
    let pcOffset := signExtend (instruction &&& 0x7FF) 11
    s.setReg .pc (s.registers .pc + pcOffset)
  else
    let baseR := instruction.sshiftRight 6 &&& 0x7
    s.setReg .pc baseR

/-! ## Array accesses -/

/-- A nonnegative `int` is an index below `size` exactly when its bit pattern is. -/
theorem index_iff {size : ℕ} (hsize : size ≤ 65536) (a : JavaInt) :
    a.toInt.toNat < size ∧ 0 ≤ a.toInt ↔ a.toNat < size := by
  have hlt := a.isLt
  rw [BitVec.toInt_eq_toNat_cond]
  split <;> omega

/-- An access to an array of `size` elements completes exactly when the bit pattern of the index is
    below `size`. -/
theorem access_eq_ok {α : Type} {size : ℕ} (hsize : size ≤ 65536) {a : JavaInt}
    {f : Fin size → α} {e : Stop} {v : α} :
    (if h : a.toInt.toNat < size ∧ 0 ≤ a.toInt then .ok (f ⟨a.toInt.toNat, h.1⟩)
      else .error e : Except Stop α) = .ok v ↔
      ∃ h : a.toNat < size, f ⟨a.toNat, h⟩ = v := by
  by_cases h : a.toNat < size
  · have hin := (index_iff hsize a).2 h
    have hnat : a.toInt.toNat = a.toNat := by
      rw [BitVec.toInt_eq_toNat_of_lt (by omega), Int.toNat_natCast]
    have hindex : (⟨a.toInt.toNat, hin.1⟩ : Fin size) = ⟨a.toNat, h⟩ := Fin.ext hnat
    rw [dif_pos hin, Except.ok.injEq, hindex]
    exact ⟨fun hv => ⟨h, hv⟩, fun hv => hv.2⟩
  · rw [dif_neg fun hin => h ((index_iff hsize a).1 hin)]
    simp [h]

theorem memoryRead_eq_ok {a v : JavaInt} {s : State} :
    memoryRead a s = .ok v ↔ ∃ h : a.toNat < uint16Max, s.memory ⟨a.toNat, h⟩ = v :=
  access_eq_ok (Nat.le_refl uint16Max)

theorem memoryWrite_eq_ok {a v : JavaInt} {s t : State} :
    memoryWrite a v s = .ok t ↔ ∃ h : a.toNat < uint16Max,
      t = { s with memory := Function.update s.memory ⟨a.toNat, h⟩ v } := by
  rw [memoryWrite]
  exact (access_eq_ok (f := fun i => { s with memory := Function.update s.memory i v })
    (Nat.le_refl uint16Max)).trans (exists_congr fun _ => eq_comm)

/-! ## Fields of a 16-bit word -/

/-- The low `n` bits of a word, extended by `signExtend`. -/
def offset (n : ℕ) (w : Word) : JavaInt :=
  signExtend (w.setWidth 32 &&& BitVec.ofNat 32 (2 ^ n - 1)) n

/-- The flag `updateFlags` sets for a value. -/
def flagOf (v : JavaInt) : Flag :=
  if v = 0 then .zr else if v.sshiftRight 15 = 1 then .neg else .pos

/-- A value goes to a register, and its flag to `R_COND`. -/
def State.result (s : State) (r : Reg) (v : JavaInt) : State :=
  (s.setReg r v).setReg .cond (flagCode (flagOf v))

/-- The second operand of `addOp` and `bitwiseAnd`. -/
def operand2 (w : Word) (s : State) : JavaInt :=
  if w.getLsbD 5 then offset 5 w else s.registers (Reg.low3 w)

theorem updateFlags_setReg (r : Reg) (v : JavaInt) (s : State) :
    updateFlags r (s.setReg r v) = s.result r v := by
  rw [updateFlags, State.setReg_self, State.result, flagOf]
  split_ifs <;> rfl

theorem State.result_cond (s : State) (r : Reg) (v : JavaInt) :
    (s.result r v).registers .cond = flagCode (flagOf v) :=
  State.setReg_self _ _ _

theorem State.result_self (s : State) {r : Reg} (v : JavaInt) (hr : r ≠ .cond) :
    (s.result r v).registers r = v := by
  rw [State.result, State.setReg_other _ _ hr, State.setReg_self]

theorem State.result_other (s : State) {r r' : Reg} (v : JavaInt) (hr : r' ≠ r) (hc : r' ≠ .cond) :
    (s.result r v).registers r' = s.registers r' := by
  rw [State.result, State.setReg_other _ _ hc, State.setReg_other _ _ hr]

theorem low3_setWidth (x : Word) : low3 (x.setWidth 32) = Reg.low3 x := by
  apply Fin.ext
  change (x.setWidth 32 &&& (7 : JavaInt)).toNat = (x &&& (7 : Word)).toNat
  rw [BitVec.toNat_and, BitVec.toNat_and, toNat_setWidth_32]
  rfl

theorem toNat_number (r : Reg) : (number r).toNat = r.val := by
  revert r
  decide

theorem low3_shift (w : Word) (k : ℕ) :
    low3 ((w.setWidth 32).sshiftRight k) = Reg.low3 (w >>> k) := by
  rw [sshiftRight_setWidth w (by decide), low3_setWidth]

/-- The base register field, as the number it is. -/
theorem baseR_eq (w : Word) :
    (w.setWidth 32).sshiftRight 6 &&& (0x7 : JavaInt) = number (Lc3.baseOf w) := by
  apply BitVec.eq_of_toNat_eq
  have hval := congrArg Fin.val (low3_shift w 6)
  change ((w.setWidth 32).sshiftRight 6 &&& (7 : JavaInt)).toNat = (Lc3.baseOf w).val at hval
  have hlt : (Lc3.baseOf w).val < 8 := Lc3.baseOf_general w
  rw [hval, number, BitVec.toNat_ofNat, Nat.mod_eq_of_lt (by omega)]

theorem and_one_eq (x : JavaInt) : x &&& 1 = if x.getLsbD 0 then 1 else 0 := by
  apply BitVec.eq_of_toNat_eq
  have hbit : x.getLsbD 0 = decide (x.toNat % 2 = 1) := by
    rw [BitVec.getLsbD, Nat.testBit_zero]
  rw [hbit, BitVec.toNat_and]
  change x.toNat &&& 1 = _
  rw [Nat.and_one_is_mod]
  rcases Nat.mod_two_eq_zero_or_one x.toNat with h | h <;> rw [h] <;> rfl

/-- `(instruction >> k) & 1` is bit `k`. -/
theorem word_bit_eq (w : Word) (k : ℕ) :
    (w.setWidth 32).sshiftRight k &&& (1 : JavaInt) = if w.getLsbD k then 1 else 0 := by
  have hbit : ((w >>> k).setWidth 32).getLsbD 0 = w.getLsbD k := by
    rw [BitVec.getLsbD_setWidth, BitVec.getLsbD_ushiftRight]
    simp
  rw [and_one_eq, sshiftRight_setWidth w (by decide), hbit]

theorem word_bit_iff (w : Word) (k : ℕ) :
    (w.setWidth 32).sshiftRight k &&& (1 : JavaInt) = 1 ↔ w.getLsbD k = true := by
  rw [word_bit_eq]
  cases w.getLsbD k <;> decide

/-! ## The value of an offset -/

variable {n : ℕ}

theorem toNat_field (hn : n ≤ 16) (w : Word) :
    (w.setWidth 32 &&& BitVec.ofNat 32 (2 ^ n - 1)).toNat = w.toNat % 2 ^ n := by
  have hle : 2 ^ n ≤ 2 ^ 16 := Nat.pow_le_pow_right (by decide) hn
  have hlt := w.isLt
  have hpos : 0 < 2 ^ n := Nat.two_pow_pos n
  rw [and_mask_eq_setWidth, BitVec.toNat_setWidth, BitVec.toNat_setWidth, BitVec.toNat_setWidth,
    Nat.mod_eq_of_lt (show w.toNat < 2 ^ 32 by omega)]
  exact Nat.mod_eq_of_lt (Nat.lt_trans (Nat.mod_lt _ hpos) (by omega))

theorem field_sign_iff (hn : 0 < n) (hle : n ≤ 16) (w : Word) :
    ((w.setWidth 32 &&& BitVec.ofNat 32 (2 ^ n - 1)).sshiftRight (n - 1) &&& (1 : JavaInt) = 1) ↔
      w.getLsbD (n - 1) = true := by
  have hfield : w.setWidth 32 &&& BitVec.ofNat 32 (2 ^ n - 1)
      = ((w.setWidth n).setWidth 16).setWidth 32 := by
    rw [and_mask_eq_setWidth]
    apply BitVec.eq_of_getLsbD_eq
    intro i hi
    simp only [BitVec.getLsbD_setWidth, hi, decide_true, Bool.true_and]
    by_cases hin : i < n
    · have h16 : i < 16 := by omega
      simp [hin, h16]
    · simp [hin]
  have hlast : n - 1 < n := by omega
  have hlast' : n - 1 < 16 := by omega
  rw [hfield, word_bit_iff, BitVec.getLsbD_setWidth, BitVec.getLsbD_setWidth]
  simp [hlast, hlast']

/-- An offset whose sign bit is clear is its field. -/
theorem offset_of_nonneg (hn : 0 < n) (hle : n ≤ 16) {w : Word} (h : w.getLsbD (n - 1) = false) :
    (offset n w).toNat = w.toNat % 2 ^ n := by
  have hsign := field_sign_iff hn hle w
  rw [h] at hsign
  rw [offset, signExtend, if_neg (fun hbit => absurd (hsign.1 hbit) (by decide)), toNat_field hle]

/-- An offset whose sign bit is set is far above 65535: the mask has no ones above bit `n + 15`. -/
theorem offset_of_neg (hn : 0 < n) (hle : n ≤ 15) {w : Word} (h : w.getLsbD (n - 1) = true) :
    (offset n w).toNat = w.toNat % 2 ^ n + 65535 * 2 ^ n := by
  have hsign := field_sign_iff hn (Nat.le_succ_of_le hle) w
  rw [offset, signExtend, if_pos (hsign.2 h), toNat_or_shiftLeft, toNat_field]
  · rfl
  · exact Nat.le_succ_of_le hle
  · rw [toNat_field (Nat.le_succ_of_le hle)]
    exact Nat.mod_lt _ (Nat.two_pow_pos n)
  · have hle' : 2 ^ n ≤ 2 ^ 15 := Nat.pow_le_pow_right (by decide) hle
    change 65535 * 2 ^ n < 2 ^ 32
    omega

/-- Modulo 2¹⁶ an offset is the two's-complement one. -/
theorem offset_setWidth (hn : 0 < n) (hle : n ≤ 16) (w : Word) :
    (offset n w).setWidth 16 = Lc3.sext n w := by
  have hsign := field_sign_iff hn hle w
  have hmsb : (w.setWidth n).msb = w.getLsbD (n - 1) := by
    have hlast : n - 1 < n := by omega
    rw [BitVec.msb_eq_getLsbD_last, BitVec.getLsbD_setWidth]
    simp [hlast]
  have hmask : ∀ (i : ℕ) (h : i < 16), (0xFFFF#16)[i] = true := by decide
  rw [and_mask_eq_setWidth] at hsign
  apply BitVec.eq_of_getLsbD_eq
  intro i hi
  rw [offset, and_mask_eq_setWidth, signExtend, Lc3.sext, BitVec.getLsbD_signExtend, hmsb]
  by_cases hneg : w.getLsbD (n - 1) = true
  · rw [if_pos (hsign.2 hneg)]
    by_cases hin : i < n
    · simp [hi, hin]
    · simp [hi, hin, hneg, hmask (i - n) (by omega)]
  · rw [if_neg (fun hbit => hneg (hsign.1 hbit))]
    by_cases hin : i < n <;> simp [hi, hin, hneg]

/-! ## The methods on 16-bit words -/

section

variable (w : Word) (s : State)

/-- The second operand, chosen as `addOp` and `bitwiseAnd` choose it. -/
theorem choose_operand2 (next : JavaInt → State) :
    (if (w.setWidth 32).sshiftRight 5 &&& (0x1 : JavaInt) = 1 then next (offset 5 w)
      else next (s.registers (low3 (w.setWidth 32)))) = next (operand2 w s) := by
  rw [operand2]
  by_cases h : w.getLsbD 5 = true
  · rw [if_pos ((word_bit_iff w 5).2 h), if_pos h]
  · rw [if_neg (fun hb => h ((word_bit_iff w 5).1 hb)), if_neg h, low3_setWidth]

theorem addOp_eq :
    addOp (w.setWidth 32) s
      = s.result (Lc3.destOf w) (s.registers (Lc3.baseOf w) + operand2 w s) := by
  rw [← updateFlags_setReg, addOp, low3_shift, low3_shift]
  exact choose_operand2 w s fun y => updateFlags (Lc3.destOf w)
    (s.setReg (Lc3.destOf w) (s.registers (Lc3.baseOf w) + y))

theorem bitwiseAnd_eq :
    bitwiseAnd (w.setWidth 32) s
      = s.result (Lc3.destOf w) (s.registers (Lc3.baseOf w) &&& operand2 w s) := by
  rw [← updateFlags_setReg, bitwiseAnd, low3_shift, low3_shift]
  exact choose_operand2 w s fun y => updateFlags (Lc3.destOf w)
    (s.setReg (Lc3.destOf w) (s.registers (Lc3.baseOf w) &&& y))

theorem bitwiseNot_eq :
    bitwiseNot (w.setWidth 32) s
      = s.result (Lc3.destOf w) (~~~s.registers (Lc3.baseOf w)) := by
  rw [bitwiseNot, updateFlags_setReg, low3_shift, low3_shift]
  rfl

theorem loadEffectiveAddress_eq :
    loadEffectiveAddress (w.setWidth 32) s
      = s.result (Lc3.destOf w) (s.registers .pc + offset 9 w) := by
  rw [loadEffectiveAddress, updateFlags_setReg, low3_shift]
  rfl

/-- The end of a load. -/
theorem load_updateFlags (x : Except Stop JavaInt) (r : Reg) :
    (x >>= fun v => .ok (updateFlags r (s.setReg r v))) = x.map fun v => s.result r v := by
  cases x with
  | error e => rfl
  | ok v => exact congrArg Except.ok (updateFlags_setReg r v s)

theorem load_eq :
    load (w.setWidth 32) s = (memoryRead (s.registers .pc + offset 9 w) s).map
      fun v => s.result (Lc3.destOf w) v := by
  rw [load, low3_shift]
  exact load_updateFlags s _ _

theorem loadIndirect_eq :
    loadIndirect (w.setWidth 32) s
      = memoryRead (s.registers .pc + offset 9 w) s >>= fun pointer =>
        (memoryRead pointer s).map fun v => s.result (Lc3.destOf w) v := by
  rw [loadIndirect, low3_shift]
  exact congrArg (memoryRead (s.registers .pc + offset 9 w) s >>= ·)
    (funext fun pointer => load_updateFlags s _ _)

theorem loadRegister_eq :
    loadRegister (w.setWidth 32) s
      = (memoryRead (number (Lc3.baseOf w) + offset 6 w) s).map
        fun v => s.result (Lc3.destOf w) v := by
  rw [loadRegister, low3_shift, baseR_eq]
  exact load_updateFlags s _ _

theorem store_eq :
    store (w.setWidth 32) s
      = memoryWrite (s.registers .pc + offset 9 w) (s.registers (Lc3.destOf w)) s := by
  rw [store, low3_shift]
  rfl

theorem storeIndirect_eq :
    storeIndirect (w.setWidth 32) s
      = memoryRead (number .pc + offset 9 w) s >>= fun pointer =>
        memoryWrite pointer (s.registers (Lc3.destOf w)) s := by
  rw [storeIndirect, low3_shift]
  rfl

theorem storeRegister_eq :
    storeRegister (w.setWidth 32) s
      = memoryWrite (number (Lc3.baseOf w) + offset 5 w) (s.registers (Lc3.destOf w)) s := by
  rw [storeRegister, low3_shift, baseR_eq]
  rfl

theorem branch_eq :
    branch (w.setWidth 32) s
      = if Lc3.anyCondition w then s.setReg .pc (s.registers .pc + offset 9 w) else s := by
  have hany : ((if w.getLsbD 0xB then 1 else 0) ||| (if w.getLsbD 0xA then 1 else 0) |||
      (if w.getLsbD 0x9 then 1 else 0) : JavaInt) = 1 ↔ Lc3.anyCondition w = true := by
    rw [Lc3.anyCondition]
    cases w.getLsbD 11 <;> cases w.getLsbD 10 <;> cases w.getLsbD 9 <;> decide
  rw [branch, word_bit_eq, word_bit_eq, word_bit_eq]
  by_cases h : Lc3.anyCondition w = true
  · rw [if_pos h]
    exact if_pos (hany.2 h)
  · rw [if_neg h]
    exact if_neg (fun hbits => h (hany.1 hbits))

theorem jumpRegister_eq :
    jumpRegister (w.setWidth 32) s = (s.setReg .r7 (s.registers .pc)).setReg .pc
      (if w.getLsbD 11 then s.registers .pc + offset 11 w else number (Lc3.baseOf w)) := by
  rw [jumpRegister, baseR_eq]
  by_cases h : w.getLsbD 11 = true
  · have hpc : (s.setReg .r7 (s.registers .pc)).registers .pc = s.registers .pc :=
      s.setReg_other _ Reg.pc_ne_r7
    rw [if_pos ((word_bit_iff w _).2 h), if_pos h, hpc]
    rfl
  · rw [if_neg (fun hb => h ((word_bit_iff w _).1 hb)), if_neg h]

end

end Yavm.Java
