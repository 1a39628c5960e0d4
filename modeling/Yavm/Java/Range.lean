import Yavm.Java.Handlers

set_option autoImplicit false

/-! # The 16-bit range of the Java machine

Registers and cells are meant to hold 16-bit values, but an `int` does not wrap there.
`range_iff` says for each handler on which words and states it completes and leaves every register
and cell in range. A sign-extended negative offset is never below 65536 (`offset_of_neg`), so what
is left of most handlers are the nonnegative offsets that do not carry out of 16 bits;
`bitwiseNot` never stays in range, and `bitwiseAnd` always does. -/

namespace Yavm.Java

open Basis
open Lc3 (Reg Word Flag)

/-- A value in 0..65535. -/
def Is16 (v : JavaInt) : Prop :=
  0 ≤ v.toInt ∧ v.toInt ≤ 65535

instance : DecidablePred Is16 := fun v =>
  inferInstanceAs (Decidable (0 ≤ v.toInt ∧ v.toInt ≤ 65535))

/-- Every register and every cell is in range. -/
structure InRange (s : State) : Prop where
  registers : ∀ r, Is16 (s.registers r)
  memory : ∀ i, Is16 (s.memory i)

/-- The handlers of the instructions that are no traps, `jump` apart. -/
inductive Handler
  | addOp | load | loadIndirect | loadRegister | store | storeIndirect | storeRegister
  | loadEffectiveAddress | bitwiseAnd | bitwiseNot | branch | jumpRegister
  deriving DecidableEq, Repr

/-- The method a handler is. -/
def Handler.run (handler : Handler) (instruction : JavaInt) (s : State) : Except Stop State :=
  match handler with
  | .addOp => .ok (Java.addOp instruction s)
  | .load => Java.load instruction s
  | .loadIndirect => Java.loadIndirect instruction s
  | .loadRegister => Java.loadRegister instruction s
  | .store => Java.store instruction s
  | .storeIndirect => Java.storeIndirect instruction s
  | .storeRegister => Java.storeRegister instruction s
  | .loadEffectiveAddress => .ok (Java.loadEffectiveAddress instruction s)
  | .bitwiseAnd => .ok (Java.bitwiseAnd instruction s)
  | .bitwiseNot => .ok (Java.bitwiseNot instruction s)
  | .branch => .ok (Java.branch instruction s)
  | .jumpRegister => .ok (Java.jumpRegister instruction s)

/-- The offset in the low `n` bits is not negative, and added to the base it does not carry out of
    16 bits. -/
def Reaches (base : JavaInt) (n : ℕ) (w : Word) : Prop :=
  w.getLsbD (n - 1) = false ∧ base.toNat + w.toNat % 2 ^ n ≤ 65535

/-- The words and states on which a handler keeps the range. -/
def Handler.Keeps (handler : Handler) (w : Word) (s : State) : Prop :=
  match handler with
  | .addOp =>
    if w.getLsbD 5 then Reaches (s.registers (Lc3.baseOf w)) 5 w
    else (s.registers (Lc3.baseOf w)).toNat + (s.registers (Reg.low3 w)).toNat ≤ 65535
  | .load | .loadIndirect | .store | .loadEffectiveAddress => Reaches (s.registers .pc) 9 w
  | .loadRegister => w.getLsbD 5 = false
  | .storeIndirect => w.getLsbD 8 = false
  | .storeRegister => w.getLsbD 4 = false
  | .bitwiseAnd => True
  | .bitwiseNot => False
  | .branch => Lc3.anyCondition w = true → Reaches (s.registers .pc) 9 w
  | .jumpRegister => w.getLsbD 11 = true → Reaches (s.registers .pc) 11 w

/-- The handler completes, with every register and cell in range. -/
def Handler.RangeLaw (handler : Handler) (w : Word) (s : State) : Prop :=
  ∃ t, handler.run (w.setWidth 32) s = .ok t ∧ InRange t

/-! ## Values -/

theorem is16_iff {v : JavaInt} : Is16 v ↔ v.toNat < 65536 := by
  have hlt := v.isLt
  rw [Is16, BitVec.toInt_eq_toNat_cond]
  split <;> omega

/-- Every negative offset leaves the range, and nothing wraps on the way. -/
theorem is16_add_offset_iff {base : JavaInt} (hbase : Is16 base) {n : ℕ} (hn : 0 < n) (hle : n ≤ 11)
    (w : Word) : Is16 (base + offset n w) ↔ Reaches base n w := by
  have hpow : 2 ^ n ≤ 2 ^ 11 := Nat.pow_le_pow_right (by decide) hle
  have hpow' : 2 ^ 1 ≤ 2 ^ n := Nat.pow_le_pow_right (by decide) hn
  have hfield : w.toNat % 2 ^ n < 2 ^ n := Nat.mod_lt _ (Nat.two_pow_pos n)
  rw [is16_iff] at hbase
  rw [is16_iff, BitVec.toNat_add, Reaches]
  cases hsign : w.getLsbD (n - 1) with
  | false =>
      rw [offset_of_nonneg hn (by omega) hsign, Nat.mod_eq_of_lt (by omega)]
      simp only [true_and]
      omega
  | true =>
      rw [offset_of_neg hn (by omega) hsign, Nat.mod_eq_of_lt (by omega)]
      simp only [Bool.true_eq_false, false_and, iff_false]
      omega

theorem is16_number (r : Reg) : Is16 (number r) := by
  revert r
  decide

/-- From the number of a register, every nonnegative offset is in range. -/
theorem is16_number_add_offset_iff (r : Reg) {n : ℕ} (hn : 0 < n) (hle : n ≤ 11) (w : Word) :
    Is16 (number r + offset n w) ↔ w.getLsbD (n - 1) = false := by
  have hpow : 2 ^ n ≤ 2 ^ 11 := Nat.pow_le_pow_right (by decide) hle
  have hfield : w.toNat % 2 ^ n < 2 ^ n := Nat.mod_lt _ (Nat.two_pow_pos n)
  have hr := r.isLt
  rw [is16_add_offset_iff (is16_number r) hn hle, Reaches, toNat_number]
  exact and_iff_left (by omega)

theorem is16_and {x : JavaInt} (hx : Is16 x) (y : JavaInt) : Is16 (x &&& y) := by
  rw [is16_iff] at hx ⊢
  rw [BitVec.toNat_and]
  exact Nat.lt_of_le_of_lt Nat.and_le_left hx

/-- The complement of a value in range is negative. -/
theorem not_is16_not {x : JavaInt} (hx : Is16 x) : ¬ Is16 (~~~x) := by
  rw [is16_iff] at hx ⊢
  rw [BitVec.toNat_not]
  omega

theorem is16_flagCode (f : Flag) : Is16 (flagCode f) := by
  cases f <;> decide

/-! ## States -/

theorem inRange_setReg_iff {s : State} (hs : InRange s) (r : Reg) (v : JavaInt) :
    InRange (s.setReg r v) ↔ Is16 v := by
  constructor
  · intro h
    have hv := h.registers r
    rwa [State.setReg_self] at hv
  · intro hv
    refine ⟨fun r' => ?_, hs.memory⟩
    by_cases hr : r' = r
    · rwa [hr, State.setReg_self]
    · rw [s.setReg_other v hr]
      exact hs.registers r'

theorem inRange_result_iff {s : State} (hs : InRange s) {r : Reg} (hr : r ≠ .cond) (v : JavaInt) :
    InRange (s.result r v) ↔ Is16 v := by
  constructor
  · intro h
    have hv := h.registers r
    rwa [State.result_self _ _ hr] at hv
  · intro hv
    rw [State.result, inRange_setReg_iff ((inRange_setReg_iff hs r v).2 hv)]
    exact is16_flagCode _

/-- A method that always returns. -/
theorem exists_ok_iff {t : State} {P : State → Prop} :
    (∃ t', (.ok t : Except Stop State) = .ok t' ∧ P t') ↔ P t := by
  simp

/-- A load stays in range when its address does. -/
theorem load_range_iff {s : State} (hs : InRange s) (a : JavaInt) {r : Reg} (hr : r ≠ .cond) :
    (∃ t, (memoryRead a s).map (fun v => s.result r v) = .ok t ∧ InRange t) ↔ Is16 a := by
  rw [is16_iff]
  constructor
  · intro ⟨t, hload, _⟩
    obtain ⟨v, hread, -⟩ := map_eq_ok.1 hload
    exact (memoryRead_eq_ok.1 hread).1
  · intro ha
    refine ⟨_, map_eq_ok.2 ⟨_, memoryRead_eq_ok.2 ⟨ha, rfl⟩, rfl⟩, ?_⟩
    exact (inRange_result_iff hs hr _).2 (hs.memory _)

/-- A store stays in range when its address does. -/
theorem store_range_iff {s : State} (hs : InRange s) (a : JavaInt) {v : JavaInt} (hv : Is16 v) :
    (∃ t, memoryWrite a v s = .ok t ∧ InRange t) ↔ Is16 a := by
  rw [is16_iff]
  constructor
  · intro ⟨t, hwrite, _⟩
    exact (memoryWrite_eq_ok.1 hwrite).1
  · intro ha
    refine ⟨_, memoryWrite_eq_ok.2 ⟨ha, rfl⟩, hs.registers, fun i => ?_⟩
    by_cases hi : i = ⟨a.toNat, ha⟩
    · simpa [hi] using hv
    · change Is16 (Function.update s.memory ⟨a.toNat, ha⟩ v i)
      rw [Function.update_of_ne hi]
      exact hs.memory i

/-- A read of a pointer, and what is done with a pointer that is in range. -/
theorem pointer_range_iff {s : State} (hs : InRange s) (a : JavaInt)
    {next : JavaInt → Except Stop State} {P : State → Prop}
    (hnext : ∀ pointer, Is16 pointer → ∃ t, next pointer = .ok t ∧ P t) :
    (∃ t, memoryRead a s >>= next = .ok t ∧ P t) ↔ Is16 a := by
  rw [is16_iff]
  constructor
  · intro ⟨t, h, _⟩
    obtain ⟨pointer, hread, -⟩ := bind_eq_ok.1 h
    exact (memoryRead_eq_ok.1 hread).1
  · intro ha
    obtain ⟨t, hok, hP⟩ := hnext _ (hs.memory ⟨a.toNat, ha⟩)
    exact ⟨t, bind_eq_ok.2 ⟨_, memoryRead_eq_ok.2 ⟨ha, rfl⟩, hok⟩, hP⟩

theorem operand2_range_iff {s : State} (hs : InRange s) (w : Word) :
    Is16 (s.registers (Lc3.baseOf w) + operand2 w s) ↔ Handler.addOp.Keeps w s := by
  have hbase := hs.registers (Lc3.baseOf w)
  rw [operand2, Handler.Keeps]
  by_cases h : w.getLsbD 5 = true
  · rw [if_pos h, if_pos h]
    exact is16_add_offset_iff hbase (by decide) (by decide) w
  · have hsecond := is16_iff.1 (hs.registers (Reg.low3 w))
    rw [is16_iff] at hbase
    rw [if_neg h, if_neg h, is16_iff, BitVec.toNat_add, Nat.mod_eq_of_lt (by omega)]
    omega

/-- For every state in range, every word and each of the twelve handlers: the handler completes and
    leaves every register and cell in range if and only if the word and the registers it uses are
    such that its result, or the address it uses, stays within 16 bits (`Handler.Keeps`). -/
theorem range_iff {s : State} (hs : InRange s) (handler : Handler) (w : Word) :
    handler.RangeLaw w s ↔ handler.Keeps w s := by
  have hdest := (Lc3.destOf_general w).ne_cond
  have hpc := hs.registers .pc
  cases handler
  all_goals simp only [Handler.RangeLaw, Handler.run]
  case addOp =>
    rw [addOp_eq, exists_ok_iff, inRange_result_iff hs hdest]
    exact operand2_range_iff hs w
  case load =>
    rw [load_eq, load_range_iff hs _ hdest]
    exact is16_add_offset_iff hpc (by decide) (by decide) w
  case loadIndirect =>
    rw [loadIndirect_eq, pointer_range_iff hs]
    · exact is16_add_offset_iff hpc (by decide) (by decide) w
    · exact fun pointer hpointer => (load_range_iff hs pointer hdest).2 hpointer
  case loadRegister =>
    rw [loadRegister_eq, load_range_iff hs _ hdest]
    exact is16_number_add_offset_iff _ (by decide) (by decide) w
  case store =>
    rw [store_eq, store_range_iff hs _ (hs.registers _)]
    exact is16_add_offset_iff hpc (by decide) (by decide) w
  case storeIndirect =>
    rw [storeIndirect_eq, pointer_range_iff hs]
    · exact is16_number_add_offset_iff _ (by decide) (by decide) w
    · exact fun pointer hpointer => (store_range_iff hs pointer (hs.registers _)).2 hpointer
  case storeRegister =>
    rw [storeRegister_eq, store_range_iff hs _ (hs.registers _)]
    exact is16_number_add_offset_iff _ (by decide) (by decide) w
  case loadEffectiveAddress =>
    rw [loadEffectiveAddress_eq, exists_ok_iff, inRange_result_iff hs hdest]
    exact is16_add_offset_iff hpc (by decide) (by decide) w
  case bitwiseAnd =>
    rw [bitwiseAnd_eq, exists_ok_iff, inRange_result_iff hs hdest]
    exact iff_true_intro (is16_and (hs.registers _) _)
  case bitwiseNot =>
    rw [bitwiseNot_eq, exists_ok_iff, inRange_result_iff hs hdest]
    exact iff_false_intro (not_is16_not (hs.registers _))
  case branch =>
    rw [branch_eq, exists_ok_iff, Handler.Keeps]
    by_cases h : Lc3.anyCondition w = true
    · rw [if_pos h, inRange_setReg_iff hs, is16_add_offset_iff hpc (by decide) (by decide)]
      exact ⟨fun hreach _ => hreach, fun hreach => hreach h⟩
    · rw [if_neg h]
      exact iff_of_true hs fun hany => absurd hany h
  case jumpRegister =>
    have hlink := (inRange_setReg_iff hs .r7 (s.registers .pc)).2 hpc
    rw [jumpRegister_eq, exists_ok_iff, Handler.Keeps, inRange_setReg_iff hlink]
    by_cases h : w.getLsbD 11 = true
    · rw [if_pos h, is16_add_offset_iff hpc (by decide) (by decide)]
      exact ⟨fun hreach _ => hreach, fun hreach => hreach h⟩
    · rw [if_neg h]
      exact iff_of_true (is16_number _) fun hbit => absurd hbit h

/-- A machine that is about to execute the word at `0x3000`, with zeros everywhere else. -/
def freshState : State where
  memory := fun _ => 0
  registers := fun r => if r = .pc then 0x3000 else 0
  running := true
  stdout := []

theorem inRange_freshState : InRange freshState := by
  have hzero : Is16 0 := by decide
  refine ⟨fun r => ?_, fun _ => hzero⟩
  change Is16 (if r = .pc then 0x3000 else 0)
  split
  · decide
  · exact hzero

/-- The equivalence on `NOT R0, R0`. -/
theorem range_iff_not :
    Handler.bitwiseNot.RangeLaw 0x903F freshState ↔ Handler.bitwiseNot.Keeps 0x903F freshState :=
  range_iff inRange_freshState .bitwiseNot 0x903F

/-- `NOT R0, R0` leaves -1 in `R0`, and `LD R0, #-1` reads outside the array. -/
theorem range_broken_by_not :
    InRange freshState ∧ ¬ Handler.bitwiseNot.RangeLaw 0x903F freshState ∧
      ¬ Handler.load.RangeLaw 0x21FF freshState := by
  refine ⟨inRange_freshState, fun h => ?_, fun h => ?_⟩
  · obtain ⟨t, ht, hrange⟩ := h
    obtain rfl := Except.ok.inj ht
    exact absurd (hrange.registers 0) (by decide)
  · obtain ⟨t, ht, -⟩ := h
    rw [Handler.run, load_eq, map_eq_ok] at ht
    obtain ⟨v, hread, -⟩ := ht
    obtain ⟨hlt, -⟩ := memoryRead_eq_ok.1 hread
    exact absurd hlt (by decide)

end Yavm.Java
