import Mathlib.Data.Nat.Bitwise
import Mathlib.Tactic.Common

set_option autoImplicit false

/-! # Sign extension by a mask

Interpreters written in C widen an `n`-bit two's-complement field by testing its top bit and
or-ing ones above it. `extendByMask` is that computation at any width; on a field that has been
masked out of a word it is the two's-complement extension of the field. -/

namespace Basis

variable {w : ℕ}

/-- Or ones above bit `n - 1` when that bit is set. -/
def extendByMask (x : BitVec w) (n : ℕ) : BitVec w :=
  if (x >>> (n - 1)) &&& 1#w ≠ 0#w then x ||| (BitVec.allOnes w <<< n) else x

/-- Masking with `2 ^ n - 1` keeps the low `n` bits. -/
theorem and_mask_eq_setWidth (x : BitVec w) (n : ℕ) :
    x &&& BitVec.ofNat w (2 ^ n - 1) = (x.setWidth n).setWidth w := by
  apply BitVec.eq_of_getLsbD_eq
  intro i hi
  rw [BitVec.getLsbD_and, BitVec.getLsbD_ofNat, Nat.testBit_two_pow_sub_one,
    BitVec.getLsbD_setWidth, BitVec.getLsbD_setWidth, Bool.and_comm]
  simp only [hi, decide_true, Bool.true_and]

/-- A shifted word and-ed with one is nonzero exactly when the bit is set. -/
theorem shiftRight_and_one_ne_zero (x : BitVec w) (k : ℕ) :
    (x >>> k) &&& 1#w ≠ 0#w ↔ x.getLsbD k = true := by
  constructor
  · intro h
    by_contra hk
    apply h
    apply BitVec.eq_of_getLsbD_eq
    intro i hi
    rcases Nat.eq_zero_or_pos i with rfl | hpos
    · simp at hk
      simp [hk]
    · simp [BitVec.getLsbD_one, Nat.pos_iff_ne_zero.1 hpos]
  · intro hk h
    have hw : k < w := by
      by_contra hge
      simp [BitVec.getLsbD_of_ge x k (Nat.le_of_not_lt hge)] at hk
    have hbit := congrArg (fun y => y.getLsbD 0) h
    simp [hk] at hbit
    omega

/-- Extension by a mask of an `n`-bit field is two's-complement sign extension. -/
theorem extendByMask_setWidth {n : ℕ} (hn : 0 < n) (hw : n ≤ w) (x : BitVec w) :
    extendByMask ((x.setWidth n).setWidth w) n = (x.setWidth n).signExtend w := by
  have hlast : ((x.setWidth n).setWidth w).getLsbD (n - 1) = x.getLsbD (n - 1) := by
    rw [BitVec.getLsbD_setWidth, BitVec.getLsbD_setWidth]
    have h₁ : n - 1 < w := by omega
    have h₂ : n - 1 < n := by omega
    simp [h₁, h₂]
  have hmsb : (x.setWidth n).msb = x.getLsbD (n - 1) := by
    have h : n - 1 < n := by omega
    rw [BitVec.msb_eq_getLsbD_last, BitVec.getLsbD_setWidth]
    simp only [h, decide_true, Bool.true_and]
  -- the bit that is tested is the sign bit of the field, and both sides repeat it above the field
  rw [extendByMask]
  apply BitVec.eq_of_getLsbD_eq
  intro i hi
  rw [BitVec.getLsbD_signExtend, hmsb]
  by_cases hbit : x.getLsbD (n - 1) = true
  · rw [if_pos ((shiftRight_and_one_ne_zero _ _).2 (hlast.trans hbit))]
    by_cases hin : i < n <;> simp [hi, hin, hbit]
  · rw [if_neg (fun h => hbit (hlast ▸ (shiftRight_and_one_ne_zero _ _).1 h))]
    by_cases hin : i < n <;> simp [hi, hin, hbit]

/-- Only the zero field extends to zero. -/
theorem signExtend_eq_zero_iff {n : ℕ} (hw : n ≤ w) (x : BitVec n) :
    x.signExtend w = 0#w ↔ x = 0#n := by
  rw [← BitVec.toInt_inj, BitVec.toInt_signExtend_of_le hw, BitVec.toInt_zero, ← BitVec.toInt_zero,
    BitVec.toInt_inj]

/-! ## A mask that does not reach the top -/

/-- Or-ing a mask above a field adds it, when it fits in the word. -/
theorem toNat_or_shiftLeft {x m : BitVec w} {n : ℕ} (hx : x.toNat < 2 ^ n)
    (hm : m.toNat * 2 ^ n < 2 ^ w) : (x ||| (m <<< n)).toNat = x.toNat + m.toNat * 2 ^ n := by
  rw [BitVec.toNat_or, BitVec.toNat_shiftLeft, Nat.shiftLeft_eq, Nat.mod_eq_of_lt hm, Nat.lor_comm,
    ← Nat.shiftLeft_eq, ← Nat.shiftLeft_add_eq_or_of_lt hx, Nat.add_comm]

/-- The arithmetic shift of a word that is not negative is the logical one. -/
theorem sshiftRight_setWidth {v : ℕ} (x : BitVec v) (h : v < w) (k : ℕ) :
    (x.setWidth w).sshiftRight k = (x >>> k).setWidth w := by
  have hmsb : (x.setWidth w).msb = false := by
    rw [BitVec.msb_setWidth]
    simp [BitVec.getLsbD_of_ge x (w - 1) (by omega)]
  rw [BitVec.sshiftRight_eq_of_msb_false hmsb]
  apply BitVec.eq_of_toNat_eq
  have hx : x.toNat < 2 ^ w := Nat.lt_trans x.isLt (Nat.pow_lt_pow_right (by decide) h)
  have hshift : x.toNat >>> k ≤ x.toNat := Nat.shiftRight_le ..
  rw [BitVec.toNat_ushiftRight, BitVec.toNat_setWidth, BitVec.toNat_setWidth,
    BitVec.toNat_ushiftRight, Nat.mod_eq_of_lt hx, Nat.mod_eq_of_lt (Nat.lt_of_le_of_lt hshift hx)]

end Basis
