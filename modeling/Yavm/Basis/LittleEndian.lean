import Mathlib.Algebra.BigOperators.Group.Finset.Basic
import Mathlib.Algebra.BigOperators.Ring.Finset
import Mathlib.Data.Nat.Basic
import Mathlib.Tactic.Common

set_option autoImplicit false

/-! # Little-endian values in byte-addressed storage

Storage is a function from addresses to bytes. `load` reads an `n`-byte little-endian value and
`store` overwrites one. -/

namespace Basis

/-- Bytes by address. -/
abbrev Bytes := ℕ → BitVec 8

/-- The `n`-byte little-endian value at `off`. -/
def load : (n : ℕ) → Bytes → ℕ → BitVec (8 * n)
  | 0, _, _ => 0
  | n + 1, p, off => load n p (off + 1) ++ p off

/-- Overwrite the `n` bytes at `off` with a value, low byte first. -/
def store (n : ℕ) (p : Bytes) (off : ℕ) (v : BitVec (8 * n)) : Bytes :=
  fun i => if off ≤ i ∧ i < off + n then (v >>> (8 * (i - off))).setWidth 8 else p i

variable {n m : ℕ}

/-! ## Bytes of a value -/

/-- Byte `k` of a value, counted from the low end. -/
def byte {w : ℕ} (v : BitVec w) (k : ℕ) : BitVec 8 :=
  (v >>> (8 * k)).setWidth 8

theorem getLsbD_byte {w : ℕ} (v : BitVec w) (k : ℕ) {j : ℕ} (hj : j < 8) :
    (byte v k).getLsbD j = v.getLsbD (8 * k + j) := by
  simp [byte, hj]

/-- A bit of a value is a bit of one of its bytes. -/
theorem getLsbD_eq_byte {w : ℕ} (v : BitVec w) (i : ℕ) :
    v.getLsbD i = (byte v (i / 8)).getLsbD (i % 8) := by
  rw [getLsbD_byte v _ (Nat.mod_lt i (by decide)), Nat.div_add_mod]

/-- Values with the same bytes are equal. -/
theorem eq_of_byte {v u : BitVec (8 * n)} (h : ∀ k < n, byte v k = byte u k) : v = u := by
  apply BitVec.eq_of_getLsbD_eq
  intro i hi
  rw [getLsbD_eq_byte v, getLsbD_eq_byte u, h (i / 8) (by omega)]

theorem byte_of_le (v : BitVec (8 * m)) {k : ℕ} (hk : m ≤ k) : byte v k = 0 := by
  apply BitVec.eq_of_getLsbD_eq
  intro j hj
  rw [getLsbD_byte v k hj, BitVec.getLsbD_of_ge v _ (by omega)]
  simp

theorem byte_setWidth (v : BitVec (8 * m)) {k : ℕ} (hk : k < n) :
    byte (v.setWidth (8 * n)) k = byte v k := by
  apply BitVec.eq_of_getLsbD_eq
  intro j hj
  have hin : 8 * k + j < 8 * n := by omega
  rw [getLsbD_byte _ k hj, getLsbD_byte v k hj, BitVec.getLsbD_setWidth]
  simp [hin]

theorem byte_shiftLeft (v : BitVec (8 * n)) (d : ℕ) {k : ℕ} (hk : k < n) :
    byte (v <<< (8 * d)) k = if k < d then 0 else byte v (k - d) := by
  apply BitVec.eq_of_getLsbD_eq
  intro j hj
  have hin : 8 * k + j < 8 * n := by omega
  rw [getLsbD_byte _ k hj, BitVec.getLsbD_shiftLeft]
  by_cases hd : k < d
  · have hlow : 8 * k + j < 8 * d := by omega
    simp [hd, hlow]
  · have hlow : ¬ 8 * k + j < 8 * d := by omega
    have hsub : 8 * k + j - 8 * d = 8 * (k - d) + j := by omega
    rw [if_neg hd, getLsbD_byte v _ hj]
    simp [hin, hlow, hsub]

theorem byte_or {w : ℕ} (v u : BitVec w) (k : ℕ) : byte (v ||| u) k = byte v k ||| byte u k := by
  apply BitVec.eq_of_getLsbD_eq
  intro j hj
  rw [getLsbD_byte _ k hj, BitVec.getLsbD_or, BitVec.getLsbD_or, getLsbD_byte _ k hj,
    getLsbD_byte _ k hj]

theorem byte_ushiftRight {w : ℕ} (v : BitVec w) (d k : ℕ) :
    byte (v >>> (8 * d)) k = byte v (d + k) := by
  rw [byte, byte, ← BitVec.shiftRight_add, ← Nat.mul_add]

/-- Bit `i` of a loaded value comes from byte `i / 8` of the storage. -/
theorem getLsbD_load (n : ℕ) (p : Bytes) (off : ℕ) {i : ℕ} (hi : i < 8 * n) :
    (load n p off).getLsbD i = (p (off + i / 8)).getLsbD (i % 8) := by
  induction n generalizing off i with
  | zero => omega
  | succ n ih =>
      change (load n p (off + 1) ++ p off).getLsbD i = _
      rw [BitVec.getLsbD_append]
      by_cases hlow : i < 8
      · have hdiv : i / 8 = 0 := by omega
        have hmod : i % 8 = i := by omega
        rw [if_pos hlow, hdiv, hmod, Nat.add_zero]
      · have hdiv : off + 1 + (i - 8) / 8 = off + i / 8 := by omega
        have hmod : (i - 8) % 8 = i % 8 := by omega
        rw [if_neg hlow, ih (off + 1) (by omega), hdiv, hmod]

theorem byte_load (n : ℕ) (p : Bytes) (off : ℕ) {k : ℕ} (hk : k < n) :
    byte (load n p off) k = p (off + k) := by
  apply BitVec.eq_of_getLsbD_eq
  intro j hj
  have hdiv : (8 * k + j) / 8 = k := by omega
  have hmod : (8 * k + j) % 8 = j := by omega
  rw [getLsbD_byte _ _ hj, getLsbD_load n p off (by omega), hdiv, hmod]

/-- Two loads agree exactly when the bytes they read do. -/
theorem load_eq_load_iff {p q : Bytes} {i j : ℕ} :
    load n p i = load n q j ↔ ∀ k < n, p (i + k) = q (j + k) := by
  constructor
  · intro h k hk
    rw [← byte_load n p i hk, h, byte_load n q j hk]
  · intro h
    apply eq_of_byte
    intro k hk
    rw [byte_load n p i hk, byte_load n q j hk, h k hk]

/-- With another last byte the value changes, unless it is the byte that was there. -/
theorem load_update_last_iff {p : Bytes} {off : ℕ} {b : BitVec 8} :
    load (n + 1) (Function.update p (off + n) b) off = load (n + 1) p off ↔ b = p (off + n) := by
  rw [load_eq_load_iff]
  constructor
  · intro h
    rw [← h n (Nat.lt_succ_self n), Function.update_self]
  · intro hb k _
    rw [hb, Function.update_eq_self]

/-- One more byte in the low end. -/
theorem toNat_append_byte {w : ℕ} (hi : BitVec w) (lo : BitVec 8) :
    (hi ++ lo).toNat = hi.toNat * 256 + lo.toNat := by
  rw [BitVec.toNat_append, ← Nat.shiftLeft_add_eq_or_of_lt lo.isLt, Nat.shiftLeft_eq]

/-- A loaded value is the sum of its bytes, each with the weight of its position. -/
theorem toNat_load (n : ℕ) (p : Bytes) (off : ℕ) :
    (load n p off).toNat = ∑ i ∈ Finset.range n, (p (off + i)).toNat * 256 ^ i := by
  induction n generalizing off with
  | zero => rfl
  | succ n ih =>
      have hrest : ∑ i ∈ Finset.range n, (p (off + (i + 1))).toNat * 256 ^ (i + 1)
          = (load n p (off + 1)).toNat * 256 := by
        rw [ih, Finset.sum_mul]
        apply Finset.sum_congr rfl
        intro i _
        rw [pow_succ, ← Nat.mul_assoc, Nat.add_assoc off 1 i, Nat.add_comm 1 i]
      have hfirst : (p (off + 0)).toNat * 256 ^ 0 = (p off).toNat := Nat.mul_one _
      rw [Finset.sum_range_succ', hrest, hfirst]
      exact toNat_append_byte (load n p (off + 1)) (p off)

theorem load_zero (n off : ℕ) : load n (fun _ => 0) off = 0 := by
  apply eq_of_byte
  intro k hk
  rw [byte_load n _ off hk]
  simp [byte]

/-! ## Loading what was stored -/

/-- A value is read back where it was stored. -/
theorem load_store_self (n : ℕ) (p : Bytes) (off : ℕ) (v : BitVec (8 * n)) :
    load n (store n p off v) off = v := by
  apply eq_of_byte
  intro k hk
  have hin : off ≤ off + k ∧ off + k < off + n := by omega
  rw [byte_load _ _ _ hk, store, if_pos hin, Nat.add_sub_cancel_left]
  rfl

/-- A store elsewhere makes no difference. -/
theorem load_store_of_disjoint {i j : ℕ} (p : Bytes) (v : BitVec (8 * m))
    (h : i + n ≤ j ∨ j + m ≤ i) : load n (store m p j v) i = load n p i := by
  rw [load_eq_load_iff]
  intro k hk
  have hout : ¬ (j ≤ i + k ∧ i + k < j + m) := by omega
  rw [store, if_neg hout]

/-- A store covers an earlier one that is no wider. -/
theorem store_store (p : Bytes) (off : ℕ) (u : BitVec (8 * m)) (v : BitVec (8 * n)) (h : m ≤ n) :
    store n (store m p off u) off v = store n p off v := by
  funext i
  unfold store
  split
  · rfl
  · next hout =>
      have hout' : ¬ (off ≤ i ∧ i < off + m) := by omega
      rw [if_neg hout']

/-- A store into the low end of a zero leaves the value, widened. -/
theorem load_store_low {p : Bytes} {off : ℕ} (v : BitVec (8 * m))
    (hzero : load n p off = 0) : load n (store m p off v) off = v.setWidth (8 * n) := by
  apply eq_of_byte
  intro k hk
  rw [byte_load _ _ _ hk, byte_setWidth v hk, store]
  by_cases hkm : k < m
  · have hin : off ≤ off + k ∧ off + k < off + m := by omega
    rw [if_pos hin, Nat.add_sub_cancel_left]
    rfl
  · have hout : ¬ (off ≤ off + k ∧ off + k < off + m) := by omega
    rw [if_neg hout, byte_of_le v (Nat.le_of_not_lt hkm), ← byte_load n p off hk, hzero]
    simp [byte]

/-! ## Byte order -/

/-- A function on `n`-byte values that reverses the order of the bytes. -/
def ReversesBytes (n : ℕ) (f : BitVec (8 * n) → BitVec (8 * n)) : Prop :=
  ∀ v, ∀ k < n, byte (f v) k = byte v (n - 1 - k)

/-- Two reversals restore every byte. -/
theorem ReversesBytes.involutive {f : BitVec (8 * n) → BitVec (8 * n)} (h : ReversesBytes n f) :
    Function.Involutive f := by
  intro v
  apply eq_of_byte
  intro k hk
  have hback : n - 1 - (n - 1 - k) = k := by omega
  rw [h (f v) k hk, h v (n - 1 - k) (by omega), hback]

/-- The value with its `n` bytes in the opposite order. -/
def byteSwap (n : ℕ) (v : BitVec (8 * n)) : BitVec (8 * n) :=
  load n (fun i => byte v (n - 1 - i)) 0

theorem byte_byteSwap (v : BitVec (8 * n)) {k : ℕ} (hk : k < n) :
    byte (byteSwap n v) k = byte v (n - 1 - k) := by
  rw [byteSwap, byte_load _ _ _ hk, Nat.zero_add]

theorem getLsbD_byteSwap (v : BitVec (8 * n)) {i : ℕ} (hi : i < 8 * n) :
    (byteSwap n v).getLsbD i = v.getLsbD (8 * (n - 1 - i / 8) + i % 8) := by
  rw [getLsbD_eq_byte, byte_byteSwap v (by omega), getLsbD_byte _ _ (Nat.mod_lt i (by decide))]

theorem reversesBytes_byteSwap (n : ℕ) : ReversesBytes n (byteSwap n) :=
  fun v _ hk => byte_byteSwap v hk

@[simp]
theorem byteSwap_byteSwap (v : BitVec (8 * n)) : byteSwap n (byteSwap n v) = v :=
  (reversesBytes_byteSwap n).involutive v

/-- A loaded value reads the same in both byte orders exactly when its bytes do. -/
theorem byteSwap_load_eq_iff {p : Bytes} {off : ℕ} :
    byteSwap n (load n p off) = load n p off ↔ ∀ k < n, p (off + (n - 1 - k)) = p (off + k) := by
  constructor
  · intro h k hk
    have hbyte := congrArg (fun v => byte v k) h
    rwa [byte_byteSwap _ hk, byte_load n p off (by omega), byte_load n p off hk] at hbyte
  · intro h
    apply eq_of_byte
    intro k hk
    rw [byte_byteSwap _ hk, byte_load n p off (by omega), byte_load n p off hk, h k hk]

/-- Swapping a narrow value as a wider one moves it to the high end. -/
theorem byteSwap_setWidth (v : BitVec (8 * m)) (h : m ≤ n) :
    byteSwap n ((byteSwap m v).setWidth (8 * n)) = v.setWidth (8 * n) <<< (8 * (n - m)) := by
  apply eq_of_byte
  intro k hk
  rw [byte_byteSwap _ hk, byte_setWidth _ (by omega), byte_shiftLeft _ _ hk]
  by_cases hd : k < n - m
  · rw [if_pos hd, byte_of_le _ (by omega)]
  · have hback : m - 1 - (n - 1 - k) = k - (n - m) := by omega
    rw [if_neg hd, byte_byteSwap v (by omega), byte_setWidth v (by omega), hback]

/-- A swap of the two halves, with the bytes of each half swapped. -/
theorem byteSwap_halves (v : BitVec (8 * (n + n))) :
    (byteSwap n ((v >>> (8 * n)).setWidth (8 * n))).setWidth (8 * (n + n)) |||
        (byteSwap n (v.setWidth (8 * n))).setWidth (8 * (n + n)) <<< (8 * n)
      = byteSwap (n + n) v := by
  apply eq_of_byte
  intro k hk
  rw [byte_or, byte_setWidth _ hk, byte_shiftLeft _ n hk, byte_setWidth _ (by omega),
    byte_byteSwap v hk]
  by_cases hlow : k < n
  · have hback : n + (n - 1 - k) = n + n - 1 - k := by omega
    rw [if_pos hlow, byte_byteSwap _ hlow, byte_setWidth _ (by omega), byte_ushiftRight, hback]
    exact BitVec.or_zero
  · have hback : n - 1 - (k - n) = n + n - 1 - k := by omega
    rw [if_neg hlow, byte_of_le _ (Nat.le_of_not_lt hlow), byte_byteSwap _ (by omega),
      byte_setWidth _ (by omega), hback]
    exact BitVec.zero_or

/-- The orders in which the bytes of a value can stand in storage. -/
inductive ByteOrder
  | little | big
  deriving DecidableEq, Repr

/-- A value as little-endian storage shows it when it was written in the given order. -/
def ByteOrder.view (order : ByteOrder) (v : BitVec (8 * n)) : BitVec (8 * n) :=
  match order with
  | .little => v
  | .big => byteSwap n v

/-- The bytes of a value in the given order. -/
def ByteOrder.encode (order : ByteOrder) (n : ℕ) (v : BitVec (8 * n)) : List (BitVec 8) :=
  (List.range n).map (byte (order.view v))

@[simp]
theorem ByteOrder.length_encode (order : ByteOrder) (v : BitVec (8 * n)) :
    (order.encode n v).length = n := by
  simp [encode]

/-! ## Storage that holds a sequence of bytes -/

/-- The bytes from `off` on begin with `bs`. -/
def Holds (p : Bytes) (off : ℕ) (bs : List (BitVec 8)) : Prop :=
  ∀ i (h : i < bs.length), p (off + i) = bs[i]

@[simp]
theorem holds_nil (p : Bytes) (off : ℕ) : Holds p off [] := by
  intro i h
  exact absurd h (Nat.not_lt_zero i)

@[simp]
theorem holds_cons (p : Bytes) (off : ℕ) (b : BitVec 8) (bs : List (BitVec 8)) :
    Holds p off (b :: bs) ↔ p off = b ∧ Holds p (off + 1) bs := by
  constructor
  · intro h
    refine ⟨h 0 (Nat.succ_pos _), fun i hi => ?_⟩
    have hnext := h (i + 1) (Nat.succ_lt_succ hi)
    rwa [show off + (i + 1) = off + 1 + i by omega] at hnext
  · rintro ⟨hb, h⟩ i hi
    cases i with
    | zero => exact hb
    | succ i =>
        have hnext := h i (Nat.lt_of_succ_lt_succ hi)
        rwa [show off + 1 + i = off + (i + 1) by omega] at hnext

theorem holds_append (p : Bytes) (off : ℕ) (as bs : List (BitVec 8)) :
    Holds p off (as ++ bs) ↔ Holds p off as ∧ Holds p (off + as.length) bs := by
  induction as generalizing off with
  | nil => simp
  | cons a as ih =>
      rw [List.cons_append, holds_cons, holds_cons, ih, List.length_cons, and_assoc,
        show off + 1 + as.length = off + (as.length + 1) by omega]

theorem holds_replicate (p : Bytes) (off count : ℕ) (b : BitVec 8) :
    Holds p off (List.replicate count b) ↔ ∀ i < count, p (off + i) = b := by
  simp [Holds]

/-- The storage that consists of a sequence, and zeros behind it. -/
def bytesOf (bs : List (BitVec 8)) : Bytes :=
  fun i => bs.getD i 0

theorem holds_bytesOf (bs : List (BitVec 8)) : Holds (bytesOf bs) 0 bs := by
  intro i h
  simp [bytesOf, h]

/-- Storage holds an encoded value exactly when the value is loaded from it. -/
theorem holds_encode (order : ByteOrder) (p : Bytes) (off : ℕ) (v : BitVec (8 * n)) :
    Holds p off (order.encode n v) ↔ load n p off = order.view v := by
  constructor
  · intro h
    apply eq_of_byte
    intro k hk
    rw [byte_load _ _ _ hk, h k (by simpa using hk)]
    simp [ByteOrder.encode]
  · intro h i hi
    rw [ByteOrder.length_encode] at hi
    rw [← byte_load n p off hi, h]
    simp [ByteOrder.encode]

end Basis
