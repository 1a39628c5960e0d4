import Yavm.Elf.Parse

set_option autoImplicit false

/-! # What the parsing functions compute

The reader assembles every number big-endian, one byte shifted in after the other (`shiftIn_or`),
and swaps it afterwards. Each parsing function gets one equation here: on a member that is still
zero it writes one value that is loaded from the buffer. Two of the equations are not what the
format asks: `parse32_eq_set`, where the last byte is byte 1 of the buffer (`wordOver_zero`), and
`storeSwapped_32`, where a number of class 32 ends up in the high half of its member. -/

namespace Yavm.Elf

open Basis

/-! ## Byte order -/

theorem swap16_eq (v : BitVec 16) : swap16 v = byteSwap 2 v := by
  refine eq_of_byte (n := 2) fun k hk => ?_
  have hleft : byte (v <<< 8) k = if k < 1 then 0 else byte v (k - 1) :=
    byte_shiftLeft (n := 2) v 1 hk
  have hright : byte (v >>> 8) k = byte v (1 + k) := byte_ushiftRight v 1 k
  rw [byte_byteSwap (n := 2) v hk, swap16, byte_or, hleft, hright]
  by_cases hlow : k < 1
  · have hk0 : k = 0 := Nat.lt_one_iff.1 hlow
    rw [if_pos hlow, hk0]
    exact BitVec.or_zero
  · have hk1 : k = 1 := by omega
    have htop : byte v 2 = 0 := byte_of_le (m := 2) v (Nat.le_refl 2)
    rw [if_neg hlow, hk1, htop]
    exact BitVec.zero_or

theorem swap32_eq (v : BitVec 32) : swap32 v = byteSwap 4 v := by
  rw [swap32, swap16_eq, swap16_eq]
  exact byteSwap_halves (n := 2) v

theorem swap64_eq (v : BitVec 64) : swap64 v = byteSwap 8 v := by
  rw [swap64, swap32_eq, swap32_eq]
  exact byteSwap_halves (n := 4) v

theorem swap16_reverses : ReversesBytes 2 swap16 := by
  rw [show swap16 = byteSwap 2 from funext swap16_eq]
  exact reversesBytes_byteSwap 2

theorem swap32_reverses : ReversesBytes 4 swap32 := by
  rw [show swap32 = byteSwap 4 from funext swap32_eq]
  exact reversesBytes_byteSwap 4

theorem swap64_reverses : ReversesBytes 8 swap64 := by
  rw [show swap64 = byteSwap 8 from funext swap64_eq]
  exact reversesBytes_byteSwap 8

/-! ## Shifting bytes in -/

/-- Byte `count - k` of the loop ends up as byte `k` of the value. -/
theorem getLsbD_shiftIn {w : ℕ} (ptr : Bytes) (currIdx count : ℕ) (value : BitVec w) {i : ℕ}
    (hi : i < w) :
    (shiftIn ptr currIdx count value).getLsbD i = ((value <<< (8 * count)).getLsbD i ||
      (decide (8 ≤ i ∧ i < 8 * (count + 1)) &&
        (ptr (currIdx + count - i / 8)).getLsbD (i % 8))) := by
  induction count generalizing currIdx value with
  | zero =>
      have hnone : ¬ (8 ≤ i ∧ i < 8 * (0 + 1)) := by omega
      simp [shiftIn, hnone]
  | succ count ih =>
      have hidx : currIdx + 1 + count = currIdx + (count + 1) := by omega
      rw [shiftIn, ih, ← BitVec.shiftLeft_add, Nat.add_comm 8, ← Nat.mul_succ, hidx]
      simp only [BitVec.getLsbD_shiftLeft, BitVec.getLsbD_or, BitVec.getLsbD_setWidth]
      -- a byte of a later round, the byte of this round, or a byte of the value before them
      by_cases hlater : i < 8 * (count + 1)
      · have hthis : i < 8 * (count + 1 + 1) := by omega
        simp [hlater, hthis]
      · by_cases hthis : i < 8 * (count + 1 + 1)
        · have hdiv : currIdx + (count + 1) - i / 8 = currIdx := by omega
          have hmod : i - 8 * (count + 1) = i % 8 := by omega
          have hlt : i % 8 < w := by omega
          have hlow : 8 ≤ i := by omega
          simp [hlater, hthis, hi, hdiv, hmod, hlt, hlow]
        · have hout : (ptr currIdx).getLsbD (i - 8 * (count + 1)) = false :=
            BitVec.getLsbD_of_ge _ _ (by omega)
          simp [hlater, hthis, hout]

/-- A loop of `count` rounds on a zero, with one more byte in the low end, reads big-endian. -/
theorem shiftIn_or (ptr : Bytes) (currIdx count : ℕ) :
    shiftIn ptr currIdx count (0 : BitVec (8 * (count + 1))) |||
        (ptr (currIdx + count)).setWidth (8 * (count + 1))
      = byteSwap (count + 1) (load (count + 1) ptr currIdx) := by
  apply BitVec.eq_of_getLsbD_eq
  intro i hi
  rw [BitVec.getLsbD_or, getLsbD_shiftIn _ _ _ _ hi, getLsbD_byteSwap _ hi,
    getLsbD_load _ _ _ (by omega), BitVec.getLsbD_setWidth]
  have hdiv : (8 * (count + 1 - 1 - i / 8) + i % 8) / 8 = count - i / 8 := by omega
  have hmod : (8 * (count + 1 - 1 - i / 8) + i % 8) % 8 = i % 8 := by omega
  rw [hdiv, hmod]
  by_cases hlow : i < 8
  · have h0 : i / 8 = 0 := by omega
    have h1 : i % 8 = i := by omega
    have h2 : ¬ 8 ≤ i := by omega
    simp [h0, h1, h2, hi]
  · have h2 : 8 ≤ i := by omega
    have h4 : currIdx + count - i / 8 = currIdx + (count - i / 8) := by omega
    simp [h2, hi, h4]

theorem shiftIn_congr {w : ℕ} {ptr ptr' : Bytes} {currIdx count : ℕ} (value : BitVec w)
    (h : ∀ i < count, ptr (currIdx + i) = ptr' (currIdx + i)) :
    shiftIn ptr currIdx count value = shiftIn ptr' currIdx count value := by
  induction count generalizing currIdx value with
  | zero => rfl
  | succ count ih =>
      have hfirst : ptr currIdx = ptr' currIdx := h 0 (Nat.succ_pos count)
      rw [shiftIn, shiftIn, hfirst]
      apply ih
      intro i hi
      have hnext := h (i + 1) (Nat.succ_lt_succ hi)
      rwa [← Nat.add_assoc, Nat.add_right_comm] at hnext

/-- Of a value that is there before the loop, the rounds leave the low byte, in the byte that comes
    in first. -/
theorem shiftIn_low (ptr : Bytes) (currIdx count : ℕ) (value : BitVec (8 * (count + 2))) :
    shiftIn ptr currIdx (count + 1) value
      = shiftIn (Function.update ptr currIdx (byte value 0 ||| ptr currIdx)) currIdx (count + 1)
          0 := by
  apply BitVec.eq_of_getLsbD_eq
  intro i hi
  rw [getLsbD_shiftIn _ _ _ _ hi, getLsbD_shiftIn _ _ _ _ hi]
  by_cases hlater : i < 8 * (count + 1)
  · have hother : currIdx + (count + 1) - i / 8 ≠ currIdx := by omega
    rw [Function.update_of_ne hother]
    simp [hlater]
  · have hidx : currIdx + (count + 1) - i / 8 = currIdx := by omega
    have hmod : i - 8 * (count + 1) = i % 8 := by omega
    have hin : 8 ≤ i ∧ i < 8 * (count + 1 + 1) := by omega
    have hlow : (byte value 0).getLsbD (i % 8) = value.getLsbD (i % 8) := by
      rw [getLsbD_byte value 0 (Nat.mod_lt i (by decide)), Nat.mul_zero, Nat.zero_add]
    have hzero : (0 : BitVec (8 * (count + 2))).getLsbD (i % 8) = false := BitVec.getLsbD_zero
    rw [hidx, Function.update_self, BitVec.getLsbD_or, hlow]
    simp only [BitVec.getLsbD_shiftLeft, hi, hlater, hmod, hin, hzero, decide_true, decide_false,
      and_self, Bool.not_false, Bool.true_and, Bool.false_or]

/-! ## Members -/

theorem parse16_eq (ptr : Bytes) {member : Field 2} (currIdx : ℕ) {r : Record}
    (h : member.get r = 0) :
    parse16 ptr member currIdx r = member.set (load 2 ptr currIdx) r := by
  have hvalue : (((0 : BitVec 16) ||| (ptr currIdx).setWidth 16) <<< 8) |||
      (ptr (currIdx + 1)).setWidth 16 = byteSwap 2 (load 2 ptr currIdx) :=
    shiftIn_or ptr currIdx 1
  simp only [parse16, h]
  rw [hvalue, swap16_eq, byteSwap_byteSwap]

/-- The word that three rounds and the byte at index 1 make, over what is in the member before: the
    low byte of that is still in the first byte of the word. -/
def wordOver (ptr : Bytes) (off : ℕ) (old : BitVec 32) : BitVec 32 :=
  load 4 (Function.update (Function.update ptr (off + 3) (ptr 1)) off (byte old 0 ||| ptr off)) off

theorem parse32_eq_set (ptr : Bytes) (member : Field 4) {currIdx : ℕ} (r : Record)
    (hidx : currIdx + 3 < 65536) :
    parse32 ptr member currIdx r = member.set (wordOver ptr currIdx (member.get r)) r := by
  have hrounds : rounds currIdx 3 = 3 := by
    rw [rounds, Nat.mod_eq_of_lt hidx, Nat.add_sub_cancel_left]
  obtain ⟨p, hp⟩ : ∃ p, p = Function.update (Function.update ptr (currIdx + 3) (ptr 1)) currIdx
    (byte (member.get r) 0 ||| ptr currIdx) := ⟨_, rfl⟩
  have hloop : shiftIn ptr currIdx 3 (member.get r) = shiftIn p currIdx 3 (0 : BitVec 32) := by
    rw [shiftIn_low ptr currIdx 2 (member.get r), hp]
    apply shiftIn_congr
    intro i hi
    have hlast : currIdx + i ≠ currIdx + 3 := by omega
    by_cases hfirst : currIdx + i = currIdx
    · rw [hfirst, Function.update_self, Function.update_self]
    · rw [Function.update_of_ne hfirst, Function.update_of_ne hfirst, Function.update_of_ne hlast]
  have hlast : p (currIdx + 3) = ptr 1 := by
    have hne : currIdx + 3 ≠ currIdx := by omega
    rw [hp, Function.update_of_ne hne, Function.update_self]
  have hvalue := shiftIn_or p currIdx 3
  rw [hlast] at hvalue
  simp only [parse32, hrounds, hloop]
  rw [hvalue, swap32_eq, byteSwap_byteSwap, hp]
  rfl

/-- Over a zero nothing of the old value is left. -/
theorem wordOver_zero (ptr : Bytes) (off : ℕ) :
    wordOver ptr off 0 = load 4 (Function.update ptr (off + 3) (ptr 1)) off := by
  have hne : off ≠ off + 3 := by omega
  have hlow : byte (0 : BitVec 32) 0 ||| ptr off = Function.update ptr (off + 3) (ptr 1) off := by
    rw [Function.update_of_ne hne]
    exact BitVec.zero_or
  rw [wordOver, hlow, Function.update_eq_self]

theorem storeData_64 (ptr : Bytes) (r : Record) (off off32 : ℕ) {off64 : ℕ}
    (hoff : off64 + 7 < 65536) :
    storeData ptr r off off32 off64 1 64 = store 8 r off (byteSwap 8 (load 8 ptr off64)) := by
  have hrounds : rounds off64 7 = 7 := by
    rw [rounds, Nat.mod_eq_of_lt hoff, Nat.add_sub_cancel_left]
  simp only [storeData, hrounds, if_pos (show (1 : Byte) ≠ 0 by decide),
    if_neg (show (64 : Byte) ≠ 32 by decide)]
  exact congrArg _ (shiftIn_or ptr off64 7)

theorem storeData_32 (ptr : Bytes) (r : Record) (off : ℕ) {off32 : ℕ} (off64 : ℕ)
    (hoff : off32 + 3 < 65536) :
    storeData ptr r off off32 off64 1 32 = store 4 r off (byteSwap 4 (load 4 ptr off32)) := by
  have hrounds : rounds off32 3 = 3 := by
    rw [rounds, Nat.mod_eq_of_lt hoff, Nat.add_sub_cancel_left]
  simp only [storeData, hrounds, if_pos (show (1 : Byte) ≠ 0 by decide), if_true]
  exact congrArg _ (shiftIn_or ptr off32 3)

theorem storeSwapped_64 (ptr : Bytes) (member : Field 8) (off32 : ℕ) {off64 : ℕ} (r : Record)
    (hoff : off64 + 7 < 65536) :
    storeSwapped ptr member off32 off64 64 r = member.set (load 8 ptr off64) r := by
  simp only [storeSwapped]
  rw [storeData_64 ptr r _ _ hoff, swap64_eq, Field.get, load_store_self,
    byteSwap_byteSwap]
  exact store_store r member.offset _ _ (Nat.le_refl 8)

/-- The member holds the little-endian number that the buffer has at `off`, and every byte outside
    the member is the one it was. -/
structure Decoded (ptr : Bytes) (off : ℕ) (member : Field 8) (r r' : Record) : Prop where
  value : (member.get r').toNat = ∑ i ∈ Finset.range 8, (ptr (off + i)).toNat * 256 ^ i
  frame : ∀ k, k < member.offset ∨ member.offset + 8 ≤ k → r' k = r k

/-- For every buffer, every offset at which the 16-bit index does not wrap and every record:
    `storeData` for class 64 and the `swap64` that follows it decode the member. The swaps are byte
    reversals, and so they are involutions. -/
theorem field64_decoded (ptr : Bytes) (member : Field 8) (off32 off : ℕ) (r : Record)
    (hoff : off + 7 < 65536) :
    Decoded ptr off member r (storeSwapped ptr member off32 off 64 r) ∧
      (ReversesBytes 2 swap16 ∧ ReversesBytes 4 swap32 ∧ ReversesBytes 8 swap64) ∧
      Function.Involutive swap16 ∧ Function.Involutive swap32 ∧ Function.Involutive swap64 := by
  refine ⟨?_, ⟨swap16_reverses, swap32_reverses, swap64_reverses⟩, swap16_reverses.involutive,
    swap32_reverses.involutive, swap64_reverses.involutive⟩
  rw [storeSwapped_64 ptr member off32 r hoff]
  constructor
  · rw [Field.get_set_self, toNat_load]
  · intro k hk
    have hout : ¬ (member.offset ≤ k ∧ k < member.offset + 8) := by omega
    rw [Field.set, store, if_neg hout]

/-- The file offset of a segment, bytes `08 09 … 0F`, read into a record that is not initialised. -/
theorem field64_decoded_fileOffset :
    (ProgramHeader.phFileImageSegmentOffset64.get
      (storeSwapped (fun i => BitVec.ofNat 8 i) ProgramHeader.phFileImageSegmentOffset64
        pFileImageOffset32Bit pFileImageOffset64Bit 64 fun _ => 0xAA)).toNat
      = 0x0F0E0D0C0B0A0908 := by
  have h := (field64_decoded (fun i => BitVec.ofNat 8 i) ProgramHeader.phFileImageSegmentOffset64
    pFileImageOffset32Bit pFileImageOffset64Bit (fun _ => 0xAA) (by decide)).1.value
  rw [h]
  decide

/-- The four bytes of a class 32 number go to the low half of the member, and the swap that follows
    is that of the whole member. -/
theorem storeSwapped_32 (ptr : Bytes) (member : Field 8) {off32 : ℕ} (off64 : ℕ) {r : Record}
    (hoff : off32 + 3 < 65536) (h : member.get r = 0) :
    storeSwapped ptr member off32 off64 32 r
      = member.set ((load 4 ptr off32).setWidth 64 <<< 32) r := by
  simp only [storeSwapped]
  have hlow : load 8 (store 4 r member.offset (byteSwap 4 (load 4 ptr off32))) member.offset
      = (byteSwap 4 (load 4 ptr off32)).setWidth 64 := load_store_low _ h
  rw [storeData_32 ptr r _ _ hoff, swap64_eq, Field.get, hlow]
  have hswap : byteSwap 8 ((byteSwap 4 (load 4 ptr off32)).setWidth 64)
      = (load 4 ptr off32).setWidth 64 <<< 32 := byteSwap_setWidth _ (by decide)
  rw [hswap]
  exact store_store r member.offset _ _ (by decide)

end Yavm.Elf
