import Yavm.Lc3.Execute

set_option autoImplicit false

/-! # The string traps

`PUTS` and `PUTSP` walk a raw pointer from `memory + R0` up to the first zero word. One round of
their common loop is `stringLoop_step`. `strings_printed` is what the walk prints on the two layouts
of a string. Nothing but a zero word ends it: the pointer is not a 16-bit address and does not wrap,
and it is not clamped as that of `readImageFile` is, so `stringsInside_iff` is as much as the walk
stays inside `memory`. -/

namespace Yavm.Lc3

open Basis

/-! ## One round -/

/-- A round with the pointer at index `a`. -/
theorem stringLoop_step (bytesOf : Word → List Byte) (m : Memory) {a : ℕ} (h : a < uint16Max) :
    stringLoop bytesOf m (uint16Max - a) =
      if m ⟨a, h⟩ = 0 then .ok []
      else
        (stringLoop bytesOf m (uint16Max - (a + 1))).map fun out => bytesOf (m ⟨a, h⟩) ++ out := by
  obtain ⟨left, hleft⟩ : ∃ left, uint16Max - a = left + 1 := ⟨uint16Max - (a + 1), by omega⟩
  have hstart : (⟨uint16Max - (left + 1),
      Nat.sub_lt (by decide) (Nat.succ_pos left)⟩ : Fin uint16Max) = ⟨a, h⟩ :=
    Fin.ext (by simp only; omega)
  have hnext : uint16Max - (a + 1) = left := by omega
  rw [hleft, hnext, stringLoop, hstart]

/-! ## What is printed -/

/-- The cells from index `a` on hold the words. -/
def StoredAt (m : Memory) : ℕ → List Word → Prop
  | _, [] => True
  | a, word :: words => (∃ h : a < uint16Max, m ⟨a, h⟩ = word) ∧ StoredAt m (a + 1) words

/-- The first cell holds the first word. -/
theorem StoredAt.headD {m : Memory} {a : ℕ} {words : List Word} (h : StoredAt m a (words ++ [0])) :
    ∃ hlt : a < uint16Max, m ⟨a, hlt⟩ = words.headD 0 := by
  cases words with
  | nil => exact h.1
  | cons word words => exact h.1

/-- On words that end in the first zero word, the loop prints what it makes of each word. -/
theorem stringLoop_eq_ok (bytesOf : Word → List Byte) {m : Memory} {a : ℕ} {words : List Word}
    (hwords : 0 ∉ words) (h : StoredAt m a (words ++ [0])) :
    stringLoop bytesOf m (uint16Max - a) = .ok (words.flatMap bytesOf) := by
  induction words generalizing a with
  | nil =>
      obtain ⟨⟨hlt, hzero⟩, -⟩ := h
      rw [stringLoop_step bytesOf m hlt, if_pos hzero]
      rfl
  | cons word words ih =>
      obtain ⟨⟨hlt, hword⟩, hrest⟩ := h
      have hne : m ⟨a, hlt⟩ ≠ 0 := fun hzero =>
        hwords (List.mem_cons.2 (Or.inl (hzero.symm.trans hword)))
      have htail := ih (fun hmem => hwords (List.mem_cons_of_mem word hmem)) hrest
      rw [stringLoop_step bytesOf m hlt, if_neg hne, htail, hword]
      rfl

/-- One byte per word. -/
def unpacked (str : List Byte) : List Word :=
  str.map fun b => b.setWidth 16

/-- Two bytes per word, the first in the low half. -/
def packed : List Byte → List Word
  | [] => []
  | [last] => [(0 : Byte) ++ last]
  | first :: second :: rest => (second ++ first) :: packed rest

theorem lowByte_low (hi lo : Byte) : lowByte (hi ++ lo) = lo :=
  BitVec.setWidth_append_eq_right

theorem lowByte_high (hi lo : Byte) : lowByte ((hi ++ lo) >>> 8) = hi := by
  apply BitVec.eq_of_getLsbD_eq
  intro i h
  simp only [lowByte, BitVec.getLsbD_setWidth, BitVec.getLsbD_ushiftRight, BitVec.getLsbD_append]
  simp [h]

theorem lowByte_and_mask (x : Word) : lowByte (x &&& 0xFF) = lowByte x := by
  have hmask := and_mask_eq_setWidth x 8
  rw [lowByte, show (0xFF : Word) = BitVec.ofNat 16 (2 ^ 8 - 1) from rfl, hmask]
  simp [lowByte]

/-- A word with a byte that is not zero in its low half is not zero. -/
theorem append_ne_zero {hi lo : Byte} (h : lo ≠ 0) : hi ++ lo ≠ (0 : Word) := by
  intro hzero
  have hlow := congrArg lowByte hzero
  rw [lowByte_low] at hlow
  exact h hlow

theorem putspBytes_append (hi lo : Byte) :
    putspBytes (hi ++ lo) = lo :: if hi ≠ 0 then [hi] else [] := by
  simp only [putspBytes]
  rw [lowByte_and_mask, lowByte_low, lowByte_high]

theorem zero_notMem_unpacked {str : List Byte} (h : 0 ∉ str) : 0 ∉ unpacked str := by
  intro hmem
  obtain ⟨b, hb, hzero⟩ := List.mem_map.1 hmem
  have hb0 : b = 0 := zeroExtend_inj.1 hzero
  exact h (hb0 ▸ hb)

theorem zero_notMem_packed {str : List Byte} (h : 0 ∉ str) : 0 ∉ packed str := by
  induction str using packed.induct with
  | case1 => simp [packed]
  | case2 last =>
      have hlast : last ≠ 0 := fun heq => h (by simp [heq])
      rw [packed, List.mem_singleton]
      exact (append_ne_zero hlast).symm
  | case3 first second rest ih =>
      have hfirst : first ≠ 0 := fun heq => h (by simp [heq])
      have hrest : 0 ∉ rest := fun hmem =>
        h (List.mem_cons_of_mem first (List.mem_cons_of_mem second hmem))
      rw [packed, List.mem_cons, not_or]
      exact ⟨(append_ne_zero hfirst).symm, ih hrest⟩

/-- `PUTS` prints the low byte of each word. -/
theorem flatMap_putsBytes (str : List Byte) : (unpacked str).flatMap putsBytes = str := by
  induction str with
  | nil => rfl
  | cons b str ih =>
      have hb : lowByte (b.setWidth 16) = b := by simp [lowByte]
      change putsBytes (b.setWidth 16) ++ (unpacked str).flatMap putsBytes = b :: str
      rw [ih, putsBytes, hb]
      rfl

/-- `PUTSP` prints both bytes of each word; the missing second byte of the last word is zero. -/
theorem flatMap_putspBytes {str : List Byte} (h : 0 ∉ str) :
    (packed str).flatMap putspBytes = str := by
  induction str using packed.induct with
  | case1 => rfl
  | case2 last =>
      rw [packed, List.flatMap_singleton, putspBytes_append]
      simp
  | case3 first second rest ih =>
      have hsecond : second ≠ 0 := fun heq => h (by simp [heq])
      have hrest : 0 ∉ rest := fun hmem =>
        h (List.mem_cons_of_mem first (List.mem_cons_of_mem second hmem))
      rw [packed, List.flatMap_cons, ih hrest, putspBytes_append, if_pos hsecond]
      rfl

theorem trapPuts_stored {str : List Byte} (hstr : 0 ∉ str) {s : State}
    (h : StoredAt s.memory (s.registers .r0).toNat (unpacked str ++ [0])) :
    trapPuts s = .ok (s.print str) := by
  have hloop := stringLoop_eq_ok putsBytes (zero_notMem_unpacked hstr) h
  rw [flatMap_putsBytes] at hloop
  rw [trapPuts, putsLoop, hloop]
  rfl

theorem trapPutsp_stored {str : List Byte} (hstr : 0 ∉ str) {s : State}
    (h : StoredAt s.memory (s.registers .r0).toNat (packed str ++ [0])) :
    trapPutsp s = .ok (s.print str) := by
  have hloop := stringLoop_eq_ok putspBytes (zero_notMem_packed hstr) h
  rw [flatMap_putspBytes hstr] at hloop
  rw [trapPutsp, putspLoop, hloop]
  rfl

theorem dispatch_trap {w : Word} {code : TrapCode} (h : trapOf w = some code) (s : State) :
    dispatch w s = trap w s ∧ TrapCode.decode w = some code := by
  by_cases hop : Op.decode w = .trap
  · rw [trapOf_eq hop] at h
    exact ⟨by rw [dispatch, hop], h⟩
  · rw [trapOf_of_ne hop] at h
    simp at h

/-- For every string without zero bytes, every state and every start address in `R0`: `PUTS` on the
    string stored one byte per word and `PUTSP` on the string packed two bytes per word, both
    followed by a zero word, print exactly the bytes of the string and change nothing else. -/
theorem strings_printed {str : List Byte} (hstr : 0 ∉ str) :
    (∀ w s, trapOf w = some .puts →
      StoredAt s.memory (s.registers .r0).toNat (unpacked str ++ [0]) →
      dispatch w s = .ok (s.print str)) ∧
    (∀ w s, trapOf w = some .putsp →
      StoredAt s.memory (s.registers .r0).toNat (packed str ++ [0]) →
      dispatch w s = .ok (s.print str)) := by
  constructor
  · intro w s hw hstored
    obtain ⟨hdispatch, hcode⟩ := dispatch_trap hw s
    simp only [hdispatch, trap, hcode, trapPuts_stored hstr hstored]
  · intro w s hw hstored
    obtain ⟨hdispatch, hcode⟩ := dispatch_trap hw s
    simp only [hdispatch, trap, hcode, trapPutsp_stored hstr hstored]

/-- The string `abc` at `0x3000`, in its two layouts. -/
theorem strings_printed_abc :
    ∃ s s' : State, dispatch 0xF022 s = .ok (s.print [0x61, 0x62, 0x63]) ∧
      dispatch 0xF024 s' = .ok (s'.print [0x61, 0x62, 0x63]) := by
  have hstr : 0 ∉ ([0x61, 0x62, 0x63] : List Byte) := by decide
  let s (words : ℕ → Word) : State := { initialState noInput with
    memory := fun i => words i, registers := fun _ => 0x3000 }
  refine ⟨s fun i => if i = 0x3000 then 0x61 else if i = 0x3001 then 0x62
      else if i = 0x3002 then 0x63 else 0,
    s fun i => if i = 0x3000 then 0x6261 else if i = 0x3001 then 0x63 else 0, ?_, ?_⟩
  · exact (strings_printed hstr).1 0xF022 _ rfl
      ⟨⟨by decide, rfl⟩, ⟨by decide, rfl⟩, ⟨by decide, rfl⟩, ⟨by decide, rfl⟩, trivial⟩
  · exact (strings_printed hstr).2 0xF024 _ rfl
      ⟨⟨by decide, rfl⟩, ⟨by decide, rfl⟩, ⟨by decide, rfl⟩, trivial⟩

/-! ## Where the loops end -/

/-- A loop ends in this round, or in a later one. -/
theorem stringLoop_ends_step (bytesOf : Word → List Byte) (m : Memory) {a : ℕ}
    (h : a < uint16Max) :
    (∃ out, stringLoop bytesOf m (uint16Max - a) = .ok out) ↔
      m ⟨a, h⟩ = 0 ∨ ∃ out, stringLoop bytesOf m (uint16Max - (a + 1)) = .ok out := by
  rw [stringLoop_step bytesOf m h]
  by_cases hzero : m ⟨a, h⟩ = 0
  · rw [if_pos hzero]
    exact iff_of_true ⟨[], rfl⟩ (Or.inl hzero)
  · rw [if_neg hzero, or_iff_right hzero]
    constructor
    · intro ⟨out, hout⟩
      obtain ⟨rest, hok, -⟩ := map_eq_ok.1 hout
      exact ⟨rest, hok⟩
    · intro ⟨rest, hok⟩
      exact ⟨_, map_eq_ok.2 ⟨rest, hok, rfl⟩⟩

/-- A zero word from index `a` on is at `a`, or behind it. -/
theorem exists_zero_step (m : Memory) {a : ℕ} (h : a < uint16Max) :
    (∃ j : Fin uint16Max, a ≤ j.val ∧ m j = 0) ↔
      m ⟨a, h⟩ = 0 ∨ ∃ j : Fin uint16Max, a + 1 ≤ j.val ∧ m j = 0 := by
  constructor
  · intro ⟨j, hj, hzero⟩
    rcases Nat.eq_or_lt_of_le hj with heq | hlt
    · obtain rfl : j = ⟨a, h⟩ := Fin.ext heq.symm
      exact Or.inl hzero
    · exact Or.inr ⟨j, hlt, hzero⟩
  · intro hzero
    rcases hzero with hzero | ⟨j, hj, hzero⟩
    · exact ⟨⟨a, h⟩, Nat.le_refl a, hzero⟩
    · exact ⟨j, Nat.le_of_succ_le hj, hzero⟩

/-- The loop ends exactly when there is a zero word to end it. -/
theorem stringLoop_ends_iff (bytesOf : Word → List Byte) (m : Memory) (a : ℕ) :
    (∃ out, stringLoop bytesOf m (uint16Max - a) = .ok out) ↔
      ∃ j : Fin uint16Max, a ≤ j.val ∧ m j = 0 := by
  induction hleft : uint16Max - a generalizing a with
  | zero =>
      -- the pointer is behind the array
      have hend : uint16Max ≤ a := Nat.le_of_sub_eq_zero hleft
      refine iff_of_false ?_ ?_
      · intro ⟨out, hout⟩
        exact absurd hout (by simp [stringLoop])
      · intro ⟨j, hj, _⟩
        exact absurd j.isLt (Nat.not_lt.2 (Nat.le_trans hend hj))
  | succ left ih =>
      have hlt : a < uint16Max := by omega
      have hnext : uint16Max - (a + 1) = left := by omega
      rw [← hleft, stringLoop_ends_step bytesOf m hlt, exists_zero_step m hlt, hnext,
        ih (a + 1) hnext]

/-- The loops of both traps end, and have read inside `memory` only. -/
def StringsInside (s : State) : Prop :=
  (∃ t, trapPuts s = .ok t) ∧ ∃ t, trapPutsp s = .ok t

/-- The string at `R0` ends inside `memory`. -/
def Terminated (s : State) : Prop :=
  ∃ j : Fin uint16Max, (s.registers .r0).toNat ≤ j.val ∧ s.memory j = 0

theorem trap_ends_iff (bytesOf : Word → List Byte) (s : State) :
    (∃ t, (stringLoop bytesOf s.memory (uint16Max - (s.registers .r0).toNat)).map s.print = .ok t) ↔
      Terminated s := by
  rw [Terminated, ← stringLoop_ends_iff bytesOf]
  constructor
  · intro h
    obtain ⟨t, ht⟩ := h
    obtain ⟨out, hout, -⟩ := map_eq_ok.1 ht
    exact ⟨out, hout⟩
  · intro h
    obtain ⟨out, hout⟩ := h
    exact ⟨_, map_eq_ok.2 ⟨out, hout, rfl⟩⟩

/-- For every memory and every `R0`: both loops end inside `memory` if and only if there is a zero
    word from `R0` on. -/
theorem stringsInside_iff (s : State) : StringsInside s ↔ Terminated s := by
  constructor
  · intro h
    exact (trap_ends_iff putsBytes s).1 h.1
  · intro h
    exact ⟨(trap_ends_iff putsBytes s).2 h, (trap_ends_iff putspBytes s).2 h⟩

/-- On a memory full of `a`s both loops run off its end. -/
theorem stringsInside_broken_by_full_memory :
    ∃ s : State, s.registers .r0 = 0x3000 ∧ ¬ StringsInside s := by
  refine ⟨{ initialState noInput with
    memory := fun _ => 0x61, registers := fun _ => 0x3000 }, rfl, ?_⟩
  intro h
  obtain ⟨j, -, hzero⟩ := (trap_ends_iff putsBytes _).1 h.1
  exact absurd (show (0x61 : Word) = 0 from hzero) (by decide)

end Yavm.Lc3
