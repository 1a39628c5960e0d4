import Yavm.Lc3.State

set_option autoImplicit false

/-! # Memory and device access (`memoryRead`, `memoryWrite`)

Four addresses are device registers: `memoryRead` answers them from the keyboard or with a constant,
and every other address from `memory`. `memoryWrite` always goes to `memory`.

Reading touches nothing but the input stream and the ghost record (`ReadOnly`); which part of the
state a read depends on is stated by `memoryRead_cell`, `memoryRead_device` and
`memoryRead_congr`. -/

namespace Yavm.Lc3

open Basis

/-- `getchar()`, with the call recorded. -/
def getchar (s : State) : Except Stop (Option Byte × State) :=
  match s.stdin.getchar with
  | none => .error .blocked
  | some (result, stdin) => .ok (result, { s with stdin := stdin }.record (.getchar result))

/-- `(uint16_t) getchar()`: the byte zero-extended, `EOF` as `-1`. -/
def charCode : Option Byte → Word
  | some b => b.setWidth 16
  | none => 0xFFFF

/-- `memoryRead(MR_KBSR)`: poll standard input with `select`. -/
def pollKeyboard (s : State) : Word × State :=
  (if s.stdin.select.1 then statusBit else 0, { s with stdin := s.stdin.select.2 })

/-- The body of `memoryRead`. -/
def readAt (address : Word) (s : State) : Except Stop (Word × State) :=
  if address = mrKbsr then
    .ok (pollKeyboard s)
  else if address = mrKbdr then
    -- the inner `memoryRead(MR_KBSR)` is no access of the guest program's, so it is not recorded
    let polled := pollKeyboard s
    if polled.1 ≠ 0 then
      (getchar polled.2).map fun (c, s) => (charCode c, s)
    else
      .ok (0, polled.2)
  else if address = mrDsr then
    .ok (statusBit, s)
  else if address = mrDdr then
    .ok (0, s)
  else if h : address.toNat < uint16Max then
    .ok (s.memory ⟨address.toNat, h⟩, s)
  else
    .error (.index address.toNat)

/-- `memoryRead(address)`, with the call recorded. -/
def memoryRead (address : Word) (s : State) : Except Stop (Word × State) :=
  (readAt address s).map fun (value, s) => (value, s.record (.read address value))

/-- `memoryWrite(address, value)`, with the call recorded. -/
def memoryWrite (address value : Word) (s : State) : Except Stop State :=
  if h : address.toNat < uint16Max then
    .ok ({ s with memory := Function.update s.memory ⟨address.toNat, h⟩ value }.record
      (.write address value))
  else
    .error (.index address.toNat)

/-! ## What a read leaves alone -/

/-- `t` is `s` after some reads: only the input stream moved, and the ghost record grew. -/
structure ReadOnly (s t : State) : Prop where
  memory : t.memory = s.memory
  registers : t.registers = s.registers
  running : t.running = s.running
  stdout : t.stdout = s.stdout
  events : ∃ new, t.events = s.events ++ new

theorem ReadOnly.refl (s : State) : ReadOnly s s :=
  ⟨rfl, rfl, rfl, rfl, [], by simp⟩

theorem ReadOnly.trans {s t u : State} (h₁ : ReadOnly s t) (h₂ : ReadOnly t u) : ReadOnly s u := by
  obtain ⟨new₁, he₁⟩ := h₁.events
  obtain ⟨new₂, he₂⟩ := h₂.events
  refine ⟨h₂.memory.trans h₁.memory, h₂.registers.trans h₁.registers, h₂.running.trans h₁.running,
    h₂.stdout.trans h₁.stdout, new₁ ++ new₂, ?_⟩
  rw [he₂, he₁, List.append_assoc]

theorem getchar_eq_ok {s t : State} {c : Option Byte} :
    getchar s = .ok (c, t) ↔
      ∃ stdin, s.stdin.getchar = some (c, stdin) ∧
        t = { s with stdin := stdin }.record (.getchar c) := by
  unfold getchar
  split
  · next h => simp [h]
  · next d stdin h =>
      simp only [h, Except.ok.injEq, Prod.mk.injEq, Option.some.injEq]
      constructor
      · rintro ⟨rfl, rfl⟩
        exact ⟨stdin, ⟨rfl, rfl⟩, rfl⟩
      · rintro ⟨_, ⟨rfl, rfl⟩, rfl⟩
        exact ⟨rfl, rfl⟩

/-- What has been printed makes no difference to `getchar`. -/
theorem getchar_print (s : State) (out : List Byte) :
    getchar (s.print out) = (getchar s).map fun (c, t) => (c, t.print out) := by
  simp only [getchar, State.print]
  cases s.stdin.getchar <;> rfl

theorem getchar_readOnly {s t : State} {c : Option Byte} (h : getchar s = .ok (c, t)) :
    ReadOnly s t := by
  obtain ⟨stdin, _, rfl⟩ := getchar_eq_ok.1 h
  exact ⟨rfl, rfl, rfl, rfl, [.getchar c], rfl⟩

theorem pollKeyboard_readOnly (s : State) : ReadOnly s (pollKeyboard s).2 :=
  ⟨rfl, rfl, rfl, rfl, [], by simp [pollKeyboard]⟩

theorem readAt_readOnly {a v : Word} {s t : State} (h : readAt a s = .ok (v, t)) :
    ReadOnly s t := by
  have hpoll := pollKeyboard_readOnly s
  unfold readAt at h
  split_ifs at h
  · simp only [Except.ok.injEq] at h
    rwa [h] at hpoll
  · dsimp only at h
    split_ifs at h
    · obtain ⟨⟨c, u⟩, hu, heq⟩ := map_eq_ok.1 h
      simp only [Prod.mk.injEq] at heq
      exact heq.2 ▸ hpoll.trans (getchar_readOnly hu)
    · simp only [Except.ok.injEq, Prod.mk.injEq] at h
      exact h.2 ▸ hpoll
  all_goals
    simp only [Except.ok.injEq, Prod.mk.injEq] at h
    exact h.2 ▸ ReadOnly.refl s

theorem memoryRead_eq_ok {a v : Word} {s t : State} :
    memoryRead a s = .ok (v, t) ↔ ∃ u, readAt a s = .ok (v, u) ∧ t = u.record (.read a v) := by
  unfold memoryRead
  rw [map_eq_ok]
  constructor
  · intro h
    obtain ⟨⟨v', u⟩, hu, heq⟩ := h
    simp only [Prod.mk.injEq] at heq
    obtain ⟨rfl, rfl⟩ := heq
    exact ⟨u, hu, rfl⟩
  · intro h
    obtain ⟨u, hu, rfl⟩ := h
    exact ⟨(v, u), hu, rfl⟩

theorem record_readOnly (s : State) (e : Event) : ReadOnly s (s.record e) :=
  ⟨rfl, rfl, rfl, rfl, [e], rfl⟩

theorem memoryRead_readOnly {a v : Word} {s t : State} (h : memoryRead a s = .ok (v, t)) :
    ReadOnly s t := by
  obtain ⟨u, hu, rfl⟩ := memoryRead_eq_ok.1 h
  exact (readAt_readOnly hu).trans (record_readOnly u _)

/-! ## Ordinary cells -/

/-- A read of an ordinary address returns its cell, and reads nothing else. -/
theorem memoryRead_cell {a : Word} (s : State) (hdev : ¬ IsDevice a) (h : a.toNat < uint16Max) :
    memoryRead a s
      = .ok (s.memory ⟨a.toNat, h⟩, s.record (.read a (s.memory ⟨a.toNat, h⟩))) := by
  simp only [IsDevice, not_or] at hdev
  obtain ⟨h₁, h₂, h₃, h₄⟩ := hdev
  simp only [memoryRead, readAt, if_neg h₁, if_neg h₂, if_neg h₃, if_neg h₄, dif_pos h, Except.map]

theorem not_device_of_toNat {a : Word} (h : ¬ a.toNat < uint16Max) : ¬ IsDevice a := by
  rintro (rfl | rfl | rfl | rfl) <;> exact h (by decide)

/-- The only address outside the array is `0xFFFF`. -/
theorem lt_uint16Max_iff {a : Word} : a.toNat < uint16Max ↔ a ≠ 0xFFFF := by
  constructor
  · rintro h rfl
    exact absurd h (by decide)
  · intro h
    have hlt := a.isLt
    have hne : a.toNat ≠ 65535 := fun heq => h (BitVec.eq_of_toNat_eq heq)
    change a.toNat < 65535
    omega

/-- Reading `0xFFFF` forms an index outside the array. -/
theorem memoryRead_top {a : Word} (s : State) (h : ¬ a.toNat < uint16Max) :
    memoryRead a s = .error (.index a.toNat) := by
  have hdev := not_device_of_toNat h
  simp only [IsDevice, not_or] at hdev
  obtain ⟨h₁, h₂, h₃, h₄⟩ := hdev
  simp only [memoryRead, readAt, if_neg h₁, if_neg h₂, if_neg h₃, if_neg h₄, dif_neg h, Except.map]

/-- A read of a device register succeeds: `getchar` is called only when `select` answered. -/
theorem memoryRead_device_ok {a : Word} (s : State) (h : IsDevice a) :
    ∃ v t, memoryRead a s = .ok (v, t) := by
  suffices hread : ∃ p, readAt a s = .ok p by
    obtain ⟨⟨v, u⟩, hu⟩ := hread
    exact ⟨v, _, memoryRead_eq_ok.2 ⟨u, hu, rfl⟩⟩
  unfold readAt
  rcases h with rfl | rfl | rfl | rfl
  · exact ⟨_, rfl⟩
  · rw [if_neg (by decide), if_pos rfl]
    by_cases hr : s.stdin.ready = true
    -- `getchar` does not wait after a poll that answered
    · have hget := Input.getchar_of_ready hr
      obtain ⟨⟨c, stdin⟩, hc⟩ := Option.ne_none_iff_exists'.1 hget
      simp [pollKeyboard, hr, getchar, hc, statusBit, Except.map]
    · simp [pollKeyboard, hr]
  · exact ⟨_, rfl⟩
  · exact ⟨_, rfl⟩

/-- `memoryRead` fails only by forming the index `0xFFFF`. -/
theorem memoryRead_eq_error {a : Word} {s : State} {e : Stop} :
    memoryRead a s = .error e ↔ a = 0xFFFF ∧ e = .index 65535 := by
  constructor
  · intro h
    by_cases hdev : IsDevice a
    · obtain ⟨v, t, hok⟩ := memoryRead_device_ok s hdev
      simp [hok] at h
    · by_cases hlt : a.toNat < uint16Max
      · simp [memoryRead_cell s hdev hlt] at h
      · have htop : a = 0xFFFF := not_not.1 (fun hne => hlt (lt_uint16Max_iff.2 hne))
        subst htop
        rw [memoryRead_top s hlt] at h
        exact ⟨rfl, (Except.error.inj h).symm⟩
  · rintro ⟨rfl, rfl⟩
    exact memoryRead_top s (by decide)

theorem ne_top_of_memoryRead {a : Word} {s : State} {p : Word × State}
    (h : memoryRead a s = .ok p) : a ≠ 0xFFFF := by
  intro htop
  rw [memoryRead_eq_error.2 ⟨htop, rfl⟩] at h
  simp at h

theorem memoryRead_total {a : Word} (s : State) (h : a ≠ 0xFFFF) :
    ∃ v t, memoryRead a s = .ok (v, t) := by
  cases hread : memoryRead a s with
  | error e => exact absurd (memoryRead_eq_error.1 hread).1 h
  | ok p => exact ⟨p.1, p.2, rfl⟩

/-- A read of a device register does not look at `memory`. -/
theorem memoryRead_device {a : Word} (s : State) (m : Memory) (h : IsDevice a) :
    memoryRead a { s with memory := m }
      = (memoryRead a s).map fun (v, t) => (v, { t with memory := m }) := by
  rcases h with rfl | rfl | rfl | rfl
  · rfl
  · simp only [memoryRead, readAt, if_neg (show mrKbdr ≠ mrKbsr by decide), if_true]
    by_cases hr : s.stdin.ready = true
    · simp only [pollKeyboard, Input.select_fst, Input.select_snd, hr, if_true,
        if_pos (show statusBit ≠ 0 by decide), getchar]
      cases s.stdin.receive.getchar <;> rfl
    · simp only [pollKeyboard, Input.select_fst, hr, ne_eq]
      rfl
  · rfl
  · rfl

/-- What `getchar` returns depends on standard input only. -/
theorem getchar_congr {c : Option Byte} {s s' t : State} (hin : s'.stdin = s.stdin)
    (h : getchar s = .ok (c, t)) : ∃ t', getchar s' = .ok (c, t') ∧ t'.stdin = t.stdin := by
  obtain ⟨stdin, hget, rfl⟩ := getchar_eq_ok.1 h
  exact ⟨_, getchar_eq_ok.2 ⟨stdin, hin ▸ hget, rfl⟩, rfl⟩

theorem readAt_device_congr {a v : Word} {s s' t : State} (hdev : IsDevice a)
    (hin : s'.stdin = s.stdin) (h : readAt a s = .ok (v, t)) :
    ∃ t', readAt a s' = .ok (v, t') ∧ t'.stdin = t.stdin := by
  have hpoll : (pollKeyboard s').1 = (pollKeyboard s).1 := by rw [pollKeyboard, hin]; rfl
  have hrest : (pollKeyboard s').2.stdin = (pollKeyboard s).2.stdin := by
    rw [pollKeyboard, hin]
    rfl
  rcases hdev with rfl | rfl | rfl | rfl
  · simp only [readAt, if_true, Except.ok.injEq] at h ⊢
    rw [h] at hpoll hrest
    exact ⟨(pollKeyboard s').2, Prod.ext hpoll rfl, hrest⟩
  · simp only [readAt, if_neg (show mrKbdr ≠ mrKbsr by decide), if_true, hpoll] at h ⊢
    split at h
    · next hready =>
        obtain ⟨⟨c, u⟩, hget, heq⟩ := map_eq_ok.1 h
        obtain ⟨rfl, rfl⟩ := Prod.mk.inj heq
        obtain ⟨u', hget', hstdin⟩ := getchar_congr hrest hget
        rw [if_pos hready, hget']
        exact ⟨u', rfl, hstdin⟩
    · next hready =>
        obtain ⟨rfl, rfl⟩ := Prod.mk.inj (Except.ok.inj h)
        rw [if_neg hready]
        exact ⟨_, rfl, hrest⟩
  · obtain ⟨rfl, rfl⟩ := Prod.mk.inj (Except.ok.inj h)
    exact ⟨s', rfl, hin⟩
  · obtain ⟨rfl, rfl⟩ := Prod.mk.inj (Except.ok.inj h)
    exact ⟨s', rfl, hin⟩

/-- A read depends on `memory` and standard input, and on nothing else. -/
theorem memoryRead_congr {a v : Word} {s s' t : State} (hmem : s'.memory = s.memory)
    (hin : s'.stdin = s.stdin) (h : memoryRead a s = .ok (v, t)) :
    ∃ t', memoryRead a s' = .ok (v, t') ∧ t'.memory = t.memory ∧ t'.stdin = t.stdin := by
  by_cases hdev : IsDevice a
  · obtain ⟨u, hu, rfl⟩ := memoryRead_eq_ok.1 h
    obtain ⟨u', hu', hstdin⟩ := readAt_device_congr hdev hin hu
    have hmem' : u'.memory = u.memory := by
      rw [(readAt_readOnly hu').memory, (readAt_readOnly hu).memory, hmem]
    exact ⟨_, memoryRead_eq_ok.2 ⟨u', hu', rfl⟩, hmem', hstdin⟩
  · have hlt : a.toNat < uint16Max := lt_uint16Max_iff.2 (ne_top_of_memoryRead h)
    have hread := memoryRead_cell s' hdev hlt
    rw [hmem] at hread
    obtain ⟨rfl, rfl⟩ := Prod.mk.inj (Except.ok.inj ((memoryRead_cell s hdev hlt).symm.trans h))
    exact ⟨_, hread, hmem, hin⟩

/-! ## Stores -/

theorem memoryWrite_eq_ok {a v : Word} {s t : State} :
    memoryWrite a v s = .ok t ↔ ∃ h : a.toNat < uint16Max,
      t = { s with memory := Function.update s.memory ⟨a.toNat, h⟩ v }.record (.write a v) := by
  unfold memoryWrite
  split
  · next h =>
      simp only [Except.ok.injEq]
      exact ⟨fun ht => ⟨h, ht.symm⟩, fun ⟨_, ht⟩ => ht.symm⟩
  · next h =>
      constructor
      · intro ht
        simp at ht
      · rintro ⟨h', _⟩
        exact absurd h' h

theorem memoryWrite_eq_error {a v : Word} {s : State} {e : Stop} :
    memoryWrite a v s = .error e ↔ a = 0xFFFF ∧ e = .index 65535 := by
  unfold memoryWrite
  split
  · next h =>
      constructor
      · intro he
        simp at he
      · rintro ⟨rfl, _⟩
        exact absurd h (by decide)
  · next h =>
      have htop : a = 0xFFFF := not_not.1 (fun hne => h (lt_uint16Max_iff.2 hne))
      subst htop
      constructor
      · intro he
        exact ⟨rfl, (Except.error.inj he).symm⟩
      · rintro ⟨_, rfl⟩
        rfl

end Yavm.Lc3
