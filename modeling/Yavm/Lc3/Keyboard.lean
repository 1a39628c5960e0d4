import Yavm.Lc3.Image
import Yavm.Lc3.Reads

set_option autoImplicit false

/-! # Polling the keyboard

`MR_KBSR` answers for the kernel queue and `getchar` reads through the stdio buffer, so a burst of
keys that the first `getchar` moves into the buffer is invisible to the poll, and to `MR_KBDR`,
which polls first. `keyboardLaw_iff` says for every interleaving of key arrivals and guest reads
which reads agree with what has been typed. -/

namespace Yavm.Lc3

open Basis

/-- A key arrives, or the guest program reads the keyboard. -/
inductive KeyEvent
  | key (b : Byte)
  | readKbsr
  | readKbdr
  | getc
  deriving DecidableEq, Repr

/-- The byte an event types. -/
def KeyEvent.typed : KeyEvent → List Byte
  | .key b => [b]
  | _ => []

/-- What an event does to the machine. -/
def KeyEvent.perform : KeyEvent → State → Except Stop State
  | .key b, s => .ok { s with stdin := s.stdin.arrive b }
  | .readKbsr, s => (memoryRead mrKbsr s).map Prod.snd
  | .readKbdr, s => (memoryRead mrKbdr s).map Prod.snd
  | .getc, s => trapGetc s

/-- A machine, the events still to come, and the bytes typed and delivered so far. -/
structure Session where
  vm : State
  script : List KeyEvent
  typed : List Byte
  delivered : List Byte

namespace Session

/-- The next event of the script. -/
def step (p : Session) : Except Stop Session :=
  match p.script with
  | [] => .error .halted
  | event :: script => (event.perform p.vm).map fun vm =>
      { vm, script, typed := p.typed ++ event.typed,
        delivered := p.delivered ++ consumed (newEvents p.vm vm) }

/-- Before the first key. -/
def start (vm : State) (script : List KeyEvent) : Session :=
  { vm, script, typed := [], delivered := [] }

/-- The bytes typed and not yet delivered, oldest first. -/
def undelivered (p : Session) : List Byte :=
  p.typed.drop p.delivered.length

/-- The next event, if it reads a keyboard register, agrees with what has been typed. -/
def KeyboardLaw (p : Session) : Prop :=
  match p.script with
  | .readKbsr :: _ =>
    ∀ v vm, memoryRead mrKbsr p.vm = .ok (v, vm) → (v = statusBit ↔ p.undelivered ≠ [])
  | .readKbdr :: _ =>
    ∀ v vm, memoryRead mrKbdr p.vm = .ok (v, vm) →
      v = match p.undelivered with
        | [] => 0
        | oldest :: _ => oldest.setWidth 16
  | _ => True

/-- The next event does not poll an empty kernel queue behind a nonempty stdio buffer; or it reads
    `MR_KBDR` then, and the byte in the buffer is the 0 it answers. -/
def PollAgrees (p : Session) : Prop :=
  match p.script with
  | .readKbsr :: _ => p.vm.stdin.buffered = [] ∨ p.vm.stdin.queued ≠ []
  | .readKbdr :: _ =>
    p.vm.stdin.buffered = [] ∨ p.vm.stdin.queued ≠ [] ∨ p.vm.stdin.buffered.head? = some 0
  | _ => True

/-- What has been typed is what was delivered, then the stdio buffer, then the kernel queue. -/
structure Inv (p : Session) : Prop where
  isOpen : p.vm.stdin.Open
  typed : p.typed = p.delivered ++ p.vm.stdin.undelivered

theorem Inv.undelivered_eq {p : Session} (h : p.Inv) : p.undelivered = p.vm.stdin.undelivered := by
  rw [undelivered, h.typed, List.drop_left]

end Session

/-! ## One event -/

theorem getchar_open {s t : State} {c : Option Byte} (hopen : s.stdin.Open)
    (h : getchar s = .ok (c, t)) : t.stdin.Open := by
  obtain ⟨stdin, hget, rfl⟩ := getchar_eq_ok.1 h
  exact hopen.getchar hget

theorem memoryRead_open {a v : Word} {s t : State} (hopen : s.stdin.Open)
    (h : memoryRead a s = .ok (v, t)) : t.stdin.Open := by
  have hpoll : (pollKeyboard s).2.stdin.Open := by
    change s.stdin.receive.Open
    rwa [hopen.receive_eq]
  obtain ⟨u, hread, rfl⟩ := memoryRead_eq_ok.1 h
  change u.stdin.Open
  unfold readAt at hread
  split_ifs at hread
  · simp only [Except.ok.injEq] at hread
    rwa [hread] at hpoll
  · dsimp only at hread
    split_ifs at hread
    · obtain ⟨⟨c, u'⟩, hget, heq⟩ := map_eq_ok.1 hread
      simp only [Prod.mk.injEq] at heq
      exact heq.2 ▸ getchar_open hpoll hget
    · simp only [Except.ok.injEq, Prod.mk.injEq] at hread
      exact hread.2 ▸ hpoll
  all_goals
    simp only [Except.ok.injEq, Prod.mk.injEq] at hread
    exact hread.2 ▸ hopen

/-- One case per event: the stream stays open, and what was undelivered and is typed now is what is
    delivered now and stays undelivered. -/
theorem KeyEvent.perform_eq_ok {event : KeyEvent} {s t : State} (hopen : s.stdin.Open)
    (h : event.perform s = .ok t) :
    t.stdin.Open ∧
      s.stdin.undelivered ++ event.typed = consumed (newEvents s t) ++ t.stdin.undelivered := by
  have hreads : ∀ {new : List Event}, t.stdin.Open → Accounts s t new →
      s.stdin.undelivered ++ [] = consumed (newEvents s t) ++ t.stdin.undelivered := by
    intro new hopen' hacc
    rw [List.append_nil, newEvents_eq hacc.events, ← hopen.pending_eq, ← hopen'.pending_eq]
    exact hacc.pending
  cases event with
  | key b =>
      obtain rfl := Except.ok.inj h
      refine ⟨hopen, ?_⟩
      simp [newEvents, consumed, Input.arrive, Input.undelivered, KeyEvent.typed]
  | readKbsr =>
      rw [perform, map_eq_ok] at h
      obtain ⟨⟨v, t⟩, hread, rfl⟩ := h
      have hopen' := memoryRead_open hopen hread
      obtain ⟨new, hacc, -⟩ := (MemReads.one hread).accounts
      exact ⟨hopen', hreads hopen' hacc⟩
  | readKbdr =>
      rw [perform, map_eq_ok] at h
      obtain ⟨⟨v, t⟩, hread, rfl⟩ := h
      have hopen' := memoryRead_open hopen hread
      obtain ⟨new, hacc, -⟩ := (MemReads.one hread).accounts
      exact ⟨hopen', hreads hopen' hacc⟩
  | getc =>
      obtain ⟨⟨c, u⟩, hget, ht⟩ := bind_eq_ok.1 h
      obtain rfl := Except.ok.inj ht
      have hopen' := getchar_open hopen hget
      have hacc := getchar_accounts hget
      exact ⟨hopen', hreads hopen' ⟨hacc.events, hacc.pending⟩⟩

/-- What a read of `MR_KBSR` answers. -/
theorem memoryRead_kbsr (s : State) :
    ∃ v t, memoryRead mrKbsr s = .ok (v, t) ∧ (v = statusBit ↔ s.stdin.ready = true) := by
  refine ⟨if s.stdin.ready then statusBit else 0, _, rfl, ?_⟩
  by_cases hready : s.stdin.ready = true
  · simp [hready]
  · simp [hready, statusBit]

/-- With an empty kernel queue a read of `MR_KBDR` answers 0, whatever the stdio buffer holds. -/
theorem memoryRead_kbdr_empty {s : State} (hopen : s.stdin.Open) (h : s.stdin.queued = []) :
    ∃ t, memoryRead mrKbdr s = .ok (0, t) := by
  have hready : ¬ s.stdin.ready = true := fun hr => hopen.ready_iff.1 hr h
  refine ⟨(pollKeyboard s).2.record (.read mrKbdr 0), ?_⟩
  simp only [memoryRead, readAt, if_neg (show mrKbdr ≠ mrKbsr by decide), if_true, pollKeyboard,
    Input.select_fst, hready, ne_eq]
  rfl

/-- With a key in the kernel queue it answers the oldest byte not delivered yet. -/
theorem memoryRead_kbdr_ready {s : State} (hopen : s.stdin.Open) (h : s.stdin.queued ≠ []) :
    ∃ b rest t, s.stdin.undelivered = b :: rest ∧
      memoryRead mrKbdr s = .ok (b.setWidth 16, t) := by
  have hready : s.stdin.ready = true := hopen.ready_iff.2 h
  have hpending : s.stdin.pending ≠ [] := by
    rw [hopen.pending_eq, Input.undelivered]
    simp [h]
  obtain ⟨b, j, hget⟩ := Input.getchar_of_pending hpending
  have hhead := Input.pending_of_getchar hget
  rw [hopen.pending_eq] at hhead
  refine ⟨b, j.pending, (({ s with stdin := j } : State).record (.getchar (some b))).record
    (.read mrKbdr (b.setWidth 16)), hhead, ?_⟩
  simp only [memoryRead, readAt, if_neg (show mrKbdr ≠ mrKbsr by decide), if_true, pollKeyboard,
    Input.select_fst, Input.select_snd, hready, if_pos (show statusBit ≠ 0 by decide), getchar,
    hopen.receive_eq, hget]
  rfl

namespace Session

/-- **Step lemma.** -/
theorem Inv.step {p q : Session} (h : p.Inv) (hstep : p.step = .ok q) : q.Inv := by
  unfold Session.step at hstep
  split at hstep
  · simp at hstep
  · next event script _ =>
      obtain ⟨vm, hperform, rfl⟩ := map_eq_ok.1 hstep
      obtain ⟨hopen, haccount⟩ := KeyEvent.perform_eq_ok h.isOpen hperform
      refine ⟨hopen, ?_⟩
      change p.typed ++ event.typed = _ ++ _
      rw [h.typed, List.append_assoc, haccount, List.append_assoc]

/-- One case per event: the next read agrees with what has been typed exactly when it does not poll
    past the stdio buffer. -/
theorem Inv.keyboardLaw_iff {p : Session} (h : p.Inv) : p.KeyboardLaw ↔ p.PollAgrees := by
  unfold KeyboardLaw PollAgrees
  rw [h.undelivered_eq]
  cases p.script with
  | nil => exact Iff.rfl
  | cons event script =>
      cases event with
      | key b => exact Iff.rfl
      | getc => exact Iff.rfl
      | readKbsr =>
          obtain ⟨v, t, hread, hvalue⟩ := memoryRead_kbsr p.vm
          refine (forall_ok hread).trans ?_
          rw [hvalue]
          exact Input.select_iff_undelivered h.isOpen
      | readKbdr =>
          by_cases hqueue : p.vm.stdin.queued = []
          -- the poll fails and 0 is answered, whatever byte is the oldest in the buffer
          · obtain ⟨t, hread⟩ := memoryRead_kbdr_empty h.isOpen hqueue
            refine (forall_ok hread).trans ?_
            rw [Input.undelivered, hqueue, List.append_nil]
            cases p.vm.stdin.buffered with
            | nil => simp
            | cons oldest rest =>
                have hzero : (0 : Word) = oldest.setWidth 16 ↔ oldest = 0 :=
                  eq_comm.trans (@zeroExtend_inj oldest 0)
                simp only [reduceCtorEq, ne_eq, not_true, false_or, List.head?_cons,
                  Option.some.injEq]
                exact hzero
          · obtain ⟨b, rest, t, hhead, hread⟩ := memoryRead_kbdr_ready h.isOpen hqueue
            refine iff_of_true (fun v vm hv => ?_) (Or.inr (Or.inl hqueue))
            rw [hread, Except.ok.injEq, Prod.mk.injEq] at hv
            simp [hhead, ← hv.1]

/-- For every machine whose input is open and empty, every script of key arrivals, reads of
    `MR_KBSR`, reads of `MR_KBDR` and `GETC` traps, and every run of it: each read of `MR_KBSR`
    answers `STATUS_BIT` exactly when some typed byte has not been delivered, and each read of
    `MR_KBDR` answers the oldest undelivered byte, or 0 when there is none, if and only if no read
    polls an empty kernel queue behind a nonempty stdio buffer, but for reads of `MR_KBDR` with a
    zero byte at the front of it. -/
theorem keyboardLaw_run_iff {vm : State} (script : List KeyEvent) (n : ℕ) (hopen : vm.stdin.Open)
    (hempty : vm.stdin.undelivered = []) :
    (∀ k ≤ n, ∀ p, steps step k (start vm script) = .ok p → p.KeyboardLaw) ↔
      (∀ k ≤ n, ∀ p, steps step k (start vm script) = .ok p → p.PollAgrees) := by
  have hstart : (start vm script).Inv := ⟨hopen, hempty.symm⟩
  have hinv : ∀ {k : ℕ} {p : Session}, steps step k (start vm script) = .ok p → p.Inv :=
    fun hp => steps_invariant Inv (fun _ _ => Inv.step) hstart hp
  constructor
  · exact fun hlaw k hk p hp => (hinv hp).keyboardLaw_iff.1 (hlaw k hk p hp)
  · exact fun hagree k hk p hp => (hinv hp).keyboardLaw_iff.2 (hagree k hk p hp)

end Session

/-- An open standard input on which nothing has been typed. -/
def openInput : Input Byte :=
  { noInput with closed := false }

namespace Session

/-- The equivalence on a script that types one key and reads it. -/
theorem keyboardLaw_run_iff_one_key :
    ∃ vm, vm.stdin.Open ∧ vm.stdin.undelivered = [] ∧
      ((∀ k ≤ 3, ∀ p, steps step k (start vm [.key 0x61, .readKbsr, .readKbdr]) = .ok p →
          p.KeyboardLaw) ↔
        (∀ k ≤ 3, ∀ p, steps step k (start vm [.key 0x61, .readKbsr, .readKbdr]) = .ok p →
          p.PollAgrees)) :=
  ⟨initialState openInput, ⟨rfl, rfl⟩, rfl, keyboardLaw_run_iff _ 3 ⟨rfl, rfl⟩ rfl⟩

/-- Two keys in a burst: the read of the first moves both into the stdio buffer, and `MR_KBSR` then
    answers 0 with the second one undelivered. -/
theorem keyboardLaw_broken_by_burst :
    ∃ p, steps step 3 (start (initialState openInput)
        [.key 0x61, .key 0x62, .readKbdr, .readKbsr]) = .ok p ∧
      p.undelivered = [0x62] ∧ ¬ p.KeyboardLaw := by
  refine ⟨_, rfl, rfl, fun hlaw => ?_⟩
  have hpoll := hlaw 0 _ rfl
  exact absurd (hpoll.2 (by decide)) (by decide)

end Session

end Yavm.Lc3
