import Mathlib.Data.List.Basic
import Mathlib.Tactic.Common

set_option autoImplicit false

/-! # Buffered input behind a polled queue

A stream of symbols reaches a program through two queues: symbols that have arrived wait in the
*kernel queue*, and a buffered reader moves them, as many as fit, into its own *buffer* whenever
that buffer is empty. Two operations look at the stream: `getchar` takes the next symbol through
the buffer, `select` polls the kernel queue without looking at the buffer.

`arrivals` lists what arrives before each later look at the kernel queue; `closed` says whether the
stream ends after the last arrival or stays open with nothing more to come. `getchar` on an empty
stream waits for the next arrival, so on an open stream with nothing to come it never returns.

The reader refines a plain queue (`Input.pending`): `select` leaves it alone and `getchar` takes its
head. The poll does not refine it — it answers for the kernel queue only, which is what
`Input.select_iff_undelivered` measures. -/

namespace Basis

variable {α : Type*}

/-- The state of a buffered input stream. -/
structure Input (α : Type*) where
  /-- Capacity of the reader's buffer. -/
  size : ℕ
  size_pos : 0 < size
  /-- Symbols already moved into the reader's buffer. -/
  buffered : List α
  /-- Symbols that have arrived and wait in the kernel queue. -/
  queued : List α
  /-- What arrives before each later look at the kernel queue. -/
  arrivals : List (List α)
  /-- Whether the stream ends after the last arrival. -/
  closed : Bool

namespace Input

/-- The next arrival joins the kernel queue. -/
def receive (i : Input α) : Input α :=
  match i.arrivals with
  | [] => i
  | b :: bs => { i with queued := i.queued ++ b, arrivals := bs }

/-- The kernel queue is readable: it holds a symbol, or the stream has ended. -/
def ready (i : Input α) : Bool :=
  !i.receive.queued.isEmpty || (i.arrivals.isEmpty && i.closed)

/-- Poll the kernel queue. -/
def select (i : Input α) : Bool × Input α :=
  (i.ready, i.receive)

/-- Wait until the kernel queue holds a symbol or nothing more is to come. -/
def await (queued : List α) : List (List α) → List α × List (List α)
  | [] => (queued, [])
  | b :: bs => if queued.isEmpty then await b bs else (queued, b :: bs)

/-- Take the next symbol: `none` when it never comes, `some (none, _)` at the end of the stream. -/
def getchar (i : Input α) : Option (Option α × Input α) :=
  match i.buffered with
  | b :: rest => some (some b, { i with buffered := rest })
  | [] =>
    match await i.receive.queued i.receive.arrivals with
    | ([], bs) => if i.closed then some (none, { i with queued := [], arrivals := bs }) else none
    -- an empty buffer is refilled with all that fits, and its first symbol handed out
    | (b :: rest, bs) =>
      some (some b, { i with buffered := rest.take (i.size - 1), queued := rest.drop (i.size - 1),
                             arrivals := bs })

/-- A symbol arrives between two operations. -/
def arrive (b : α) (i : Input α) : Input α :=
  { i with queued := i.queued ++ [b] }

/-- What has arrived and has not been taken yet. -/
def undelivered (i : Input α) : List α :=
  i.buffered ++ i.queued

/-- Everything that is still to be taken, in order. -/
def pending (i : Input α) : List α :=
  i.buffered ++ i.queued ++ i.arrivals.flatten

/-! ## The reader refines a queue -/

@[simp]
theorem pending_receive (i : Input α) : i.receive.pending = i.pending := by
  unfold receive
  split
  · rfl
  · next b bs h => simp [pending, h]

@[simp]
theorem buffered_receive (i : Input α) : i.receive.buffered = i.buffered := by
  unfold receive
  split <;> rfl

@[simp]
theorem closed_receive (i : Input α) : i.receive.closed = i.closed := by
  unfold receive
  split <;> rfl

@[simp] theorem select_fst (i : Input α) : i.select.1 = i.ready := rfl

@[simp] theorem select_snd (i : Input α) : i.select.2 = i.receive := rfl

theorem await_flatten (queued : List α) (arrivals : List (List α)) :
    (await queued arrivals).1 ++ (await queued arrivals).2.flatten
      = queued ++ arrivals.flatten := by
  induction arrivals generalizing queued with
  | nil => rfl
  | cons b bs ih =>
      rw [await]
      split
      · next h => simp [ih, List.isEmpty_iff.1 h]
      · rfl

/-- Nothing is left to wait for only when nothing was to come. -/
theorem await_nil {queued : List α} {arrivals rest : List (List α)}
    (h : await queued arrivals = ([], rest)) : rest = [] := by
  induction arrivals generalizing queued with
  | nil =>
      simp only [await, Prod.mk.injEq] at h
      exact h.2.symm
  | cons b bs ih =>
      rw [await] at h
      split at h
      · exact ih h
      · next hne => simp_all

/-- The kernel queue, once awaited, and what follows it are the stream behind the buffer. -/
theorem await_receive (i : Input α) :
    (await i.receive.queued i.receive.arrivals).1 ++
        (await i.receive.queued i.receive.arrivals).2.flatten
      = i.queued ++ i.arrivals.flatten := by
  rw [await_flatten]
  simpa [pending] using pending_receive i

/-- `getchar` takes the head of the queue. -/
theorem pending_of_getchar {i j : Input α} {b : α} (h : i.getchar = some (some b, j)) :
    i.pending = b :: j.pending := by
  unfold getchar at h
  split at h
  · next c rest hbuf =>
      simp only [Option.some.injEq, Prod.mk.injEq] at h
      obtain ⟨rfl, rfl⟩ := h
      simp [pending, hbuf]
  · next hbuf =>
      have hstream := await_receive i
      split at h
      · split at h <;> simp at h
      · next c rest bs haw =>
          simp only [Option.some.injEq, Prod.mk.injEq] at h
          obtain ⟨rfl, rfl⟩ := h
          rw [haw] at hstream
          simp [pending, hbuf, ← hstream]

/-- The end of the stream is reported only when the queue is empty, and leaves it empty. -/
theorem pending_of_getchar_end {i j : Input α} (h : i.getchar = some (none, j)) :
    i.pending = [] ∧ j.pending = [] := by
  unfold getchar at h
  split at h
  · simp at h
  · next hbuf =>
      have hstream := await_receive i
      split at h
      · next bs haw =>
          split at h
          · simp only [Option.some.injEq, Prod.mk.injEq, true_and] at h
            subst h
            rw [haw, await_nil haw] at hstream
            rw [await_nil haw]
            simp [pending, hbuf, ← hstream]
          · simp at h
      · simp at h

/-- A nonempty queue always has a next symbol. -/
theorem getchar_of_pending {i : Input α} (h : i.pending ≠ []) :
    ∃ b j, i.getchar = some (some b, j) := by
  unfold getchar
  split
  · exact ⟨_, _, rfl⟩
  · next hbuf =>
      have hstream := await_receive i
      split
      · next bs haw =>
          rw [haw, await_nil haw] at hstream
          exact absurd (by simpa [pending, hbuf] using hstream.symm) h
      · exact ⟨_, _, rfl⟩

/-- `getchar` never waits right after a poll that answered "ready". -/
theorem getchar_of_ready {i : Input α} (h : i.ready = true) : i.receive.getchar ≠ none := by
  intro hnone
  -- waiting means that nothing is pending, so the poll has answered for the end of the stream
  have hpend : i.receive.pending = [] := by
    by_contra hne
    obtain ⟨b, j, hb⟩ := getchar_of_pending hne
    simp [hb] at hnone
  have hqueue : i.receive.queued = [] := by
    simp only [pending, List.append_eq_nil_iff] at hpend
    exact hpend.1.2
  have hended : i.arrivals = [] ∧ i.closed = true := by simpa [ready, hqueue] using h
  unfold getchar at hnone
  split at hnone
  · simp at hnone
  · split at hnone <;> simp [hended.2] at hnone

/-! ## Open streams -/

/-- The stream stays open, and nothing arrives but by `arrive`. -/
def Open (i : Input α) : Prop :=
  i.arrivals = [] ∧ i.closed = false

theorem Open.receive_eq {i : Input α} (h : i.Open) : i.receive = i := by
  rw [receive, h.1]

theorem Open.pending_eq {i : Input α} (h : i.Open) : i.pending = i.undelivered := by
  simp [pending, undelivered, h.1]

theorem Open.ready_iff {i : Input α} (h : i.Open) : i.ready = true ↔ i.queued ≠ [] := by
  simp [ready, h.receive_eq, h.1, h.2]

theorem Open.getchar {i j : Input α} {c : Option α} (h : i.Open) (hget : i.getchar = some (c, j)) :
    j.Open := by
  unfold Input.getchar at hget
  rw [h.receive_eq, h.1] at hget
  split at hget
  · simp only [Option.some.injEq, Prod.mk.injEq] at hget
    exact hget.2 ▸ ⟨rfl, h.2⟩
  · split at hget
    · rw [h.2] at hget
      simp at hget
    · next hawait =>
        simp only [await, Prod.mk.injEq] at hawait
        simp only [Option.some.injEq, Prod.mk.injEq] at hget
        rw [← hget.2]
        exact ⟨hawait.2.symm, h.2⟩

/-! ## What the poll answers -/

/-- On an open stream the poll agrees with "something has arrived and has not been taken" exactly
    when the reader's buffer is empty or the kernel queue is not. -/
theorem select_iff_undelivered {i : Input α} (h : i.Open) :
    ((i.ready = true ↔ i.undelivered ≠ []) ↔ (i.buffered = [] ∨ i.queued ≠ [])) := by
  rw [h.ready_iff]
  by_cases hb : i.buffered = [] <;> by_cases hq : i.queued = [] <;> simp [undelivered, hb, hq]

/-! ## Streams that carry the same symbols -/

/-- The same symbols are to come, and the stream ends in the same way; when they arrive and where
    they wait may differ. -/
def SameStream (i j : Input α) : Prop :=
  i.pending = j.pending ∧ i.closed = j.closed

theorem closed_getchar {i j : Input α} {c : Option α} (h : i.getchar = some (c, j)) :
    j.closed = i.closed := by
  unfold getchar at h
  split at h
  · simp only [Option.some.injEq, Prod.mk.injEq] at h
    exact h.2 ▸ rfl
  · split at h
    · split at h
      · simp only [Option.some.injEq, Prod.mk.injEq] at h
        exact h.2 ▸ rfl
      · simp at h
    · simp only [Option.some.injEq, Prod.mk.injEq] at h
      exact h.2 ▸ rfl

/-- On an empty queue `getchar` reports the end of a closed stream, and waits on an open one. -/
theorem getchar_of_pending_nil {i : Input α} (h : i.pending = []) :
    if i.closed then ∃ j, i.getchar = some (none, j) else i.getchar = none := by
  cases hget : i.getchar with
  | none =>
      unfold getchar at hget
      split at hget
      · simp at hget
      · split at hget
        · split at hget
          · simp at hget
          · next hopen =>
              rw [if_neg hopen]
        · simp at hget
  | some p =>
      obtain ⟨c, j⟩ := p
      cases c with
      | some b =>
          rw [pending_of_getchar hget] at h
          simp at h
      | none =>
          have hclosed : i.closed = true := by
            unfold getchar at hget
            split at hget
            · simp at hget
            · split at hget
              · split at hget
                · assumption
                · simp at hget
              · simp at hget
          rw [if_pos hclosed]
          exact ⟨j, rfl⟩

/-- `getchar` waits for ever exactly when nothing is pending and the stream stays open. -/
theorem getchar_eq_none_iff {i : Input α} :
    i.getchar = none ↔ i.pending = [] ∧ i.closed = false := by
  by_cases hpending : i.pending = []
  · have hget := getchar_of_pending_nil hpending
    cases hclosed : i.closed with
    | false =>
        rw [hclosed, if_neg (by simp)] at hget
        simp [hget, hpending]
    | true =>
        rw [hclosed, if_pos rfl] at hget
        obtain ⟨j, hj⟩ := hget
        simp [hj]
  · obtain ⟨b, j, hj⟩ := getchar_of_pending hpending
    simp [hj, hpending]

/-- What `getchar` returns does not depend on when the symbols arrive. -/
theorem SameStream.getchar {i j : Input α} (h : SameStream i j) :
    Option.Rel (fun p q => p.1 = q.1 ∧ SameStream p.2 q.2) i.getchar j.getchar := by
  obtain ⟨hpending, hclosed⟩ := h
  cases hi : i.pending with
  | nil =>
      have hj : j.pending = [] := hpending ▸ hi
      have hi' := getchar_of_pending_nil hi
      have hj' := getchar_of_pending_nil hj
      rw [hclosed] at hi'
      split at hi'
      · next hend =>
          rw [if_pos hend] at hj'
          obtain ⟨i', hi'⟩ := hi'
          obtain ⟨j', hj'⟩ := hj'
          have hpi := (pending_of_getchar_end hi').2
          have hpj := (pending_of_getchar_end hj').2
          rw [hi', hj']
          refine .some ⟨rfl, hpi.trans hpj.symm, ?_⟩
          rw [closed_getchar hi', closed_getchar hj', hclosed]
      · next hopen =>
          rw [if_neg hopen] at hj'
          rw [hi', hj']
          exact .none
  | cons b rest =>
      obtain ⟨b₁, i', hi'⟩ := getchar_of_pending (i := i) (by simp [hi])
      obtain ⟨b₂, j', hj'⟩ := getchar_of_pending (i := j) (by simp [← hpending, hi])
      have heq := hpending
      rw [pending_of_getchar hi', pending_of_getchar hj'] at heq
      obtain ⟨rfl, hrest⟩ := List.cons.inj heq
      rw [hi', hj']
      refine .some ⟨rfl, hrest, ?_⟩
      rw [closed_getchar hi', closed_getchar hj', hclosed]

/-- A byte that is pending in front of others is taken first. -/
theorem getchar_of_pending_append {i j : Input α} {more : List α} (h : i.pending = j.pending ++ more)
    (hpending : j.pending ≠ []) :
    Option.Rel (fun p q => p.1 = q.1 ∧ p.2.pending = q.2.pending ++ more) i.getchar j.getchar := by
  obtain ⟨b, j', hj⟩ := getchar_of_pending hpending
  have hi : i.pending ≠ [] := by simp [h, hpending]
  obtain ⟨c, i', hi⟩ := getchar_of_pending hi
  rw [pending_of_getchar hi, pending_of_getchar hj] at h
  obtain ⟨rfl, hrest⟩ := List.cons.inj h
  rw [hi, hj]
  exact .some ⟨rfl, hrest⟩

end Input

end Basis
