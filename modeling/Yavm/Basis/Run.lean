import Mathlib.Data.Finset.Card
import Mathlib.Data.Nat.Basic
import Mathlib.Logic.Function.Iterate
import Mathlib.Tactic.Common

set_option autoImplicit false

/-! # Runs of a partial deterministic machine

A machine is a step function `step : σ → Except ε σ`; `steps step n` is its `n`-fold composite and
stops at the first error. This file provides the rules every whole-run argument goes through: the
inversion of the last step, the invariant rule, the location of an error, history variables (a
component that is recorded along the run and never read by the machine), and the rule that
characterises a property of *every* state of a run by a condition on the states it steps from.
`play` is the run of a machine that reacts to a list of events. On a path through finitely many
states, what comes at all comes soon (`first_visit_lt_card`). -/

namespace Basis

universe u

variable {σ γ ε δ ζ : Type*} {α β : Type u}

/-- `n` steps of the machine, stopping at the first error. -/
def steps (step : σ → Except ε σ) : ℕ → σ → Except ε σ
  | 0, s => .ok s
  | n + 1, s => steps step n s >>= step

@[simp]
theorem steps_zero (step : σ → Except ε σ) (s : σ) : steps step 0 s = .ok s := rfl

/-- Inversion of `>>=` in `Except`: both computations succeed. -/
theorem bind_eq_ok {x : Except ε α} {f : α → Except ε β} {b : β} :
    x >>= f = .ok b ↔ ∃ a, x = .ok a ∧ f a = .ok b := by
  cases x <;> simp [bind, Except.bind]

/-- Inversion of `>>=` in `Except` on the failing side: one of the two computations fails. -/
theorem bind_eq_error {x : Except ε α} {f : α → Except ε β} {e : ε} :
    x >>= f = .error e ↔ x = .error e ∨ ∃ a, x = .ok a ∧ f a = .error e := by
  cases x <;> simp [bind, Except.bind]

theorem map_eq_ok {x : Except ε δ} {f : δ → ζ} {b : ζ} :
    x.map f = .ok b ↔ ∃ a, x = .ok a ∧ f a = b := by
  cases x <;> simp [Except.map]

theorem map_eq_error {x : Except ε δ} {f : δ → ζ} {e : ε} :
    x.map f = .error e ↔ x = .error e := by
  cases x <;> simp [Except.map]

/-- A computation has one result, so a statement about every result is about that one. -/
theorem forall_ok {x : Except ε (δ × ζ)} {a : δ} {b : ζ} {P : δ → ζ → Prop} (h : x = .ok (a, b)) :
    (∀ a' b', x = .ok (a', b') → P a' b') ↔ P a b := by
  constructor
  · exact fun hall => hall a b h
  · intro hp a' b' h'
    simp only [h, Except.ok.injEq, Prod.mk.injEq] at h'
    obtain ⟨rfl, rfl⟩ := h'
    exact hp

/-- A run of `n + 1` steps is a run of `n` steps and one more. -/
theorem steps_succ_ok {step : σ → Except ε σ} {n : ℕ} {s u : σ} :
    steps step (n + 1) s = .ok u ↔ ∃ t, steps step n s = .ok t ∧ step t = .ok u :=
  bind_eq_ok

theorem steps_add (step : σ → Except ε σ) (m n : ℕ) (s : σ) :
    steps step (m + n) s = steps step m s >>= steps step n := by
  induction n with
  | zero => cases steps step m s <;> rfl
  | succ n ih =>
      rw [← Nat.add_assoc, steps, ih]
      cases steps step m s <;> rfl

/-- Every prefix of a run is a run. -/
theorem steps_prefix {step : σ → Except ε σ} {n k : ℕ} {s u : σ}
    (h : steps step n s = .ok u) (hk : k ≤ n) : ∃ t, steps step k s = .ok t := by
  obtain ⟨m, rfl⟩ := Nat.exists_eq_add_of_le hk
  rw [steps_add, bind_eq_ok] at h
  obtain ⟨t, ht, _⟩ := h
  exact ⟨t, ht⟩

/-- **Invariant rule, along a run.** What holds of the start and is preserved by every step made
    from a state with `C` holds at the end of a run all of whose steps are made from such states. -/
theorem steps_invariant_along {step : σ → Except ε σ} (I C : σ → Prop)
    (hstep : ∀ s t, I s → C s → step s = .ok t → I t) {n : ℕ} {s u : σ} (hs : I s)
    (hC : ∀ k < n, ∀ t, steps step k s = .ok t → C t) (h : steps step n s = .ok u) : I u := by
  induction n generalizing u with
  | zero =>
      simp only [steps_zero, Except.ok.injEq] at h
      exact h ▸ hs
  | succ n ih =>
      obtain ⟨t, ht, hu⟩ := steps_succ_ok.1 h
      have hI : I t := ih (fun k hk => hC k (Nat.lt_succ_of_lt hk)) ht
      exact hstep t u hI (hC n (Nat.lt_succ_self n) t ht) hu

/-- **Invariant rule.** What holds of the start and is preserved by every step holds of every
    state that is reached. -/
theorem steps_invariant {step : σ → Except ε σ} (I : σ → Prop)
    (hstep : ∀ s t, I s → step s = .ok t → I t) {n : ℕ} {s u : σ} (hs : I s)
    (h : steps step n s = .ok u) : I u :=
  steps_invariant_along I (fun _ => True) (fun s t hI _ => hstep s t hI) hs
    (fun _ _ _ _ => trivial) h

/-- A run fails exactly when some state it reaches cannot make its step. -/
theorem steps_eq_error {step : σ → Except ε σ} {n : ℕ} {s : σ} {e : ε} :
    steps step n s = .error e ↔ ∃ k < n, ∃ t, steps step k s = .ok t ∧ step t = .error e := by
  induction n with
  | zero => simp [steps]
  | succ n ih =>
      rw [steps, bind_eq_error, ih]
      constructor
      · intro h
        rcases h with ⟨k, hk, t, ht, he⟩ | ⟨t, ht, he⟩
        · exact ⟨k, Nat.lt_succ_of_lt hk, t, ht, he⟩
        · exact ⟨n, Nat.lt_succ_self n, t, ht, he⟩
      · intro h
        obtain ⟨k, hk, t, ht, he⟩ := h
        rcases Nat.lt_succ_iff_lt_or_eq.1 hk with hlt | rfl
        · exact Or.inl ⟨k, hlt, t, ht, he⟩
        · exact Or.inr ⟨t, ht, he⟩

/-- From a state that cannot make a step, every run but the empty one fails as that step does. -/
theorem steps_succ_of_error {step : σ → Except ε σ} {s : σ} {e : ε} (h : step s = .error e)
    (n : ℕ) : steps step (n + 1) s = .error e := by
  rw [Nat.add_comm, steps_add, steps, steps_zero]
  change (step s >>= steps step n) = _
  rw [h]
  rfl

/-! ## Properties of every state of a run -/

/-- **Exact condition for a run.** If a step from a state with `P` ends in a state with `P` exactly
    when the state it leaves has `Q`, then every state of the run has `P` exactly when every state
    a step is made from has `Q`. `P` may depend on the number of steps made so far. -/
theorem forall_steps_iff {step : σ → Except ε σ} {P : ℕ → σ → Prop} {Q : σ → Prop} {s u : σ} {n : ℕ}
    (hs : P 0 s) (hrun : steps step n s = .ok u)
    (hstep : ∀ k < n, ∀ t t', steps step k s = .ok t → P k t → step t = .ok t' →
      (P (k + 1) t' ↔ Q t)) :
    (∀ k ≤ n, ∀ t, steps step k s = .ok t → P k t) ↔
      (∀ k < n, ∀ t, steps step k s = .ok t → Q t) := by
  constructor
  · intro hP k hk t ht
    -- the run goes on from `t`, and both ends of its next step have `P`
    obtain ⟨t', ht'⟩ := steps_prefix hrun (Nat.succ_le_of_lt hk)
    obtain ⟨t₁, ht₁, hnext⟩ := steps_succ_ok.1 ht'
    obtain rfl : t₁ = t := by simpa [ht₁] using ht
    exact (hstep k hk t₁ t' ht₁ (hP k (Nat.le_of_lt hk) t₁ ht₁) hnext).1 (hP (k + 1) hk t' ht')
  · intro hQ k
    -- `P` of one state and `Q` of the same state give `P` of the next
    induction k with
    | zero =>
        intro _ t ht
        simp only [steps_zero, Except.ok.injEq] at ht
        exact ht ▸ hs
    | succ k ih =>
        intro hk t' ht'
        obtain ⟨t, ht, hnext⟩ := steps_succ_ok.1 ht'
        exact (hstep k hk t t' ht (ih (Nat.le_of_succ_le hk) t ht) hnext).2 (hQ k hk t ht)

/-! ## History variables -/

/-- The machine with a history variable: `record` sees the states before and after each step. -/
def withHistory (step : σ → Except ε σ) (record : σ → σ → γ → γ) : σ × γ → Except ε (σ × γ)
  | (s, g) => (step s).map fun t => (t, record s t g)

theorem withHistory_eq_ok {step : σ → Except ε σ} {record : σ → σ → γ → γ} {p q : σ × γ} :
    withHistory step record p = .ok q ↔ step p.1 = .ok q.1 ∧ q.2 = record p.1 q.1 p.2 := by
  obtain ⟨s, g⟩ := p
  obtain ⟨t, g'⟩ := q
  simp only [withHistory, map_eq_ok, Prod.mk.injEq]
  constructor
  · intro h
    obtain ⟨t, ht, rfl, rfl⟩ := h
    exact ⟨ht, rfl⟩
  · intro h
    obtain ⟨ht, rfl⟩ := h
    exact ⟨t, ht, rfl, rfl⟩

/-- A history variable never changes what the machine does. -/
theorem steps_withHistory (step : σ → Except ε σ) (record : σ → σ → γ → γ) (n : ℕ) (s : σ) (g : γ) :
    (steps (withHistory step record) n (s, g)).map Prod.fst = steps step n s := by
  induction n with
  | zero => rfl
  | succ n ih =>
      rw [steps, steps, ← ih]
      cases steps (withHistory step record) n (s, g) with
      | error e => rfl
      | ok p =>
          obtain ⟨t, g'⟩ := p
          change ((withHistory step record) (t, g')).map Prod.fst = step t
          rw [withHistory]
          cases step t <;> rfl

/-- Every run of the machine carries a history. -/
theorem exists_history {step : σ → Except ε σ} {n : ℕ} {s u : σ} (record : σ → σ → γ → γ) (g : γ)
    (h : steps step n s = .ok u) :
    ∃ g', steps (withHistory step record) n (s, g) = .ok (u, g') := by
  rw [← steps_withHistory step record n s g, map_eq_ok] at h
  obtain ⟨⟨t, g'⟩, hp, rfl⟩ := h
  exact ⟨g', hp⟩

theorem steps_of_history {step : σ → Except ε σ} {record : σ → σ → γ → γ} {n : ℕ} {s u : σ}
    {g g' : γ} (h : steps (withHistory step record) n (s, g) = .ok (u, g')) :
    steps step n s = .ok u := by
  rw [← steps_withHistory step record n s g, h]
  rfl

/-- The states a machine with a history goes through are those of the machine. -/
theorem forall_history_iff {step : σ → Except ε σ} {record : σ → σ → γ → γ} {Q : σ → Prop} {k : ℕ}
    {s : σ} {g : γ} :
    (∀ p, steps (withHistory step record) k (s, g) = .ok p → Q p.1) ↔
      (∀ t, steps step k s = .ok t → Q t) := by
  constructor
  · intro h t ht
    obtain ⟨g', hp⟩ := exists_history record g ht
    exact h (t, g') hp
  · intro h p hp
    exact h p.1 (steps_of_history hp)

/-! ## Runs driven by events -/

/-- The machine reacts to the events of a list, one after the other. -/
def play (react : γ → σ → Except ε σ) : List γ → σ → Except ε σ
  | [], s => .ok s
  | e :: es, s => react e s >>= play react es

theorem play_cons_ok {react : γ → σ → Except ε σ} {e : γ} {es : List γ} {s u : σ} :
    play react (e :: es) s = .ok u ↔ ∃ t, react e s = .ok t ∧ play react es t = .ok u :=
  bind_eq_ok

/-- Events after events. -/
theorem play_append (react : γ → σ → Except ε σ) (es fs : List γ) (s : σ) :
    play react (es ++ fs) s = play react es s >>= play react fs := by
  induction es generalizing s with
  | nil => rfl
  | cons e es ih =>
      rw [List.cons_append, play, play]
      cases react e s with
      | error e => rfl
      | ok t => exact ih t

/-- One event more. -/
theorem play_snoc_of_ok {react : γ → σ → Except ε σ} {es : List γ} {e : γ} {s t u : σ}
    (h : play react es s = .ok t) (he : react e t = .ok u) : play react (es ++ [e]) s = .ok u := by
  rw [play_append, h]
  exact play_cons_ok.2 ⟨u, he, rfl⟩

/-- Events fail exactly where one of them meets a state that cannot react to it. -/
theorem play_eq_error {react : γ → σ → Except ε σ} {es : List γ} {s : σ} {e : ε} :
    play react es s = .error e ↔
      ∃ past x rest t, es = past ++ x :: rest ∧ play react past s = .ok t ∧ react x t = .error e := by
  induction es generalizing s with
  | nil => simp [play]
  | cons x xs ih =>
      rw [play, bind_eq_error]
      constructor
      · rintro (hx | ⟨t, ht, hrest⟩)
        · exact ⟨[], x, xs, s, rfl, rfl, hx⟩
        · obtain ⟨past, y, rest, u, rfl, hu, hy⟩ := ih.1 hrest
          exact ⟨x :: past, y, rest, u, rfl, play_cons_ok.2 ⟨t, ht, hu⟩, hy⟩
      · rintro ⟨past, y, rest, t, hes, ht, hy⟩
        cases past with
        | nil =>
            obtain ⟨rfl, rfl⟩ := List.cons.inj hes
            obtain rfl := Except.ok.inj ht
            exact Or.inl hy
        | cons z past =>
            obtain ⟨rfl, rfl⟩ := List.cons.inj hes
            obtain ⟨u, hu, hpast⟩ := play_cons_ok.1 ht
            exact Or.inr ⟨u, hu, ih.2 ⟨past, y, rest, t, rfl, hpast, hy⟩⟩

/-- The invariant rule from the middle of a list of events. -/
theorem play_invariant_from {react : γ → σ → Except ε σ} (I : List γ → σ → Prop)
    (hreact : ∀ past e s t, I past s → react e s = .ok t → I (past ++ [e]) t) {past es : List γ}
    {s u : σ} (hs : I past s) (h : play react es s = .ok u) : I (past ++ es) u := by
  induction es generalizing past s with
  | nil =>
      simp only [play, Except.ok.injEq] at h
      rw [List.append_nil]
      exact h ▸ hs
  | cons e es ih =>
      obtain ⟨t, ht, hu⟩ := play_cons_ok.1 h
      have hI := ih (hreact past e s t hs ht) hu
      rwa [List.append_assoc] at hI

/-- **Invariant rule, with the events so far.** -/
theorem play_invariant {react : γ → σ → Except ε σ} (I : List γ → σ → Prop)
    (hreact : ∀ past e s t, I past s → react e s = .ok t → I (past ++ [e]) t) {es : List γ}
    {s u : σ} (hs : I [] s) (h : play react es s = .ok u) : I es u :=
  play_invariant_from I hreact hs h

/-! ## Paths through finitely many states -/

/-- A path that visits a state twice goes on as it did after the first visit. -/
theorem iterate_add_of_eq {next : σ → σ} {s : σ} {j k : ℕ} (h : next^[j] s = next^[k] s) (m : ℕ) :
    next^[m + j] s = next^[m + k] s := by
  rw [Function.iterate_add_apply, h, ← Function.iterate_add_apply]

/-- **Pigeonhole.** What a path in a finite set comes to at all, it comes to in fewer steps than the
    set has elements. -/
theorem first_visit_lt_card {next : σ → σ} {P : σ → Prop} {S : Finset σ} {s : σ} {n : ℕ}
    (hin : ∀ k ≤ n, next^[k] s ∈ S) (hfirst : ∀ k < n, ¬ P (next^[k] s)) (hlast : P (next^[n] s)) :
    n < S.card := by
  have hnever : ∀ {j k : ℕ}, j < k → k ≤ n → next^[j] s ≠ next^[k] s := by
    intro j k hjk hkn heq
    -- the path would have come to the last state from `j` as well
    have hsame := iterate_add_of_eq heq (n - k)
    rw [Nat.sub_add_cancel hkn] at hsame
    exact hfirst (n - k + j) (by omega) (hsame ▸ hlast)
  have hinj : Set.InjOn (fun k => next^[k] s) (Finset.range (n + 1)) := by
    intro j hj k hk heq
    rw [Finset.coe_range, Set.mem_Iio] at hj hk
    rcases Nat.lt_trichotomy j k with hlt | hsame | hgt
    · exact absurd heq (hnever hlt (Nat.le_of_lt_succ hk))
    · exact hsame
    · exact absurd heq.symm (hnever hgt (Nat.le_of_lt_succ hj))
  have hcard := Finset.card_le_card_of_injOn (t := S) (fun k => next^[k] s)
    (fun k hk => hin k (Nat.le_of_lt_succ (Finset.mem_range.1 hk))) hinj
  rw [Finset.card_range] at hcard
  exact hcard

end Basis
