import Yavm.Basis.Run

set_option autoImplicit false

/-! # What a machine is led to

Triples for a partial deterministic machine, with an exact number of steps: `Leads step n P Q` says
that from every state with `P` the machine makes `n` steps and ends in a state with `Q`, and
`Fails step n e P` that it makes `n` steps and fails with `e` in the next one. Straight-line code is
composed by `Leads.trans`, a loop by `Leads.iterate` with an invariant that counts the rounds. -/

namespace Basis

variable {σ ε : Type*} {step : σ → Except ε σ} {P Q R : σ → Prop} {m n : ℕ} {e : ε}

/-- From every state with `P`, `n` steps lead to a state with `Q`. -/
def Leads (step : σ → Except ε σ) (n : ℕ) (P Q : σ → Prop) : Prop :=
  ∀ s, P s → ∃ t, steps step n s = .ok t ∧ Q t

/-- From every state with `P`, the step after `n` steps fails. -/
def Fails (step : σ → Except ε σ) (n : ℕ) (e : ε) (P : σ → Prop) : Prop :=
  ∀ s, P s → steps step (n + 1) s = .error e

namespace Leads

theorem refl (step : σ → Except ε σ) (P : σ → Prop) : Leads step 0 P P := by
  intro s hs
  exact ⟨s, rfl, hs⟩

/-- Sequence. -/
theorem trans (h : Leads step m P Q) (h' : Leads step n Q R) : Leads step (m + n) P R := by
  intro s hs
  obtain ⟨t, ht, hQ⟩ := h s hs
  obtain ⟨u, hu, hR⟩ := h' t hQ
  refine ⟨u, ?_, hR⟩
  rw [steps_add, ht]
  exact hu

/-- A loop of `count` rounds, each of `n` steps; `I k` holds before round `k`. -/
theorem iterate {I : ℕ → σ → Prop} {count : ℕ}
    (body : ∀ k < count, Leads step n (I k) (I (k + 1))) : Leads step (n * count) (I 0) (I count) := by
  induction count with
  | zero => exact refl step (I 0)
  | succ count ih =>
      rw [Nat.mul_succ]
      exact (ih fun k hk => body k (Nat.lt_succ_of_lt hk)).trans (body count (Nat.lt_succ_self count))

/-- Sequence, with a failure at the end. -/
theorem fails (h : Leads step m P Q) (h' : Fails step n e Q) : Fails step (m + n) e P := by
  intro s hs
  obtain ⟨t, ht, hQ⟩ := h s hs
  rw [Nat.add_assoc, steps_add, ht]
  exact h' t hQ

end Leads

/-- A step that succeeds. -/
theorem leads_one (h : ∀ s, P s → ∃ t, step s = .ok t ∧ Q t) : Leads step 1 P Q := h

/-- A step that fails. -/
theorem fails_zero (h : ∀ s, P s → step s = .error e) : Fails step 0 e P := h

end Basis
