import Yavm.Basis.Run

set_option autoImplicit false

/-! # Two machines in lockstep

`Alike R x y`: two computations end alike, with results related by `R` or with the same error.
Related starts and steps that end alike give runs that end alike (`alike_steps_along`). When the
relation survives a step exactly under a condition on the second machine, `alike_steps_iff` gives
the exact condition for two whole runs. -/

namespace Basis

universe u v

variable {σ τ ε : Type*} {α γ : Type u} {β δ : Type v}

/-- Both computations succeed, with related results, or both fail, with the same error. -/
def Alike {α β : Type*} (R : α → β → Prop) : Except ε α → Except ε β → Prop
  | .ok a, .ok b => R a b
  | .error e, .error e' => e = e'
  | _, _ => False

namespace Alike

theorem mono {α β : Type*} {R S : α → β → Prop} {x : Except ε α} {y : Except ε β}
    (h : Alike R x y) (hRS : ∀ a b, x = .ok a → y = .ok b → R a b → S a b) : Alike S x y := by
  cases x <;> cases y
  case ok.ok => exact hRS _ _ rfl rfl h
  all_goals exact h

/-- The second computation succeeds when the first does. -/
theorem exists_right {α β : Type*} {R : α → β → Prop} {a : α} {y : Except ε β}
    (h : Alike R (.ok a) y) : ∃ b, y = .ok b ∧ R a b := by
  cases y with
  | error e => exact h.elim
  | ok b => exact ⟨b, rfl, h⟩

theorem exists_left {α β : Type*} {R : α → β → Prop} {b : β} {x : Except ε α}
    (h : Alike R x (.ok b)) : ∃ a, x = .ok a ∧ R a b := by
  cases x with
  | error e => exact h.elim
  | ok a => exact ⟨a, rfl, h⟩

theorem error_right {α β : Type*} {R : α → β → Prop} {e : ε} {y : Except ε β}
    (h : Alike R (.error e) y) : y = .error e := by
  cases y with
  | error e' => exact congrArg Except.error (Eq.symm h)
  | ok b => exact h.elim

theorem error_left {α β : Type*} {R : α → β → Prop} {e : ε} {x : Except ε α}
    (h : Alike R x (.error e)) : x = .error e := by
  cases x with
  | error e' => exact congrArg Except.error h
  | ok a => exact h.elim

theorem bind {R : α → β → Prop} {S : γ → δ → Prop} {x : Except ε α} {y : Except ε β}
    {f : α → Except ε γ} {g : β → Except ε δ} (h : Alike R x y)
    (hfg : ∀ a b, x = .ok a → y = .ok b → R a b → Alike S (f a) (g b)) :
    Alike S (x >>= f) (y >>= g) := by
  cases x <;> cases y
  case ok.ok => exact hfg _ _ rfl rfl h
  case error.error => exact h
  all_goals exact h.elim

theorem map {α β γ δ : Type*} {R : α → β → Prop} {S : γ → δ → Prop} {x : Except ε α}
    {y : Except ε β} {f : α → γ} {g : β → δ} (h : Alike R x y)
    (hfg : ∀ a b, x = .ok a → y = .ok b → R a b → S (f a) (g b)) : Alike S (x.map f) (y.map g) := by
  cases x <;> cases y
  case ok.ok => exact hfg _ _ rfl rfl h
  case error.error => exact h
  all_goals exact h.elim

end Alike

section

variable {step : σ → Except ε σ} {step' : τ → Except ε τ} {R : σ → τ → Prop}

/-- **Lockstep rule, along a run.** Steps from related states end alike wherever the second machine
    meets `C`, and it meets `C` in every state it steps from. -/
theorem alike_steps_along (C : τ → Prop)
    (hstep : ∀ s t, R s t → C t → Alike R (step s) (step' t)) {s : σ} {t : τ} (h : R s t) {n : ℕ}
    (hC : ∀ k < n, ∀ u, steps step' k t = .ok u → C u) :
    Alike R (steps step n s) (steps step' n t) := by
  induction n with
  | zero => exact h
  | succ n ih =>
      have hprefix := ih fun k hk => hC k (Nat.lt_succ_of_lt hk)
      exact hprefix.bind fun a b _ hb hab => hstep a b hab (hC n (Nat.lt_succ_self n) b hb)

/-- **Exact lockstep rule.** If steps from related states end alike up to the relation, and the
    relation survives a step exactly when the second machine leaves a state with `Q`, then the runs
    end alike, at every length up to `n`, exactly when every step the second machine completes is
    made from a state with `Q`. -/
theorem alike_steps_iff {Q : τ → Prop}
    (hstep : ∀ s t, R s t → Alike (fun s' t' => R s' t' ↔ Q t) (step s) (step' t)) {s : σ} {t : τ}
    (h : R s t) (n : ℕ) :
    (∀ k ≤ n, Alike R (steps step k s) (steps step' k t)) ↔
      ∀ k < n, ∀ u u', steps step' k t = .ok u → step' u = .ok u' → Q u := by
  constructor
  · intro hrun k hk u u' hu hu'
    -- the first machine is at a related state, and steps to a related state
    have hhere := hrun k (Nat.le_of_lt hk)
    have hnext := hrun (k + 1) hk
    rw [hu] at hhere
    obtain ⟨a, ha, hR⟩ := hhere.exists_left
    have hboth := hstep a u hR
    rw [hu'] at hboth
    obtain ⟨a', ha', hiff⟩ := hboth.exists_left
    rw [steps_succ_ok.2 ⟨a, ha, ha'⟩, steps_succ_ok.2 ⟨u, hu, hu'⟩] at hnext
    exact hiff.1 hnext
  · intro hQ k hk
    induction k with
    | zero => exact h
    | succ k ih =>
        refine (ih (Nat.le_of_succ_le hk)).bind fun a b ha hb hab => ?_
        exact (hstep a b hab).mono fun a' b' _ hb' hiff => hiff.2 (hQ k hk b b' hb hb')

end

end Basis
