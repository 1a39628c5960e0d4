import Yavm.Lc3.Coherence

set_option autoImplicit false

/-! # The memory-mapped display

`memoryRead` answers `MR_DSR` with "ready", and `memoryWrite` treats `MR_DDR` as an ordinary cell.
`recordDisplay` is a history variable with the characters a program displays, by its traps and by
its stores to `MR_DDR`, in program order. `displayLaw_run_iff` shows that standard output agrees
with it exactly in the runs without such a store. -/

namespace Yavm.Lc3

open Basis

/-- What an instruction displays: the low byte of a word stored to `MR_DDR`, or what a trap
    prints. -/
def displayOf (instruction : Word) (s s₁ t : State) : List Byte :=
  match storeOf instruction s₁ with
  | some (a, v) => if a = mrDdr then [lowByte v] else []
  | none => if Op.decode instruction = .trap then t.stdout.drop s.stdout.length else []

/-- History variable: the characters displayed so far. -/
def recordDisplay (s t : State) (shown : List Byte) : List Byte :=
  match fetch s with
  | .ok (w, s₁) => shown ++ displayOf w s s₁ t
  | .error _ => shown

/-- Standard output has the characters displayed, once each and in order. -/
def DisplayLaw (p : State × List Byte) : Prop :=
  p.1.stdout = p.2

/-- The next instruction is an `ST`, `STI` or `STR` to `MR_DDR`. -/
def StoresToDisplay (s : State) : Prop :=
  ∃ w s₁ v, fetch s = .ok (w, s₁) ∧ storeOf w s₁ = some (mrDdr, v)

/-- `MR_DSR` always says "ready". -/
theorem memoryRead_dsr (s : State) :
    memoryRead mrDsr s = .ok (statusBit, s.record (.read mrDsr statusBit)) :=
  rfl

theorem storesToDisplay_iff {s s₁ : State} {w : Word} (h : fetch s = .ok (w, s₁)) :
    StoresToDisplay s ↔ ∃ v, storeOf w s₁ = some (mrDdr, v) := by
  constructor
  · intro ⟨w', s', v, hfetch, hstore⟩
    obtain ⟨rfl, rfl⟩ := Prod.mk.inj (Except.ok.inj (h.symm.trans hfetch))
    exact ⟨v, hstore⟩
  · intro ⟨v, hstore⟩
    exact ⟨w, s₁, v, h, hstore⟩

/-- What an iteration prints is what it displays, unless it stores to `MR_DDR`. -/
theorem Executes.display_iff {s t : State} {w : Word} (h : Executes s w t) :
    ∃ s₁, fetch s = .ok (w, s₁) ∧
      (t.stdout = s.stdout ++ displayOf w s s₁ t ↔ ¬ StoresToDisplay s) := by
  obtain ⟨s₁, e, s₂, hfetch, hplan, hread₁, hread₂, hfits, hcommit⟩ := h.cases
  have hout := (trip_of_commits hread₁ hread₂ hfits hcommit).stdout
  have hstore := plan_store hplan
  refine ⟨s₁, hfetch, ?_⟩
  rw [storesToDisplay_iff hfetch, displayOf, ← hstore]
  cases hcase : e.store with
  | none =>
      refine iff_of_true ?_ (by simp)
      change t.stdout = s.stdout
        ++ if Op.decode w = .trap then t.stdout.drop s.stdout.length else []
      by_cases htrap : Op.decode w = .trap
      · rw [if_pos htrap, hout, List.drop_left]
      · rw [if_neg htrap, hout, hfits.silent htrap]
  | some d =>
      obtain ⟨a, v⟩ := d
      -- a store prints nothing, so the two agree only when there is nothing to display
      have htrap : Op.decode w ≠ .trap := by
        intro htrap
        have hstores := hfits.store
        simp [hcase, htrap, Op.stores] at hstores
      rw [hout, hfits.silent htrap]
      by_cases hddr : a = mrDdr <;> simp [hddr]

/-- **Step lemma.** From a state whose output agrees with what was displayed, a step ends in such a
    state exactly when it does not store to `MR_DDR`. -/
theorem displayLaw_step_iff {p q : State × List Byte} (hlaw : DisplayLaw p)
    (hstep : withHistory emulateStep recordDisplay p = .ok q) :
    DisplayLaw q ↔ ¬ StoresToDisplay p.1 := by
  obtain ⟨hrun, hhistory⟩ := withHistory_eq_ok.1 hstep
  obtain ⟨-, w, hexec⟩ := emulateStep_eq_ok.1 hrun
  obtain ⟨s₁, hfetch, hdisplay⟩ := hexec.display_iff
  rw [DisplayLaw, hhistory, recordDisplay, hfetch, ← hlaw]
  exact hdisplay

/-- For every run of `emulate` on any image and input: reading `MR_DSR` always answers "ready"; and
    in every state reached standard output consists of the characters stored to `MR_DDR` and those
    printed by the traps, once each and in program order, if and only if no instruction of the run
    stores to `MR_DDR`. -/
theorem displayLaw_run_iff {s₀ s : State} {n : ℕ} (hboot : Booted s₀)
    (hrun : steps emulateStep n s₀ = .ok s) :
    (∀ u, ∃ u', memoryRead mrDsr u = .ok (statusBit, u')) ∧
      ((∀ k ≤ n, ∀ p, steps (withHistory emulateStep recordDisplay) k (s₀, []) = .ok p →
          DisplayLaw p) ↔
        (∀ k < n, ∀ t, steps emulateStep k s₀ = .ok t → ¬ StoresToDisplay t)) := by
  refine ⟨fun u => ⟨_, memoryRead_dsr u⟩, ?_⟩
  obtain ⟨shown, hhistory⟩ := exists_history recordDisplay [] hrun
  have hstart : DisplayLaw (s₀, []) := hboot.stdout
  rw [forall_steps_iff (P := fun _ => DisplayLaw) (Q := fun p => ¬ StoresToDisplay p.1) hstart
    hhistory fun k hk p q hp hlaw hstep => displayLaw_step_iff hlaw hstep]
  exact forall₂_congr fun _ _ => forall_history_iff (Q := fun t => ¬ StoresToDisplay t)

/-- `LD R0, #2`, `STI R0, #2` and `HALT`, with the letter A and the address of `MR_DDR` behind
    them. -/
def displayImage : List Byte :=
  imageFile 0x3000 [0x2002, 0xB002, 0xF025, 0x0041, 0xFE06]

/-- The equivalence on two steps of the program that displays a letter. -/
theorem displayLaw_run_iff_letter :
    ∃ s₀ s, boot (some displayImage) 0 noInput = .ok s₀ ∧ steps emulateStep 2 s₀ = .ok s ∧
      (∀ u, ∃ u', memoryRead mrDsr u = .ok (statusBit, u')) ∧
      ((∀ k ≤ 2, ∀ p, steps (withHistory emulateStep recordDisplay) k (s₀, []) = .ok p →
          DisplayLaw p) ↔
        (∀ k < 2, ∀ t, steps emulateStep k s₀ = .ok t → ¬ StoresToDisplay t)) := by
  have hrun : ∃ s₀ s, boot (some displayImage) 0 noInput = .ok s₀ ∧
      steps emulateStep 2 s₀ = .ok s := ⟨_, _, rfl, rfl⟩
  obtain ⟨s₀, s, hboot, hsteps⟩ := hrun
  exact ⟨s₀, s, hboot, hsteps, displayLaw_run_iff ⟨_, _, _, hboot⟩ hsteps⟩

/-- After the `STI` the letter should have been displayed, and nothing has been printed. -/
theorem displayLaw_broken_by_sti :
    ∃ s₀ p, Booted s₀ ∧ steps (withHistory emulateStep recordDisplay) 2 (s₀, []) = .ok p ∧
      p.2 = ascii "A" ∧ p.1.stdout = [] ∧ ¬ DisplayLaw p := by
  have hrun : ∃ s₀ p, Booted s₀ ∧
      steps (withHistory emulateStep recordDisplay) 2 (s₀, []) = .ok p ∧ p.2 = ascii "A" ∧
      p.1.stdout = [] :=
    ⟨_, _, ⟨some displayImage, 0, noInput, rfl⟩, rfl, rfl, rfl⟩
  obtain ⟨s₀, p, hboot, hsteps, hshown, hprinted⟩ := hrun
  refine ⟨s₀, p, hboot, hsteps, hshown, hprinted, fun h => ?_⟩
  rw [DisplayLaw, hshown, hprinted] at h
  exact absurd h (by decide)

end Yavm.Lc3
