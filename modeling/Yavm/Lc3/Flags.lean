import Mathlib.Tactic.IntervalCases
import Yavm.Lc3.Execute

set_option autoImplicit false

/-! # Condition codes

`registers[R_COND]` is meant to hold the sign of the last result. `recordResult` is a history
variable for that result, and `FlagLaw` the invariant. The handlers of `AND` and `LDI` end without
`updateFlags`, so the invariant survives an `AND` or `LDI` only when the stale condition code
happens to be right for the new result (`FlagsKept`); `flagLaw_step_iff` shows that no other
instruction can break it and `flagLaw_run_iff` carries this to whole runs.

`BR` does not read the condition codes at all. `branchLaw_iff` compares it with the branch of the
instruction set, taken on the sign of the value the previous instruction has just written. -/

namespace Yavm.Lc3

open Basis

/-! ## The last result -/

/-- History variable: the word the most recent `ADD`, `AND`, `NOT`, `LD`, `LDI`, `LDR` or `LEA`
    wrote to its destination register. -/
def recordResult (s t : State) (last : Option Word) : Option Word :=
  match fetch s with
  | .ok (w, _) => if (Op.decode w).hasDest then some (t.registers (destOf w)) else last
  | .error _ => last

/-- Once there is a result, `registers[R_COND]` encodes its two's-complement sign. -/
def FlagLaw (p : State × Option Word) : Prop :=
  ∀ v, p.2 = some v → p.1.registers .cond = (sign v).code

/-- The word an `AND` or an `LDI` is about to write, from the state it is dispatched in. -/
def unflaggedResult (instruction : Word) (s : State) : Option Word :=
  match Op.decode instruction with
  | .and => some (s.registers (baseOf instruction) &&& operand2 instruction s)
  | .ldi =>
    match memoryRead (pcRelative instruction s) s with
    | .ok (pointer, s) => (memoryRead pointer s).toOption.map Prod.fst
    | .error _ => none
  | _ => none

/-- The next instruction is neither `AND` nor `LDI`, or the condition code it leaves behind already
    is the sign of the conjunction of its operands, or of the word it loads. -/
def FlagsKept (s : State) : Prop :=
  ∀ w s₁, fetch s = .ok (w, s₁) →
    ∀ v, unflaggedResult w s₁ = some v → s.registers .cond = (sign v).code

theorem recordResult_eq {s s₁ t : State} {w : Word} (last : Option Word)
    (h : fetch s = .ok (w, s₁)) :
    recordResult s t last
      = if (Op.decode w).hasDest then some (t.registers (destOf w)) else last := by
  rw [recordResult, h]

/-! ## One step -/

theorem updatesFlags_hasDest {op : Op} (h : op.updatesFlags = true) : op.hasDest = true := by
  cases op <;> first | rfl | exact absurd h (by decide)

theorem writesReg_of_hasDest {w : Word} (h : (Op.decode w).hasDest = true) :
    writesReg w = some (destOf w) := by
  unfold writesReg
  cases hop : Op.decode w <;> first | rfl | exact absurd (hop ▸ h) (by decide)

theorem hasDest_cases {op : Op} (h : op.hasDest = true) :
    op.updatesFlags = true ∨ op = .and ∨ op = .ldi := by
  cases op <;> first | exact absurd h (by decide) | decide

/-- An instruction with a destination register writes some value to it. -/
theorem Trip.exists_dest {s t : State} {w : Word} {e : Effect} (h : Trip s w e t)
    (hdest : (Op.decode w).hasDest = true) :
    ∃ v, e.dest = some (destOf w, v) ∧ t.registers (destOf w) = v := by
  have hfits := h.fits.dest
  rw [writesReg_of_hasDest hdest] at hfits
  obtain ⟨⟨r, v⟩, hd, hr⟩ := Option.map_eq_some_iff.1 hfits
  obtain rfl : r = destOf w := hr
  exact ⟨v, hd, h.general_dest hd⟩

/-- A handler that calls `updateFlags` leaves the sign of its result. -/
theorem Trip.cond_of_updatesFlags {s t : State} {w : Word} {e : Effect} (h : Trip s w e t)
    (hop : (Op.decode w).updatesFlags = true) :
    t.registers .cond = (sign (t.registers (destOf w))).code := by
  obtain ⟨v, hd, hv⟩ := h.exists_dest (updatesFlags_hasDest hop)
  rw [h.cond, h.fits.cond, if_pos hop, hd, hv]
  rfl

/-- `AND` and `LDI` write what they were about to write. -/
theorem unflaggedResult_eq {s s₁ t : State} {w : Word} (h : Executes s w t)
    (hfetch : fetch s = .ok (w, s₁)) (hop : Op.decode w = .and ∨ Op.decode w = .ldi) :
    unflaggedResult w s₁ = some (t.registers (destOf w)) := by
  obtain ⟨s₁', e, s₂, hfetch', hplan, hread₁, hread₂, hfits, hcommit⟩ := h.cases
  obtain rfl : s₁' = s₁ := by simpa [hfetch'] using hfetch
  have htrip := trip_of_commits hread₁ hread₂ hfits hcommit
  rcases hop with hop | hop
  · simp only [plan, hop, Except.ok.injEq, Prod.mk.injEq] at hplan
    obtain ⟨rfl, rfl⟩ := hplan
    rw [htrip.general_dest rfl, unflaggedResult, hop]
  · simp only [plan, hop, bind_eq_ok, map_eq_ok, Prod.exists, Prod.mk.injEq] at hplan
    obtain ⟨pointer, u, hpointer, v, u', hvalue, rfl, rfl⟩ := hplan
    rw [htrip.general_dest rfl, unflaggedResult, hop]
    simp only [hpointer, hvalue]
    rfl

theorem unflaggedResult_none {w : Word} (s : State) (hand : Op.decode w ≠ .and)
    (hldi : Op.decode w ≠ .ldi) : unflaggedResult w s = none := by
  unfold unflaggedResult
  split
  · next h => exact absurd h hand
  · next h => exact absurd h hldi
  · rfl

/-- **Step lemma.** From a state with the invariant, a step ends in a state with the invariant
    exactly when it is not an `AND` or `LDI` that leaves a wrong condition code behind. -/
theorem flagLaw_step_iff {p q : State × Option Word} (hlaw : FlagLaw p)
    (hstep : withHistory emulateStep recordResult p = .ok q) : FlagLaw q ↔ FlagsKept p.1 := by
  obtain ⟨hrun, hlast⟩ := withHistory_eq_ok.1 hstep
  obtain ⟨-, w, hexec⟩ := emulateStep_eq_ok.1 hrun
  obtain ⟨s₁, hfetch, -⟩ := id hexec
  obtain ⟨e, htrip⟩ := hexec.trip
  rw [recordResult_eq _ hfetch] at hlast
  have hkept : FlagsKept p.1 ↔
      ∀ v, unflaggedResult w s₁ = some v → p.1.registers .cond = (sign v).code :=
    forall_ok hfetch
  rw [hkept]
  by_cases hdest : (Op.decode w).hasDest = true
  · rw [if_pos hdest] at hlast
    have hlaw' : FlagLaw q ↔
        q.1.registers .cond = (sign (q.1.registers (destOf w))).code := by
      simp only [FlagLaw, hlast, Option.some.injEq, forall_eq']
    rw [hlaw']
    rcases hasDest_cases hdest with hop | hop
    · -- a handler that calls `updateFlags`: nothing is unflagged
      have hnone : unflaggedResult w s₁ = none :=
        unflaggedResult_none s₁ (fun h => absurd (h ▸ hop) (by decide))
          (fun h => absurd (h ▸ hop) (by decide))
      refine iff_of_true (htrip.cond_of_updatesFlags hop) (fun v hv => ?_)
      simp [hnone] at hv
    · -- `AND` and `LDI`: the stale code is judged by the result
      have hstale : (Op.decode w).updatesFlags = false := by
        rcases hop with hop | hop <;> rw [hop] <;> rfl
      rw [htrip.cond_same hstale, unflaggedResult_eq hexec hfetch hop]
      simp
  · -- no destination register: neither the last result nor the code changes
    rw [if_neg hdest] at hlast
    have hop : (Op.decode w).updatesFlags = false :=
      Bool.eq_false_iff.2 fun h => hdest (updatesFlags_hasDest h)
    have hnone : unflaggedResult w s₁ = none :=
      unflaggedResult_none s₁ (fun h => hdest (by rw [h]; rfl)) (fun h => hdest (by rw [h]; rfl))
    refine iff_of_true (fun v hv => ?_) (fun v hv => ?_)
    · rw [htrip.cond_same hop]
      exact hlaw v (hlast ▸ hv)
    · simp [hnone] at hv

/-! ## Whole runs -/

/-- In every run of `emulate`, from any state and of any length, the condition code is the sign of
    the last result in every state reached if and only if no `AND` and no `LDI` is executed that
    finds another condition code than the sign of its own result. -/
theorem flagLaw_run_iff {s₀ s : State} {n : ℕ} (hrun : steps emulateStep n s₀ = .ok s) :
    (∀ k ≤ n, ∀ p, steps (withHistory emulateStep recordResult) k (s₀, none) = .ok p → FlagLaw p) ↔
      (∀ k < n, ∀ t, steps emulateStep k s₀ = .ok t → FlagsKept t) := by
  obtain ⟨last, hhistory⟩ := exists_history recordResult none hrun
  have hstart : FlagLaw (s₀, none) := by
    intro v hv
    simp at hv
  rw [forall_steps_iff (P := fun _ => FlagLaw) (Q := fun p => FlagsKept p.1) hstart hhistory
    fun _ _ _ _ _ hlaw hstep => flagLaw_step_iff hlaw hstep]
  exact forall₂_congr fun _ _ => forall_history_iff

/-- `ADD R0, R0, #-1`, `AND R1, R0, R0`, `NOT R2, R1`: the `AND` writes a negative word and finds
    `FL_NEG`, so the invariant holds all along. -/
theorem flagLaw_run_iff_and :
    ∃ s₀ s, Booted s₀ ∧ steps emulateStep 3 s₀ = .ok s ∧
      ∀ k ≤ 3, ∀ p, steps (withHistory emulateStep recordResult) k (s₀, none) = .ok p →
        FlagLaw p := by
  have hstart : ∃ s₀ s, Booted s₀ ∧ steps emulateStep 3 s₀ = .ok s ∧
      ∀ k < 3, ∀ t, steps emulateStep k s₀ = .ok t → FlagsKept t := by
    refine ⟨_, _, ⟨some (imageFile 0x3000 [0x103F, 0x5200, 0x947F]), 0, noInput, rfl⟩, rfl, ?_⟩
    intro k hk t ht
    interval_cases k
    all_goals obtain rfl := Except.ok.inj ht
    · exact (forall_ok rfl).2 fun v hv => absurd hv.symm (Option.some_ne_none v)
    · refine (forall_ok rfl).2 fun v hv => ?_
      obtain rfl := Option.some.inj hv
      rfl
    · exact (forall_ok rfl).2 fun v hv => absurd hv.symm (Option.some_ne_none v)
  obtain ⟨s₀, s, hboot, hrun, hkept⟩ := hstart
  exact ⟨s₀, s, hboot, hrun, (flagLaw_run_iff hrun).2 hkept⟩

/-- `AND R0, R0, #0` as the first instruction writes 0 and leaves `FL_POS`. -/
theorem flagLaw_broken_by_and :
    ∃ s₀ p, Booted s₀ ∧ steps (withHistory emulateStep recordResult) 1 (s₀, none) = .ok p ∧
      ¬ FlagLaw p := by
  refine ⟨_, _, ⟨some (imageFile 0x3000 [0x5020]), 0, noInput, rfl⟩, rfl, fun h => ?_⟩
  exact absurd (h 0 rfl) (by decide)

/-! ## `BR` -/

/-- The branch of the instruction set is taken: a condition bit n, z or p is set for the sign of
    `v`. -/
def Taken (instruction v : Word) : Prop :=
  (instruction.getLsbD 11 = true ∧ v.toInt < 0) ∨ (instruction.getLsbD 10 = true ∧ v = 0) ∨
    (instruction.getLsbD 9 = true ∧ 0 < v.toInt)

instance (instruction v : Word) : Decidable (Taken instruction v) := by
  unfold Taken
  infer_instance

/-- The instruction set's meaning of a `BR` word executed from `s` to `t` after a result `v`. -/
structure BranchLaw (v instruction : Word) (s t : State) : Prop where
  pc : t.registers .pc
    = if Taken instruction v then s.registers .pc + 1 + sext 9 instruction else s.registers .pc + 1
  registers : ∀ r, r ≠ .pc → t.registers r = s.registers r
  memory : t.memory = s.memory

/-- Where ignoring the condition codes makes no difference: no condition bit is set, or the offset
    is zero, or the bit for the sign of `v` is set. -/
def BranchAgrees (instruction v : Word) : Prop :=
  anyCondition instruction = false ∨ instruction.setWidth 9 = 0#9 ∨ Taken instruction v

theorem anyCondition_of_taken {w v : Word} (h : Taken w v) : anyCondition w = true := by
  rcases h with ⟨h, -⟩ | ⟨h, -⟩ | ⟨h, -⟩ <;> simp [anyCondition, h]

/-- Where `BR` goes. -/
theorem br_pc {s t : State} {w : Word} (h : Executes s w t) (hop : Op.decode w = .br) :
    t.registers .pc
      = if anyCondition w = true then s.registers .pc + 1 + sext 9 w else s.registers .pc + 1 := by
  have hbr : ∀ s₁, plan w s₁ = .ok (brEffect w s₁, s₁) := fun s₁ => by rw [plan, hop]
  obtain ⟨s₁, hfetch, htrip, -⟩ := h.trip_of_plan hbr
  rw [htrip.pc, brEffect, pcRelative, (fetch_fetched hfetch).pc]
  split <;> rfl

theorem br_frame {s t : State} {w : Word} (h : Executes s w t) (hop : Op.decode w = .br) :
    (∀ r, r ≠ .pc → t.registers r = s.registers r) ∧ t.memory = s.memory := by
  obtain ⟨e, htrip⟩ := h.trip
  refine ⟨fun r hr => htrip.registers_same ?_ (by rw [hop]; rfl) hr, htrip.memory_same ?_⟩
  · rw [writesReg, hop]
  · rw [hop]
    rfl

/-- For every state, every result `v` just written by a handler that calls `updateFlags` and every
    `BR` word that follows, the machine branches as the instruction set says if and only if no
    condition bit is set, or the offset is zero, or the bit for the sign of `v` is set. -/
theorem branchLaw_iff {s s₁ s₂ : State} {w₁ w₂ : Word} (h₁ : Executes s w₁ s₁)
    (hflags : (Op.decode w₁).updatesFlags = true) (h₂ : Executes s₁ w₂ s₂)
    (hbr : Op.decode w₂ = .br) :
    (s₁.registers .cond = (sign (s₁.registers (destOf w₁))).code) ∧
      (BranchLaw (s₁.registers (destOf w₁)) w₂ s₁ s₂ ↔
        BranchAgrees w₂ (s₁.registers (destOf w₁))) := by
  obtain ⟨e, htrip⟩ := h₁.trip
  refine ⟨htrip.cond_of_updatesFlags hflags, ?_⟩
  have hpc := br_pc h₂ hbr
  obtain ⟨hregs, hmem⟩ := br_frame h₂ hbr
  generalize s₁.registers (destOf w₁) = v
  have hoffset : s₁.registers .pc + 1 + sext 9 w₂ = s₁.registers .pc + 1 ↔ w₂.setWidth 9 = 0#9 := by
    rw [BitVec.add_right_eq_self]
    exact signExtend_eq_zero_iff (by decide) _
  have hlaw : BranchLaw v w₂ s₁ s₂ ↔ s₂.registers .pc
      = if Taken w₂ v then s₁.registers .pc + 1 + sext 9 w₂ else s₁.registers .pc + 1 :=
    ⟨BranchLaw.pc, fun h => ⟨h, hregs, hmem⟩⟩
  rw [hlaw, hpc, BranchAgrees, ← hoffset]
  -- the machine branches whenever some condition bit is set, so it can only branch too often
  by_cases htaken : Taken w₂ v
  · rw [if_pos (anyCondition_of_taken htaken), if_pos htaken]
    exact iff_of_true rfl (Or.inr (Or.inr htaken))
  · by_cases hany : anyCondition w₂ = true
    · rw [if_pos hany, if_neg htaken]
      simp [hany, htaken]
    · rw [if_neg hany, if_neg htaken]
      exact iff_of_true rfl (Or.inl (Bool.eq_false_iff.2 hany))

/-- The equivalence on `ADD R0, R0, #0` followed by `BRz #1`. -/
theorem branchLaw_iff_brz :
    ∃ s s₁ s₂, Executes s 0x1020 s₁ ∧ Executes s₁ 0x0401 s₂ ∧
      s₁.registers .cond = (sign (s₁.registers (destOf 0x1020))).code ∧
      (BranchLaw (s₁.registers (destOf 0x1020)) 0x0401 s₁ s₂ ↔
        BranchAgrees 0x0401 (s₁.registers (destOf 0x1020))) := by
  let s : State := { emulateStart (initialState noInput) with
    memory := fun i => if i = 0x3000 then 0x1020 else if i = 0x3001 then 0x0401 else 0 }
  have h₁ : ∃ s₁, Executes s 0x1020 s₁ ∧ ∃ s₂, Executes s₁ 0x0401 s₂ :=
    ⟨_, ⟨_, rfl, rfl⟩, _, ⟨_, rfl, rfl⟩⟩
  obtain ⟨s₁, h₁, s₂, h₂⟩ := h₁
  exact ⟨s, s₁, s₂, h₁, h₂, branchLaw_iff h₁ rfl h₂ rfl⟩

/-- `ADD R0, R0, #0` writes 0, and the `BRn #1` that follows is taken all the same. -/
theorem branchLaw_broken_by_brn :
    ∃ s s₁ s₂, Executes s 0x1020 s₁ ∧ Executes s₁ 0x0801 s₂ ∧
      ¬ BranchLaw (s₁.registers (destOf 0x1020)) 0x0801 s₁ s₂ := by
  let s : State := { emulateStart (initialState noInput) with
    memory := fun i => if i = 0x3000 then 0x1020 else if i = 0x3001 then 0x0801 else 0 }
  refine ⟨s, _, _, ⟨_, rfl, rfl⟩, ⟨_, rfl, rfl⟩, fun h => ?_⟩
  exact absurd h.pc (by decide)

end Yavm.Lc3
