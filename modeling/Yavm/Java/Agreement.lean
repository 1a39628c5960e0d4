import Mathlib.Tactic.IntervalCases
import Yavm.Java.Machine
import Yavm.Lc3.Inert

set_option autoImplicit false

/-! # The Java machine against the C machine

Both programs are meant to be the same virtual machine. `Agree` is what that asks of a pair of
states, each read with its own encoding of the condition codes. The arms of the Java `switch` are
empty, so the two machines run in lock step exactly as long as the C machine executes instructions
that change nothing (`agreement_iff`). -/

namespace Yavm.Java

open Basis
open Lc3 (Reg Flag Word emulateStep)

/-- The Java state is the C state: the same registers and memory, the same output, and the same sign
    in the condition registers, each in its own encoding. -/
structure Agree (c : Lc3.State) (j : State) : Prop where
  general : ∀ r : Reg, r.General → j.registers r = (c.registers r).setWidth 32
  pc : j.registers .pc = (c.registers .pc).setWidth 32
  cond : ∀ f, c.registers .cond = f.code ↔ j.registers .cond = flagCode f
  memory : ∀ i : Fin Lc3.uint16Max, j.memory i.castSucc = (c.memory i).setWidth 32
  running : j.running = c.running
  stdout : j.stdout = c.stdout.map (BitVec.setWidth 16)

theorem setWidth_32_add_one {pc : Word} (h : pc ≠ 0xFFFF) :
    ((pc + 1).setWidth 32 : JavaInt) = pc.setWidth 32 + 1 := by
  have hlt : pc.toNat < 65535 := Lc3.lt_uint16Max_iff.2 h
  have hone : (1 : Word).toNat = 1 := rfl
  have hone' : (1 : JavaInt).toNat = 1 := rfl
  apply BitVec.eq_of_toNat_eq
  simp only [toNat_setWidth_32, BitVec.toNat_add, hone, hone']
  omega

/-- A step leaves the condition register alone or sets it to a flag. -/
theorem cond_same_or_flag {c c' : Lc3.State} (hstep : emulateStep c = .ok c') :
    c'.registers .cond = c.registers .cond ∨ ∃ f : Flag, c'.registers .cond = f.code := by
  obtain ⟨-, w, hexec⟩ := Lc3.emulateStep_eq_ok.1 hstep
  obtain ⟨e, htrip⟩ := hexec.trip
  rw [htrip.cond]
  cases e.cond with
  | none => exact Or.inl rfl
  | some f => exact Or.inr ⟨f, rfl⟩

/-- **Step lemma.** From states that agree, the machines step to states that agree exactly when the
    C machine changes nothing but its program counter. -/
theorem agree_step_iff {c c' : Lc3.State} {j : State} (h : Agree c j)
    (hstep : emulateStep c = .ok c') :
    (∃ j', mainStep j = .ok j' ∧ Agree c' j') ↔ Lc3.Unchanged c c' := by
  obtain ⟨hrun, w, s₁, hfetch, -⟩ := Lc3.emulateStep_eq_ok.1 hstep
  have hnext := mainStep_eq_ok (h.running.trans hrun) h.pc
  have hpc : j.registers .pc + 1 = (c.registers .pc + 1).setWidth 32 := by
    rw [h.pc, setWidth_32_add_one (Lc3.ne_top_of_memoryRead hfetch)]
  have hreg : ∀ {r : Reg}, r ≠ .pc →
      (j.setReg .pc (j.registers .pc + 1)).registers r = j.registers r := fun hr =>
    j.setReg_other _ hr
  rw [hnext]
  constructor
  -- the Java step only increments the program counter, so agreeing with it is changing nothing
  · rintro ⟨j', hj', hagree⟩
    obtain rfl := Except.ok.inj hj'
    refine ⟨fun r hr => ?_, ?_, ?_, ?_, ?_, ?_⟩
    · rw [← setWidth_32_inj, ← hagree.general r hr, hreg hr.ne_pc, h.general r hr]
    · rcases cond_same_or_flag hstep with hsame | ⟨f, hf⟩
      · exact hsame
      -- a flag the C machine sets is the one the Java machine still has
      · have hj := (hagree.cond f).1 hf
        rw [hreg Reg.cond_ne_pc] at hj
        rw [hf, (h.cond f).2 hj]
    · rw [← setWidth_32_inj, ← hagree.pc, ← hpc, State.setReg_self]
    · funext i
      rw [← setWidth_32_inj, ← hagree.memory i, ← h.memory i]
      rfl
    · rw [← hagree.running, ← h.running]
      rfl
    · have hout := hagree.stdout.symm.trans h.stdout
      exact List.map_injective_iff.2 (fun _ _ => Lc3.zeroExtend_inj.1) hout
  · intro hsame
    refine ⟨_, rfl, fun r hr => ?_, ?_, fun f => ?_, fun i => ?_, ?_, ?_⟩
    · rw [hreg hr.ne_pc, h.general r hr, hsame.general r hr]
    · rw [hsame.pc, ← hpc, State.setReg_self]
    · rw [hsame.cond, hreg Reg.cond_ne_pc, h.cond f]
    · rw [hsame.memory, ← h.memory i]
      rfl
    · rw [hsame.running, ← h.running]
      rfl
    · rw [hsame.stdout, ← h.stdout]
      rfl

/-- For all states that agree at the start, with any memory, registers and input, and every run of
    `n` iterations of `emulate`: after each number of iterations the Java loop has made them too and
    the states agree, if and only if every instruction the C machine executes changes nothing. -/
theorem agreement_iff {c₀ c : Lc3.State} {j₀ : State} {n : ℕ} (h : Agree c₀ j₀)
    (hrun : steps emulateStep n c₀ = .ok c) :
    (∀ k ≤ n, ∀ c, steps emulateStep k c₀ = .ok c →
        ∃ j, steps mainStep k j₀ = .ok j ∧ Agree c j) ↔
      (∀ k < n, ∀ c, steps emulateStep k c₀ = .ok c → Lc3.NextInert c) := by
  refine forall_steps_iff (P := fun k c => ∃ j, steps mainStep k j₀ = .ok j ∧ Agree c j)
    ⟨j₀, rfl, h⟩ hrun fun k _ c c' _ hagree hstep => ?_
  obtain ⟨j, hj, hagree⟩ := hagree
  rw [← Lc3.unchanged_iff_inert hstep, ← agree_step_iff hagree hstep]
  have hsucc : steps mainStep (k + 1) j₀ = mainStep j := by
    rw [steps, hj]
    rfl
  rw [hsucc]

/-! ## Starting both machines -/

/-- The Java state with the contents of a C state, whose condition register denotes `f`. -/
def ofLc3 (c : Lc3.State) (f : Flag) : State where
  memory := fun i => if h : i.val < Lc3.uint16Max then (c.memory ⟨i, h⟩).setWidth 32 else 0
  registers := fun r => if r = .cond then flagCode f else (c.registers r).setWidth 32
  running := c.running
  stdout := c.stdout.map (BitVec.setWidth 16)

theorem flagCode_injective : Function.Injective flagCode := by
  intro a b h
  cases a <;> cases b <;> first | rfl | exact absurd h (by decide)

theorem agree_ofLc3 {c : Lc3.State} {f : Flag} (h : c.registers .cond = f.code) :
    Agree c (ofLc3 c f) where
  general := fun _ hr => if_neg hr.ne_cond
  pc := by simp [ofLc3]
  cond := fun g => by
    rw [h, Lc3.Flag.code_injective.eq_iff]
    exact flagCode_injective.eq_iff.symm
  memory := fun i => dif_pos i.isLt
  running := rfl
  stdout := rfl

/-- `RTI`, `AND R0, R0, #0` with 0 in `R0`, a branch without conditions: the machines run in lock
    step. -/
theorem agreement_iff_idle :
    ∃ c₀ c j₀, Lc3.Booted c₀ ∧ Agree c₀ j₀ ∧ steps emulateStep 3 c₀ = .ok c ∧
      ∀ k ≤ 3, ∀ c, steps emulateStep k c₀ = .ok c →
        ∃ j, steps mainStep k j₀ = .ok j ∧ Agree c j := by
  have hstart : ∃ c₀ c, Lc3.Booted c₀ ∧ Agree c₀ (ofLc3 c₀ .pos) ∧
      steps emulateStep 3 c₀ = .ok c ∧
      ∀ k < 3, ∀ c, steps emulateStep k c₀ = .ok c → Lc3.NextInert c := by
    refine ⟨_, _, ⟨some (Lc3.imageFile 0x3000 [0x8000, 0x5020, 0x0001]), 0, Lc3.noInput, rfl⟩,
      agree_ofLc3 rfl, rfl, ?_⟩
    intro k hk c hc
    interval_cases k
    all_goals obtain rfl := Except.ok.inj hc
    · exact (forall_ok rfl).2 trivial
    · exact (forall_ok rfl).2 rfl
    · exact (forall_ok rfl).2 (Or.inl rfl)
  obtain ⟨c₀, c, hboot, hagree, hrun, hinert⟩ := hstart
  exact ⟨c₀, c, _, hboot, hagree, hrun, (agreement_iff hagree hrun).2 hinert⟩

/-- On `HALT` the C machine prints and stops; the Java machine goes on. -/
theorem agreement_broken_by_halt :
    ∃ c₀ c j₀, Lc3.Booted c₀ ∧ Agree c₀ j₀ ∧ steps emulateStep 1 c₀ = .ok c ∧
      ¬ ∃ j, steps mainStep 1 j₀ = .ok j ∧ Agree c j := by
  refine ⟨_, _, _, ⟨some (Lc3.imageFile 0x3000 [0xF025]), 0, Lc3.noInput, rfl⟩,
    agree_ofLc3 (f := .pos) rfl, rfl, ?_⟩
  intro h
  obtain ⟨j, hj, hagree⟩ := h
  obtain rfl := Except.ok.inj hj
  exact absurd hagree.running (by decide)

end Yavm.Java
