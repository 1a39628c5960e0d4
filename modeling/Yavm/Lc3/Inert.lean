import Yavm.Lc3.Bounds
import Yavm.Lc3.Linkage
import Yavm.Lc3.Strings

set_option autoImplicit false

/-! # Iterations that change nothing

An iteration that only increments the program counter. `Inert` says of every instruction when it is
one: no branch taken, the value written already in its register, the word stored already in its
cell, a jump to the next instruction, nothing printed. `unchanged_iff_inert` is the exactness. -/

namespace Yavm.Lc3

open Basis

/-- From `s` to `t` only the program counter moved, by one; the input and the ghost record aside. -/
structure Unchanged (s t : State) : Prop where
  general : ∀ r, r.General → t.registers r = s.registers r
  cond : t.registers .cond = s.registers .cond
  pc : t.registers .pc = s.registers .pc + 1
  memory : t.memory = s.memory
  running : t.running = s.running
  stdout : t.stdout = s.stdout

/-- Register `r` holds `v`, and the condition code is the sign of `v`. -/
def State.Flagged (s : State) (r : Reg) (v : Word) : Prop :=
  s.registers r = v ∧ s.registers .cond = (sign v).code

/-- The cell at `a` holds `v`. -/
def State.Holds (s : State) (a v : Word) : Prop :=
  ∀ h : a.toNat < uint16Max, s.memory ⟨a.toNat, h⟩ = v

/-- The traps that change nothing, in the state they are dispatched in. -/
def InertTrap (instruction : Word) (s : State) : Prop :=
  match TrapCode.decode instruction with
  | some .getc => ∀ c t, getchar s = .ok (c, t) → s.registers .r0 = charCode c
  | some .puts | some .putsp => s.Holds (s.registers .r0) 0
  | some .out | some .in | some .halt => False
  | none => True

/-- The instructions that change nothing, in the state they are dispatched in. -/
def Inert (instruction : Word) (s : State) : Prop :=
  match Op.decode instruction with
  | .add => s.Flagged (destOf instruction)
      (s.registers (baseOf instruction) + operand2 instruction s)
  | .not => s.Flagged (destOf instruction) (~~~s.registers (baseOf instruction))
  | .lea => s.Flagged (destOf instruction) (pcRelative instruction s)
  | .ld => s.Flagged (destOf instruction) (peek (pcRelative instruction s) s)
  | .ldr => s.Flagged (destOf instruction) (peek (baseOffset instruction s) s)
  | .and => s.registers (destOf instruction)
      = s.registers (baseOf instruction) &&& operand2 instruction s
  | .ldi => s.registers (destOf instruction) = peekIndirect (pcRelative instruction s) s
  | .st => s.Holds (pcRelative instruction s) (s.registers (destOf instruction))
  | .sti => s.Holds (peek (pcRelative instruction s) s) (s.registers (destOf instruction))
  | .str => s.Holds (baseOffset instruction s) (s.registers (destOf instruction))
  | .br => anyCondition instruction = false ∨ instruction.setWidth 9 = 0#9
  | .jmp => s.registers .r6 = s.registers .pc
  | .jsr => s.registers .r7 = s.registers .pc ∧
      if instruction.getLsbD 11 then instruction.setWidth 11 = 0#11
      else s.registers (baseOf instruction) = s.registers .pc
  | .trap => InertTrap instruction s
  | .rti | .res => True

/-- The next instruction changes nothing. -/
def NextInert (s : State) : Prop :=
  ∀ w s₁, fetch s = .ok (w, s₁) → Inert w s₁

/-! ## Effects that change nothing -/

/-- Committing `e` in `s` changes nothing. -/
structure Effect.Idle (e : Effect) (s : State) : Prop where
  dest : ∀ r v, e.dest = some (r, v) → s.registers r = v
  cond : ∀ f, e.cond = some f → s.registers .cond = f.code
  pc : ∀ v, e.pc = some v → s.registers .pc = v
  store : ∀ a v, e.store = some (a, v) → s.Holds a v
  output : e.output = []
  halt : e.halt = false

theorem Effect.memory_eq_iff (e : Effect) (s : State) :
    e.memory s.memory = s.memory ↔ ∀ a v, e.store = some (a, v) → s.Holds a v := by
  unfold Effect.memory
  cases e.store with
  | none => simp
  | some d =>
      obtain ⟨a, v⟩ := d
      have hone : (∀ b u, some (a, v) = some (b, u) → s.Holds b u) ↔ s.Holds a v := by
        refine ⟨fun h => h a v rfl, fun h b u hd => ?_⟩
        obtain ⟨rfl, rfl⟩ := Prod.mk.inj (Option.some.inj hd)
        exact h
      rw [hone]
      by_cases h : a.toNat < uint16Max
      · simp only [dif_pos h]
        refine ⟨fun heq _ => ?_, fun heq => ?_⟩
        · rw [← heq, Function.update_self]
        · rw [← heq h, Function.update_eq_self]
      · simp only [dif_neg h]
        exact iff_of_true trivial fun hlt => absurd hlt h

/-- An iteration changes nothing exactly when its effect is idle. -/
theorem unchanged_iff_idle {s s₁ t : State} {w : Word} {e : Effect} (hfetch : Fetched s s₁)
    (hrun : s.running = true) (htrip : Trip s w e t) : Unchanged s t ↔ e.Idle s₁ := by
  have hmem : s₁.memory = s.memory := hfetch.memory
  have hcond : s₁.registers .cond = s.registers .cond := by
    rw [hfetch.registers, State.setReg_registers, Function.update_of_ne Reg.cond_ne_pc]
  have hgeneral : (∀ r : Reg, r.General → t.registers r = s.registers r) ↔
      ∀ r v, e.dest = some (r, v) → s₁.registers r = v := by
    constructor
    · intro h r v hd
      have hr : r.General := writesReg_general (w := w) (by rw [← htrip.fits.dest, hd]; rfl)
      rw [hfetch.general hr, ← h r hr, htrip.general_dest hd]
    · intro h r hr
      rw [htrip.general r hr]
      cases hd : e.dest with
      | none => rfl
      | some d =>
          obtain ⟨d, v⟩ := d
          have hv := h d v hd
          -- the register written held the value already, the others are not touched
          by_cases hrd : r = d
          · subst hrd
            rw [hfetch.general hr] at hv
            simp [hv]
          · exact Function.update_of_ne hrd ..
  have hflag : t.registers .cond = s.registers .cond ↔
      ∀ f, e.cond = some f → s₁.registers .cond = f.code := by
    rw [htrip.cond, hcond]
    cases e.cond <;> simp [eq_comm]
  have hpc : t.registers .pc = s.registers .pc + 1 ↔
      ∀ v, e.pc = some v → s₁.registers .pc = v := by
    rw [htrip.pc, hfetch.pc]
    cases e.pc <;> simp [eq_comm]
  have hstore : t.memory = s.memory ↔ ∀ a v, e.store = some (a, v) → s₁.Holds a v := by
    rw [htrip.memory, ← hmem]
    exact e.memory_eq_iff s₁
  have hhalt : t.running = s.running ↔ e.halt = false := by
    rw [htrip.running, hrun]
    cases e.halt <;> simp
  have hout : t.stdout = s.stdout ↔ e.output = [] := by
    rw [htrip.stdout]
    simp
  constructor
  · rintro ⟨h₁, h₂, h₃, h₄, h₅, h₆⟩
    exact ⟨hgeneral.1 h₁, hflag.1 h₂, hpc.1 h₃, hstore.1 h₄, hout.1 h₆, hhalt.1 h₅⟩
  · rintro ⟨h₁, h₂, h₃, h₄, h₅, h₆⟩
    exact ⟨hgeneral.2 h₁, hflag.2 h₂, hpc.2 h₃, hstore.2 h₄, hhalt.2 h₆, hout.2 h₅⟩

/-! ## Instructions that change nothing -/

theorem idle_result_iff (r : Reg) (v : Word) (s : State) :
    (Effect.result r v).Idle s ↔ s.Flagged r v := by
  constructor
  · intro h
    exact ⟨h.dest r v rfl, h.cond (sign v) rfl⟩
  · rintro ⟨hreg, hcond⟩
    constructor <;> simp_all [Effect.result]

theorem idle_dest_iff (r : Reg) (v : Word) (s : State) :
    Effect.Idle { dest := some (r, v) } s ↔ s.registers r = v :=
  ⟨fun h => h.dest r v rfl, fun h => by constructor <;> simp_all⟩

theorem idle_store_iff (a v : Word) (s : State) :
    Effect.Idle { store := some (a, v) } s ↔ s.Holds a v :=
  ⟨fun h => h.store a v rfl, fun h => by constructor <;> simp_all⟩

theorem idle_pc_iff (v : Word) (s : State) :
    Effect.Idle { pc := some v } s ↔ s.registers .pc = v :=
  ⟨fun h => h.pc v rfl, fun h => by constructor <;> simp_all⟩

theorem idle_output_iff (out : List Byte) (s : State) :
    Effect.Idle { output := out } s ↔ out = [] :=
  ⟨fun h => h.output, fun h => by constructor <;> simp_all⟩

theorem idle_none (s : State) : Effect.Idle {} s := by
  constructor <;> simp

theorem add_offset_iff {n : ℕ} (hn : n ≤ 16) (w v : Word) :
    v = v + sext n w ↔ w.setWidth n = 0#n := by
  rw [eq_comm, BitVec.add_right_eq_self]
  exact signExtend_eq_zero_iff hn _

theorem idle_br_iff (w : Word) (s : State) :
    (brEffect w s).Idle s ↔ anyCondition w = false ∨ w.setWidth 9 = 0#9 := by
  unfold brEffect
  by_cases hany : anyCondition w = true
  · rw [if_pos hany, idle_pc_iff, pcRelative, add_offset_iff (by decide)]
    simp [hany]
  · rw [if_neg hany]
    exact iff_of_true (idle_none s) (Or.inl (Bool.eq_false_iff.2 hany))

theorem idle_jsr_iff (w : Word) (s : State) :
    (jsrEffect w s).Idle s ↔ s.registers .r7 = s.registers .pc ∧
      if w.getLsbD 11 then w.setWidth 11 = 0#11
      else s.registers (baseOf w) = s.registers .pc := by
  have hidle : (jsrEffect w s).Idle s ↔ s.registers .r7 = s.registers .pc ∧
      s.registers .pc = if w.getLsbD 11 then s.registers .pc + sext 11 w
        else Function.update s.registers .r7 (s.registers .pc) (baseOf w) := by
    constructor
    · intro h
      exact ⟨h.dest .r7 _ rfl, h.pc _ rfl⟩
    · rintro ⟨hlink, hpc⟩
      constructor
      · rintro r v h
        obtain ⟨rfl, rfl⟩ := Prod.mk.inj (Option.some.inj h)
        exact hlink
      · simp [jsrEffect]
      · rintro v h
        exact hpc.trans (Option.some.inj h)
      all_goals simp [jsrEffect]
  rw [hidle]
  refine and_congr_right fun hlink => ?_
  by_cases h : w.getLsbD 11 = true
  · rw [if_pos h, if_pos h, add_offset_iff (by decide)]
  · rw [if_neg h, if_neg h, ← hlink, Function.update_eq_self, eq_comm]

/-! ## String traps that print nothing -/

/-- A loop that prints something for every word prints nothing exactly when the first word is
    zero. -/
theorem stringLoop_nil_iff {bytesOf : Word → List Byte} (hbytes : ∀ word, bytesOf word ≠ [])
    {s : State} {a : Word} {out : List Byte}
    (h : stringLoop bytesOf s.memory (uint16Max - a.toNat) = .ok out) :
    out = [] ↔ s.Holds a 0 := by
  by_cases hlt : a.toNat < uint16Max
  · rw [stringLoop_step bytesOf s.memory hlt] at h
    have hholds : s.Holds a 0 ↔ s.memory ⟨a.toNat, hlt⟩ = 0 := ⟨fun h => h hlt, fun h _ => h⟩
    rw [hholds]
    by_cases hzero : s.memory ⟨a.toNat, hlt⟩ = 0
    · rw [if_pos hzero] at h
      exact iff_of_true (Except.ok.inj h).symm hzero
    · rw [if_neg hzero] at h
      obtain ⟨rest, -, rfl⟩ := map_eq_ok.1 h
      exact iff_of_false (List.append_ne_nil_of_left_ne_nil (hbytes _) _) hzero
  · rw [Nat.sub_eq_zero_of_le (Nat.le_of_not_lt hlt)] at h
    simp [stringLoop] at h

theorem planTrap_idle_iff {w : Word} {s t : State} {e : Effect} (h : planTrap w s = .ok (e, t)) :
    e.Idle s ↔ InertTrap w s := by
  unfold planTrap at h
  unfold InertTrap
  cases hcode : TrapCode.decode w with
  | none =>
      simp only [hcode, Except.ok.injEq, Prod.mk.injEq] at h
      exact iff_of_true (h.1 ▸ idle_none s) trivial
  | some code =>
      rw [hcode] at h
      cases code
      all_goals simp only [map_eq_ok, Except.ok.injEq, Prod.mk.injEq, Prod.exists] at h
      case getc =>
        obtain ⟨c, u, hget, rfl, rfl⟩ := h
        rw [idle_dest_iff]
        exact (forall_ok (P := fun c _ => s.registers .r0 = charCode c) hget).symm
      case «in» =>
        obtain ⟨c, u, -, rfl, rfl⟩ := h
        rw [idle_output_iff]
        exact iff_of_false (by simp) id
      case out =>
        obtain ⟨rfl, rfl⟩ := h
        rw [idle_output_iff]
        exact iff_of_false (by simp) id
      case halt =>
        obtain ⟨rfl, rfl⟩ := h
        exact iff_of_false (fun hidle => absurd hidle.halt (by simp)) id
      case puts | putsp =>
        obtain ⟨out, hout, rfl, rfl⟩ := h
        rw [idle_output_iff]
        exact stringLoop_nil_iff (fun _ => List.cons_ne_nil _ _) hout

/-- One case per opcode: an instruction plans an idle effect exactly when it is inert. -/
theorem plan_idle_iff {w : Word} {s t : State} {e : Effect} (h : plan w s = .ok (e, t)) :
    e.Idle s ↔ Inert w s := by
  unfold plan at h
  unfold Inert
  cases hop : Op.decode w
  case trap =>
    rw [hop] at h
    exact planTrap_idle_iff h
  all_goals
    rw [hop] at h
    simp only [map_eq_ok, bind_eq_ok, Except.ok.injEq, Prod.mk.injEq, Prod.exists] at h
  case ld | ldr =>
    obtain ⟨v, u, hread, rfl, rfl⟩ := h
    rw [idle_result_iff, peek_eq hread]
  case ldi =>
    obtain ⟨p, u, hread, v, u', hread', rfl, rfl⟩ := h
    rw [idle_dest_iff, peekIndirect_eq hread hread']
  case sti =>
    obtain ⟨p, u, hread, rfl, rfl⟩ := h
    rw [idle_store_iff, peek_eq hread]
  all_goals obtain ⟨rfl, rfl⟩ := h
  case br => exact idle_br_iff w s
  case jsr => exact idle_jsr_iff w s
  case jmp => rw [idle_pc_iff, jmpBase_eq hop, eq_comm]
  case rti | res => exact iff_of_true (idle_none s) trivial
  case and => exact idle_dest_iff _ _ s
  case st | str => exact idle_store_iff _ _ s
  all_goals exact idle_result_iff _ _ s

/-- An iteration of a running machine changes nothing exactly when its instruction is inert. -/
theorem unchanged_iff_inert {s t : State} (h : emulateStep s = .ok t) :
    Unchanged s t ↔ NextInert s := by
  obtain ⟨hrun, w, hexec⟩ := emulateStep_eq_ok.1 h
  obtain ⟨s₁, e, s₂, hfetch, hplan, hread₁, hread₂, hfits, hcommit⟩ := hexec.cases
  have htrip := trip_of_commits hread₁ hread₂ hfits hcommit
  rw [unchanged_iff_idle hread₁ hrun htrip, plan_idle_iff hplan]
  exact (forall_ok hfetch).symm

end Yavm.Lc3
