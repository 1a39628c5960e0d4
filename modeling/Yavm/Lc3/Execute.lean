import Yavm.Lc3.Reads

set_option autoImplicit false

/-! # One iteration of `emulate`, inverted

`Executes s w t`: the iteration from `s` fetches the word `w` and ends in `t`. `Executes.cases` is
the one inversion of an iteration: the effect `w` plans on the fetched state, what is possible for
that effect (`Effect.Fits`, one case per opcode), and the components of `t` computed from it
(`Effect.Commits`). Invariants are proved from these facts. -/

namespace Yavm.Lc3

open Basis

/-! ## What each instruction may do -/

/-- The handlers that call `updateFlags`. -/
def Op.updatesFlags : Op → Bool
  | .add | .not | .ld | .ldr | .lea => true
  | _ => false

/-- The instructions with a destination register in bits 11..9. -/
def Op.hasDest : Op → Bool
  | .add | .and | .not | .ld | .ldi | .ldr | .lea => true
  | _ => false

def Op.stores : Op → Bool
  | .st | .sti | .str => true
  | _ => false

def Op.jumps : Op → Bool
  | .br | .jmp | .jsr => true
  | _ => false

/-- The trap an instruction performs. -/
def trapOf (instruction : Word) : Option TrapCode :=
  if Op.decode instruction = .trap then TrapCode.decode instruction else none

theorem trapOf_eq {w : Word} (h : Op.decode w = .trap) : trapOf w = TrapCode.decode w :=
  if_pos h

theorem trapOf_of_ne {w : Word} (h : Op.decode w ≠ .trap) : trapOf w = none :=
  if_neg h

/-- The general-purpose register an instruction writes. -/
def writesReg (instruction : Word) : Option Reg :=
  match Op.decode instruction with
  | .add | .and | .not | .ld | .ldi | .ldr | .lea => some (destOf instruction)
  | .jsr => some .r7
  | .trap => if TrapCode.decode instruction = some .getc then some .r0 else none
  | _ => none

/-- The traps that write to standard output. -/
def TrapCode.prints : TrapCode → Bool
  | .getc => false
  | _ => true

/-- The effects an instruction can have. -/
structure Effect.Fits (instruction : Word) (e : Effect) : Prop where
  dest : e.dest.map Prod.fst = writesReg instruction
  cond : e.cond = if (Op.decode instruction).updatesFlags then e.dest.map (fun d => sign d.2)
    else none
  pc : e.pc.isSome = true → (Op.decode instruction).jumps = true
  store : e.store.isSome = (Op.decode instruction).stores
  output : e.output ≠ [] → ∃ code, trapOf instruction = some code ∧ code.prints = true
  halt : e.halt = decide (trapOf instruction = some .halt)

/-- Only a trap prints. -/
theorem Effect.Fits.silent {w : Word} {e : Effect} (h : e.Fits w) (hop : Op.decode w ≠ .trap) :
    e.output = [] := by
  by_contra hne
  obtain ⟨code, hcode, -⟩ := h.output hne
  simp [trapOf_of_ne hop] at hcode

theorem writesReg_general {w : Word} {r : Reg} (h : writesReg w = some r) : r.General := by
  unfold writesReg at h
  cases hop : Op.decode w
  all_goals simp only [hop] at h
  case jsr => exact Option.some.inj h ▸ (by decide)
  case trap =>
    split at h
    · exact Option.some.inj h ▸ (by decide)
    · simp at h
  case br | st | str | sti | rti | res | jmp => simp at h
  all_goals exact Option.some.inj h ▸ destOf_general _

theorem planTrap_fits {w : Word} {s t : State} {e : Effect} (hop : Op.decode w = .trap)
    (h : planTrap w s = .ok (e, t)) : e.Fits w := by
  have htrap := trapOf_eq hop
  unfold planTrap at h
  cases hcode : TrapCode.decode w with
  | none =>
      rw [hcode] at h htrap
      simp only [Except.ok.injEq, Prod.mk.injEq] at h
      obtain ⟨rfl, rfl⟩ := h
      constructor <;> simp [writesReg, hop, hcode, htrap, Op.stores, Op.updatesFlags]
  | some code =>
      rw [hcode] at h htrap
      cases code
      all_goals
        simp only [map_eq_ok, Except.ok.injEq, Prod.mk.injEq, Prod.exists] at h
      case getc =>
        obtain ⟨c, u, _, rfl, rfl⟩ := h
        constructor <;> simp [writesReg, hop, hcode, htrap, Op.stores, Op.updatesFlags]
      case «in» =>
        obtain ⟨c, u, _, rfl, rfl⟩ := h
        constructor <;>
          simp [writesReg, hop, hcode, htrap, Op.stores, Op.updatesFlags, TrapCode.prints]
      case out | halt =>
        obtain ⟨rfl, rfl⟩ := h
        constructor <;>
          simp [writesReg, hop, hcode, htrap, Op.stores, Op.updatesFlags, TrapCode.prints]
      all_goals
        obtain ⟨out, _, rfl, rfl⟩ := h
        constructor <;>
          simp [writesReg, hop, hcode, htrap, Op.stores, Op.updatesFlags, TrapCode.prints]

/-- One case per opcode: what an instruction plans fits it. -/
theorem plan_fits {w : Word} {s t : State} {e : Effect} (h : plan w s = .ok (e, t)) :
    e.Fits w := by
  unfold plan at h
  cases hop : Op.decode w
  case trap =>
    rw [hop] at h
    exact planTrap_fits hop h
  all_goals
    have hnone := trapOf_of_ne (w := w) (by simp [hop])
    rw [hop] at h
    simp only [map_eq_ok, bind_eq_ok, Except.ok.injEq, Prod.mk.injEq, Prod.exists] at h
  case br =>
    obtain ⟨rfl, rfl⟩ := h
    unfold brEffect
    split <;> constructor <;> simp [writesReg, hop, hnone, Op.stores, Op.updatesFlags, Op.jumps]
  case ld | ldr =>
    obtain ⟨v, u, _, rfl, rfl⟩ := h
    constructor <;>
      simp [Effect.result, writesReg, hop, hnone, Op.stores, Op.updatesFlags]
  case ldi =>
    obtain ⟨p, u, _, v, u', _, rfl, rfl⟩ := h
    constructor <;> simp [writesReg, hop, hnone, Op.stores, Op.updatesFlags]
  case sti =>
    obtain ⟨p, u, _, rfl, rfl⟩ := h
    constructor <;> simp [writesReg, hop, hnone, Op.stores, Op.updatesFlags]
  all_goals
    obtain ⟨rfl, rfl⟩ := h
    constructor <;>
      simp [Effect.result, jsrEffect, writesReg, hop, hnone, Op.stores, Op.updatesFlags, Op.jumps]

/-! ## Committing -/

namespace Effect

/-- `memory` after the effect. -/
def memory (e : Effect) (m : Memory) : Memory :=
  match e.store with
  | none => m
  | some (a, v) =>
    if h : a.toNat < uint16Max then Function.update m ⟨a.toNat, h⟩ v else m

/-- `t` is `s` with the effect committed. -/
structure Commits (e : Effect) (s t : State) : Prop where
  registers : t.registers = e.registers s.registers
  memory : t.memory = e.memory s.memory
  running : t.running = (s.running && !e.halt)
  stdin : t.stdin = s.stdin
  stdout : t.stdout = s.stdout ++ e.output
  events : t.events = s.events ++ (e.store.map fun (a, v) => Event.write a v).toList
  inBounds : ∀ a v, e.store = some (a, v) → a.toNat < uint16Max

theorem commits_of_commit {e : Effect} {s t : State} (h : e.commit s = .ok t) :
    e.Commits s t := by
  unfold commit at h
  cases hstore : e.store with
  | none =>
      rw [hstore] at h
      simp only [Except.ok.injEq] at h
      subst h
      constructor <;> simp [memory, hstore]
  | some p =>
      obtain ⟨a, v⟩ := p
      rw [hstore] at h
      obtain ⟨hlt, rfl⟩ := memoryWrite_eq_ok.1 h
      constructor <;> simp [memory, hstore, State.record, hlt]

theorem registers_pc (e : Effect) (regs : Reg → Word) (h : ∀ d, e.dest = some d → d.1.General) :
    e.registers regs .pc = e.pc.getD (regs .pc) := by
  unfold registers setIf
  cases hpc : e.pc with
  | some v => simp
  | none =>
      have hdest : ∀ d, e.dest = some d → Reg.pc ≠ d.1 := fun d hd => (h d hd).ne_pc.symm
      cases hd : e.dest with
      | none => cases e.cond <;> simp
      | some d => cases e.cond <;> simp [Function.update_of_ne (hdest d hd)]

theorem registers_cond (e : Effect) (regs : Reg → Word) (h : ∀ d, e.dest = some d → d.1.General) :
    e.registers regs .cond = (e.cond.map Flag.code).getD (regs .cond) := by
  have hdest : ∀ d, e.dest = some d → Reg.cond ≠ d.1 := fun d hd => (h d hd).ne_cond.symm
  unfold registers setIf
  cases hd : e.dest with
  | none => cases e.cond <;> cases e.pc <;> simp
  | some d =>
      cases e.cond <;> cases e.pc <;> simp [Function.update_of_ne (hdest d hd)]

theorem registers_general (e : Effect) (regs : Reg → Word) {r : Reg} (hr : r.General) :
    e.registers regs r = match e.dest with
      | none => regs r
      | some (d, v) => Function.update regs d v r := by
  unfold registers setIf
  cases e.dest <;> cases e.cond <;> cases e.pc <;> simp [hr.ne_pc, hr.ne_cond]

end Effect

/-! ## Iterations -/

/-- The iteration from `s` fetches the word `w` and ends in `t`. -/
def Executes (s : State) (w : Word) (t : State) : Prop :=
  ∃ s₁, fetch s = .ok (w, s₁) ∧ dispatch w s₁ = .ok t

theorem iteration_eq_ok {s t : State} : iteration s = .ok t ↔ ∃ w, Executes s w t := by
  simp only [iteration, bind_eq_ok, Prod.exists, Executes]

/-- A trip round the loop: the machine is running and executes one instruction. -/
theorem emulateStep_eq_ok {s t : State} :
    emulateStep s = .ok t ↔ s.running = true ∧ ∃ w, Executes s w t := by
  unfold emulateStep
  by_cases hrun : s.running = true
  · rw [if_pos hrun, iteration_eq_ok]
    exact (and_iff_right hrun).symm
  · rw [if_neg hrun]
    simp [hrun]

theorem emulateStep_of_fetch {s s₁ : State} {w : Word} (hrun : s.running = true)
    (hfetch : fetch s = .ok (w, s₁)) : emulateStep s = dispatch w s₁ := by
  rw [emulateStep, if_pos hrun, iteration, hfetch]
  rfl

/-- The state an instruction is dispatched in: `R_PC` is incremented, and the fetch was a read. -/
def Fetched (s s₁ : State) : Prop :=
  ReadOnly (s.setReg .pc (s.registers .pc + 1)) s₁

theorem fetch_fetched {s s₁ : State} {w : Word} (h : fetch s = .ok (w, s₁)) : Fetched s s₁ :=
  memoryRead_readOnly h

theorem Fetched.pc {s s₁ : State} (h : Fetched s s₁) :
    s₁.registers .pc = s.registers .pc + 1 := by
  rw [h.registers, State.setReg_registers, Function.update_self]

theorem Fetched.general {s s₁ : State} (h : Fetched s s₁) {r : Reg} (hr : r.General) :
    s₁.registers r = s.registers r := by
  rw [h.registers, State.setReg_registers, Function.update_of_ne hr.ne_pc]

/-- **Inversion of an iteration.** -/
theorem Executes.cases {s t : State} {w : Word} (h : Executes s w t) :
    ∃ s₁ e s₂, fetch s = .ok (w, s₁) ∧ plan w s₁ = .ok (e, s₂) ∧ Fetched s s₁ ∧ ReadOnly s₁ s₂ ∧
      e.Fits w ∧ e.Commits s₂ t := by
  obtain ⟨s₁, hfetch, hdispatch⟩ := h
  rw [dispatch_eq_plan] at hdispatch
  obtain ⟨⟨e, s₂⟩, hplan, hcommit⟩ := bind_eq_ok.1 hdispatch
  exact ⟨s₁, e, s₂, hfetch, hplan, fetch_fetched hfetch, plan_readOnly hplan, plan_fits hplan,
    Effect.commits_of_commit hcommit⟩

/-- The components of the state after an iteration, from the effect and the state before it. -/
structure Trip (s : State) (w : Word) (e : Effect) (t : State) : Prop where
  fits : e.Fits w
  pc : t.registers .pc = e.pc.getD (s.registers .pc + 1)
  cond : t.registers .cond = (e.cond.map Flag.code).getD (s.registers .cond)
  general : ∀ r : Reg, r.General → t.registers r = match e.dest with
    | none => s.registers r
    | some (d, v) => Function.update s.registers d v r
  memory : t.memory = e.memory s.memory
  running : t.running = (s.running && !e.halt)
  stdout : t.stdout = s.stdout ++ e.output

theorem trip_of_commits {s s₁ s₂ t : State} {w : Word} {e : Effect} (hfetch : Fetched s s₁)
    (hread : ReadOnly s₁ s₂) (hfits : e.Fits w) (h : e.Commits s₂ t) : Trip s w e t := by
  -- the destination is neither `R_PC` nor `R_COND`, so the three writes do not meet
  have hgen : ∀ d, e.dest = some d → d.1.General := fun d hd =>
    writesReg_general (w := w) (by rw [← hfits.dest, hd]; rfl)
  have hregs : s₂.registers = Function.update s.registers .pc (s.registers .pc + 1) :=
    hread.registers.trans hfetch.registers
  refine ⟨hfits, ?_, ?_, fun r hr => ?_, ?_, ?_, ?_⟩
  · rw [h.registers, e.registers_pc _ hgen, hregs, Function.update_self]
  · rw [h.registers, e.registers_cond _ hgen, hregs, Function.update_of_ne Reg.cond_ne_pc]
  · rw [h.registers, e.registers_general _ hr, hregs]
    cases hd : e.dest with
    | none => exact Function.update_of_ne hr.ne_pc ..
    | some d =>
        obtain ⟨d, v⟩ := d
        by_cases hrd : r = d
        · subst hrd
          simp
        · simp [hrd, hr.ne_pc]
  · rw [h.memory, hread.memory, hfetch.memory]
    rfl
  · rw [h.running, hread.running, hfetch.running]
    rfl
  · rw [h.stdout, hread.stdout, hfetch.stdout]
    rfl

theorem Executes.trip {s t : State} {w : Word} (h : Executes s w t) : ∃ e, Trip s w e t := by
  obtain ⟨s₁, e, s₂, _, _, hfetch, hread, hfits, hcommit⟩ := h.cases
  exact ⟨e, trip_of_commits hfetch hread hfits hcommit⟩

/-- An instruction that reads nothing commits what it plans in the state after the fetch. -/
theorem Executes.trip_of_plan {s t : State} {w : Word} {f : State → Effect} (h : Executes s w t)
    (hf : ∀ s₁, plan w s₁ = .ok (f s₁, s₁)) :
    ∃ s₁, fetch s = .ok (w, s₁) ∧ Trip s w (f s₁) t ∧ t.stdin = s₁.stdin := by
  obtain ⟨s₁, e, s₂, hfetch, hplan, hread₁, hread₂, hfits, hcommit⟩ := h.cases
  rw [hf, Except.ok.injEq, Prod.mk.injEq] at hplan
  obtain ⟨rfl, rfl⟩ := hplan
  exact ⟨s₁, hfetch, trip_of_commits hread₁ hread₂ hfits hcommit, hcommit.stdin⟩

namespace Trip

variable {s t : State} {w : Word} {e : Effect}

/-- A handler that does not call `updateFlags` leaves the condition code alone. -/
theorem cond_same (h : Trip s w e t) (hop : (Op.decode w).updatesFlags = false) :
    t.registers .cond = s.registers .cond := by
  rw [h.cond, h.fits.cond, hop]
  rfl

/-- A register the instruction does not write keeps its value. -/
theorem general_other (h : Trip s w e t) {r : Reg} (hr : r.General) (hw : writesReg w ≠ some r) :
    t.registers r = s.registers r := by
  rw [h.general r hr]
  cases hd : e.dest with
  | none => rfl
  | some d =>
      obtain ⟨d, v⟩ := d
      have hne : r ≠ d := fun heq => hw (by rw [← h.fits.dest, hd, heq]; rfl)
      exact Function.update_of_ne hne ..

/-- An instruction that writes no register changes none but the program counter. -/
theorem registers_same (h : Trip s w e t) (hw : writesReg w = none)
    (hop : (Op.decode w).updatesFlags = false) {r : Reg} (hr : r ≠ .pc) :
    t.registers r = s.registers r := by
  rcases r.general_or with hgen | rfl | rfl
  · exact h.general_other hgen (by simp [hw])
  · exact absurd rfl hr
  · exact h.cond_same hop

/-- The value in the register the instruction writes. -/
theorem general_dest (h : Trip s w e t) {r : Reg} {v : Word} (hd : e.dest = some (r, v)) :
    t.registers r = v := by
  have hr : r.General := writesReg_general (w := w) (by rw [← h.fits.dest, hd]; rfl)
  rw [h.general r hr, hd]
  exact Function.update_self ..

/-- Outside the jumps the program counter goes up by one. -/
theorem pc_next (h : Trip s w e t) (hop : (Op.decode w).jumps = false) :
    t.registers .pc = s.registers .pc + 1 := by
  rw [h.pc]
  cases hpc : e.pc with
  | none => rfl
  | some v =>
      have := h.fits.pc (by simp [hpc])
      simp [hop] at this

theorem memory_same (h : Trip s w e t) (hop : (Op.decode w).stores = false) :
    t.memory = s.memory := by
  have hstore : e.store = none := by
    have := h.fits.store
    rw [hop] at this
    simpa using this
  rw [h.memory, Effect.memory, hstore]

end Trip

/-! ## The calls of an iteration -/

theorem Effect.Commits.accounts {e : Effect} {s t : State} (h : e.Commits s t) :
    Accounts s t (e.store.map fun (a, v) => Event.write a v).toList := by
  refine ⟨h.events, ?_⟩
  rw [h.stdin]
  cases e.store <;> rfl

/-- An iteration accounts for the input, and consumes bytes only in the traps that read a key and by
    reading `MR_KBDR`. -/
theorem Executes.accounts {s t : State} {w : Word} (h : Executes s w t) :
    Accounts s t (newEvents s t) ∧
      (consumed (newEvents s t) = [] ∨ readsKey w ∨ ∃ v, Event.read mrKbdr v ∈ newEvents s t) := by
  obtain ⟨s₁, e, s₂, hfetch, hplan, -, -, -, hcommit⟩ := h.cases
  suffices hnew : ∃ new, Accounts s t new ∧
      (consumed new = [] ∨ readsKey w ∨ ∃ v, Event.read mrKbdr v ∈ new) by
    obtain ⟨new, hacc, hkey⟩ := hnew
    rw [newEvents_eq hacc.events]
    exact ⟨hacc, hkey⟩
  -- the fetch may consume a byte itself, when the program counter is at `MR_KBDR`
  obtain ⟨new₁, hacc₁, hkey₁⟩ := (MemReads.one hfetch).accounts
  have hpc : Accounts s (s.setReg .pc (s.registers .pc + 1)) [] := ⟨by simp, rfl⟩
  have hacc₁ : Accounts s s₁ new₁ := hpc.trans hacc₁
  have hstore : consumed (e.store.map fun (a, v) => Event.write a v).toList = [] := by
    cases e.store <;> rfl
  rcases plan_reads hplan with hreads | ⟨hkey, c, hget⟩
  · obtain ⟨new₂, hacc₂, hkey₂⟩ := hreads.accounts
    refine ⟨_, (hacc₁.trans hacc₂).trans hcommit.accounts, ?_⟩
    rcases hkey₁ with hnone₁ | ⟨v, hv⟩
    · rcases hkey₂ with hnone₂ | ⟨v, hv⟩
      · exact Or.inl (by rw [consumed_append, consumed_append, hnone₁, hnone₂, hstore]; rfl)
      · exact Or.inr (Or.inr ⟨v, by simp [hv]⟩)
    · exact Or.inr (Or.inr ⟨v, by simp [hv]⟩)
  · exact ⟨_, (hacc₁.trans (getchar_accounts hget)).trans hcommit.accounts, Or.inr (Or.inl hkey)⟩

/-- Every word an iteration reads from an ordinary address is the word its cell held before. -/
theorem Executes.cells {s t : State} {w a v : Word} (h : Executes s w t)
    (hmem : Event.read a v ∈ newEvents s t) (hdev : ¬ IsDevice a) :
    ∃ hlt : a.toNat < uint16Max, v = s.memory ⟨a.toNat, hlt⟩ := by
  obtain ⟨s₁, e, s₂, hfetch, hplan, hread₁, hread₂, -, hcommit⟩ := h.cases
  have hfetched := MemReads.one hfetch
  have hnew : newEvents s t = newEvents (s.setReg .pc (s.registers .pc + 1)) s₁ ++
      (newEvents s₁ s₂ ++ (e.store.map fun (a, v) => Event.write a v).toList) := by
    apply newEvents_eq
    rw [hcommit.events, hread₂.events_eq, hfetched.readOnly.events_eq]
    simp
  rw [hnew, List.mem_append, List.mem_append] at hmem
  -- the word was read by the fetch, by the first phase, or not at all: a commit only writes
  rcases hmem with hmem | hmem | hmem
  · exact hfetched.cells hmem hdev
  · rcases plan_reads hplan with hreads | ⟨-, c, hget⟩
    · obtain ⟨hlt, hv⟩ := hreads.cells hmem hdev
      exact ⟨hlt, hv.trans (congrFun hread₁.memory _)⟩
    · rw [newEvents_eq (getchar_accounts hget).events] at hmem
      simp at hmem
  · cases hstore : e.store <;> simp [hstore] at hmem

end Yavm.Lc3
