import Yavm.Lc3.Bounds

set_option autoImplicit false

/-! # What one iteration may change

`R_PC` and `R_COND` live in the same array as the general-purpose registers, and every read may go
through a device register. `FrameLaw` bounds what an iteration changes by the instruction it
fetched; `frameLaw` proves it for all sixteen opcodes with any field values, and says which
iterations do not complete at all. -/

namespace Yavm.Lc3

open Basis

/-- The general-purpose registers an instruction may change. -/
def mayWrite (instruction : Word) : List Reg :=
  match Op.decode instruction with
  | .add | .and | .not | .ld | .ldi | .ldr | .lea => [destOf instruction]
  | .jsr => [.r7]
  | .trap =>
    match TrapCode.decode instruction with
    | some .getc | some .in => [.r0]
    | _ => []
  | _ => []

/-- The traps that produce output. -/
def printingTraps : List TrapCode := [.out, .puts, .in, .putsp, .halt]

/-- What an iteration that fetched `instruction` may change between `s` and `t`. -/
structure FrameLaw (instruction : Word) (s t : State) : Prop where
  general : ∀ r, r.General → r ∉ mayWrite instruction → t.registers r = s.registers r
  cond : (Op.decode instruction).hasDest = false → t.registers .cond = s.registers .cond
  pc : (Op.decode instruction).jumps = false → t.registers .pc = s.registers .pc + 1
  memory : (Op.decode instruction).stores = false → t.memory = s.memory
  store : (Op.decode instruction).stores = true →
    ∃ i v, t.memory = Function.update s.memory i v
  running : trapOf instruction ≠ some .halt → t.running = s.running
  stdin : t.stdin.pending ≠ s.stdin.pending →
    readsKey instruction ∨ ∃ v, Event.read mrKbdr v ∈ newEvents s t
  stdout : t.stdout ≠ s.stdout → ∃ code ∈ printingTraps, trapOf instruction = some code

theorem writesReg_mem_mayWrite {w : Word} {r : Reg} (h : writesReg w = some r) :
    r ∈ mayWrite w := by
  unfold writesReg at h
  unfold mayWrite
  cases hop : Op.decode w
  all_goals simp only [hop, Option.some.injEq, reduceCtorEq] at h ⊢
  case trap =>
    split at h
    · next hcode => simp [hcode, Option.some.inj h]
    · simp at h
  all_goals simp [h]

theorem prints_mem_printingTraps {code : TrapCode} (h : code.prints = true) :
    code ∈ printingTraps := by
  cases code <;> first | exact absurd h (by decide) | decide

/-- The frame of an iteration that completes. -/
theorem Executes.frame {s t : State} {w : Word} (h : Executes s w t) : FrameLaw w s t := by
  obtain ⟨s₁, e, s₂, -, -, hread₁, hread₂, hfits, hcommit⟩ := h.cases
  have htrip := trip_of_commits hread₁ hread₂ hfits hcommit
  refine ⟨fun r hr hw => ?_, fun hop => ?_, htrip.pc_next, htrip.memory_same, fun hop => ?_,
    fun htrap => ?_, fun hin => ?_, fun hout => ?_⟩
  · exact htrip.general_other hr fun hwr => hw (writesReg_mem_mayWrite hwr)
  · -- every handler that calls `updateFlags` has a destination register
    refine htrip.cond_same (Bool.eq_false_iff.2 fun hflags => ?_)
    cases hdec : Op.decode w <;> simp [hdec, Op.hasDest, Op.updatesFlags] at hop hflags
  · have hstore := hfits.store
    rw [hop, Option.isSome_iff_exists] at hstore
    obtain ⟨⟨a, v⟩, hstore⟩ := hstore
    refine ⟨⟨a.toNat, hcommit.inBounds a v hstore⟩, v, ?_⟩
    rw [htrip.memory, Effect.memory, hstore]
    exact dif_pos _
  · have hhalt : e.halt = false := by rw [hfits.halt, decide_eq_false htrap]
    simpa [hhalt] using htrip.running
  · obtain ⟨hacc, hkey⟩ := h.accounts
    refine hkey.resolve_left fun hnone => hin ?_
    have hpending := hacc.pending
    rw [hnone, List.nil_append] at hpending
    exact hpending.symm
  · obtain ⟨code, hcode, hprints⟩ := hfits.output fun hnone => hout (by
      rw [htrip.stdout, hnone, List.append_nil])
    exact ⟨code, prints_mem_printingTraps hprints, hcode⟩

/-! ## Iterations that do not complete -/

/-- What stops the first phase: an index outside `memory`, a key that is never typed, or a string
    without a zero word. -/
theorem plan_eq_error {w : Word} {s : State} {x : Stop} (h : plan w s = .error x) :
    (∃ i, x = .index i) ∨ (x = .blocked ∧ readsKey w) ∨
      (x = .pointer uint16Max ∧ (trapOf w = some .puts ∨ trapOf w = some .putsp)) := by
  have hindex : ∀ {a : Word} {s : State}, memoryRead a s = .error x → ∃ i, x = .index i :=
    fun hread => ⟨65535, (memoryRead_eq_error.1 hread).2⟩
  unfold plan at h
  cases hop : Op.decode w
  all_goals rw [hop] at h
  case ld | ldr | sti => exact Or.inl (hindex (map_eq_error.1 h))
  case ldi =>
    rcases bind_eq_error.1 h with hread | ⟨p, -, hread⟩
    · exact Or.inl (hindex hread)
    · exact Or.inl (hindex (map_eq_error.1 hread))
  case trap =>
    rw [trapOf_eq hop]
    exact Or.inr ((planTrap_eq_error h).imp_left fun hkey => ⟨hkey.1, hop, hkey.2⟩)
  all_goals simp at h

theorem dispatch_eq_error {w : Word} {s : State} {x : Stop} (h : dispatch w s = .error x) :
    (∃ i, x = .index i) ∨ (x = .blocked ∧ readsKey w) ∨
      (x = .pointer uint16Max ∧ (trapOf w = some .puts ∨ trapOf w = some .putsp)) := by
  rw [dispatch_eq_plan, bind_eq_error] at h
  rcases h with h | ⟨p, -, h⟩
  · exact plan_eq_error h
  · obtain ⟨v, -, rfl⟩ := Effect.commit_eq_error.1 h
    exact Or.inl ⟨65535, rfl⟩

/-- For every state whose next instruction, any word at all, neither is at `0xFFFF` nor has `0xFFFF`
    among its effective addresses: the iteration completes and changes no more than the instruction
    may change, or it waits for a key that is never typed, or it is `PUTS` or `PUTSP` on a string
    that does not end in `memory`. -/
theorem frameLaw {s : State} (h : BelowTop s) :
    ∃ w s₁, fetch s = .ok (w, s₁) ∧
      ((∃ t, iteration s = .ok t ∧ FrameLaw w s t) ∨
        (iteration s = .error .blocked ∧ readsKey w) ∨
        (iteration s = .error (.pointer uint16Max) ∧
          (trapOf w = some .puts ∨ trapOf w = some .putsp))) := by
  obtain ⟨hpc, hdata⟩ := h
  obtain ⟨w, s₁, hfetch⟩ := memoryRead_total (s.setReg .pc (s.registers .pc + 1)) hpc
  have hfetch : fetch s = .ok (w, s₁) := hfetch
  refine ⟨w, s₁, hfetch, ?_⟩
  have hiter : iteration s = dispatch w s₁ := by
    rw [iteration, hfetch]
    rfl
  rw [hiter]
  cases hdispatch : dispatch w s₁ with
  | ok t => exact Or.inl ⟨t, rfl, Executes.frame ⟨s₁, hfetch, hdispatch⟩⟩
  | error x =>
      rcases dispatch_eq_error hdispatch with ⟨i, rfl⟩ | ⟨rfl, hkey⟩ | ⟨rfl, htrap⟩
      -- an index outside the array is an effective address `0xFFFF`
      · exact absurd ((dispatch_index_iff w s₁).1 ⟨i, hdispatch⟩) (hdata w s₁ hfetch)
      · exact Or.inr (Or.inl ⟨rfl, hkey⟩)
      · exact Or.inr (Or.inr ⟨rfl, htrap⟩)

/-- The frame of `STR R0, R1, #-2` as the first instruction. -/
theorem frameLaw_str :
    ∃ s, Booted s ∧ BelowTop s ∧ ∃ w s₁, fetch s = .ok (w, s₁) ∧
      ((∃ t, iteration s = .ok t ∧ FrameLaw w s t) ∨
        (iteration s = .error .blocked ∧ readsKey w) ∨
        (iteration s = .error (.pointer uint16Max) ∧
          (trapOf w = some .puts ∨ trapOf w = some .putsp))) := by
  have hstart : ∃ s, Booted s ∧ BelowTop s :=
    ⟨_, ⟨some (imageFile 0x3000 [0x707E]), 0, noInput, rfl⟩, by decide,
      (forall_ok rfl).2 (by decide)⟩
  obtain ⟨s, hboot, hbelow⟩ := hstart
  exact ⟨s, hboot, hbelow, frameLaw hbelow⟩

end Yavm.Lc3
