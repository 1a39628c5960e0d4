import Yavm.Lc3.Frame
import Yavm.Lc3.Linkage

set_option autoImplicit false

/-! # The values instructions compute

`lc3Value` is the value the instruction set gives an instruction with a destination register, read
off the state before the step. The handlers compute theirs in the state after the fetch; `plan_dest`
shows that this is the same value, and `valueLaw` that it ends up in the destination register, also
where that register is a source or the base. -/

namespace Yavm.Lc3

open Basis

/-- The value of an instruction with a destination register, in the state before the step. -/
def lc3Value (instruction : Word) (s : State) : Word :=
  match Op.decode instruction with
  | .add => s.registers (baseOf instruction) + operand2 instruction s
  | .and => s.registers (baseOf instruction) &&& operand2 instruction s
  | .not => ~~~s.registers (baseOf instruction)
  | .ld => peek (s.registers .pc + 1 + sext 9 instruction) s
  | .ldi => peekIndirect (s.registers .pc + 1 + sext 9 instruction) s
  | .ldr => peek (baseOffset instruction s) s
  | .lea => s.registers .pc + 1 + sext 9 instruction
  | _ => 0

/-! ## After the fetch -/

section

variable {s s₁ : State} (hfetched : Fetched s s₁)
include hfetched

theorem Fetched.operand2_same (w : Word) : operand2 w s₁ = operand2 w s := by
  unfold operand2
  rw [hfetched.general (Reg.low3_general w)]

theorem Fetched.pcRelative_next (w : Word) : pcRelative w s₁ = s.registers .pc + 1 + sext 9 w := by
  rw [pcRelative, hfetched.pc]

theorem Fetched.baseOffset_same (w : Word) : baseOffset w s₁ = baseOffset w s := by
  rw [baseOffset, baseOffset, baseOf, hfetched.general (Reg.low3_general _)]

/-- A word read after the fetch is the word that was there before it. -/
theorem Fetched.peek_before (hstdin : s₁.stdin = s.stdin) {a v : Word} {t : State}
    (h : memoryRead a s₁ = .ok (v, t)) : peek a s = v := by
  have hmem : s.memory = s₁.memory := hfetched.memory.symm
  obtain ⟨t', hread, -⟩ := memoryRead_congr hmem hstdin.symm h
  exact peek_eq hread

theorem Fetched.peekIndirect_before (hstdin : s₁.stdin = s.stdin) {a p v : Word} {t u : State}
    (h : memoryRead a s₁ = .ok (p, t)) (h' : memoryRead p t = .ok (v, u)) :
    peekIndirect a s = v := by
  have hmem : s.memory = s₁.memory := hfetched.memory.symm
  obtain ⟨t', hread, hmem', hin⟩ := memoryRead_congr hmem hstdin.symm h
  obtain ⟨u', hread', -⟩ := memoryRead_congr hmem' hin h'
  exact peekIndirect_eq hread hread'

/-- One case per opcode: what an instruction plans for its destination is its value. -/
theorem plan_dest (hstdin : s₁.stdin = s.stdin) {s₂ : State} {w : Word} {e : Effect}
    (hop : (Op.decode w).hasDest = true) (hplan : plan w s₁ = .ok (e, s₂)) :
    e.dest = some (destOf w, lc3Value w s) := by
  have hbase : s₁.registers (baseOf w) = s.registers (baseOf w) :=
    hfetched.general (Reg.low3_general _)
  unfold plan at hplan
  unfold lc3Value
  cases hdec : Op.decode w
  all_goals
    rw [hdec] at hop hplan
    simp only [map_eq_ok, bind_eq_ok, Except.ok.injEq, Prod.mk.injEq, Prod.exists] at hplan
  case add =>
    rw [← hplan.1, hbase, hfetched.operand2_same]
    rfl
  case and =>
    rw [← hplan.1, hbase, hfetched.operand2_same]
  case not =>
    rw [← hplan.1, hbase]
    rfl
  case lea =>
    rw [← hplan.1, hfetched.pcRelative_next]
    rfl
  case ld =>
    obtain ⟨v, u, hread, rfl, rfl⟩ := hplan
    rw [hfetched.pcRelative_next] at hread
    simp only [hfetched.peek_before hstdin hread]
    rfl
  case ldr =>
    obtain ⟨v, u, hread, rfl, rfl⟩ := hplan
    rw [hfetched.baseOffset_same] at hread
    simp only [hfetched.peek_before hstdin hread]
    rfl
  case ldi =>
    obtain ⟨p, u, hread, v, u', hread', rfl, rfl⟩ := hplan
    rw [hfetched.pcRelative_next] at hread
    simp only [hfetched.peekIndirect_before hstdin hread hread']
  all_goals exact absurd hop (by decide)

end

/-! ## Iterations -/

/-- An instruction with a destination register is no trap, so nothing but an address can stop it. -/
theorem dispatch_total {w : Word} {s : State} (hop : (Op.decode w).hasDest = true)
    (hdata : 0xFFFF ∉ effectiveAddresses w s) : ∃ t, dispatch w s = .ok t := by
  have hnotrap : Op.decode w ≠ .trap := fun h => by
    rw [h] at hop
    exact absurd hop (by decide)
  cases hdispatch : dispatch w s with
  | ok t => exact ⟨t, rfl⟩
  | error x =>
      rcases dispatch_eq_error hdispatch with ⟨i, rfl⟩ | ⟨-, hkey, -⟩ | ⟨-, htrap⟩
      · exact absurd ((dispatch_index_iff w s).1 ⟨i, hdispatch⟩) hdata
      · exact absurd hkey hnotrap
      · rw [trapOf_of_ne hnotrap] at htrap
        simp at htrap

/-- For every state and every `ADD`, `AND`, `NOT`, `LD`, `LDI`, `LDR` or `LEA` word fetched from it,
    none of whose effective addresses is `0xFFFF`: the iteration completes, and the destination
    register holds the value computed from the state before it. -/
theorem valueLaw {s s₁ : State} {w : Word} (hfetch : fetch s = .ok (w, s₁))
    (hop : (Op.decode w).hasDest = true) (hdata : 0xFFFF ∉ effectiveAddresses w s₁) :
    ∃ t, iteration s = .ok t ∧ t.registers (destOf w) = lc3Value w s := by
  obtain ⟨t, hdispatch⟩ := dispatch_total hop hdata
  have hexec : Executes s w t := ⟨s₁, hfetch, hdispatch⟩
  refine ⟨t, iteration_eq_ok.2 ⟨w, hexec⟩, ?_⟩
  obtain ⟨s₁', e, s₂, hfetch', hplan, hread₁, hread₂, hfits, hcommit⟩ := hexec.cases
  -- a word with one of these opcodes does not come from a device register
  have hstdin : s₁'.stdin = s.stdin := by
    apply fetch_stdin hfetch'
    rintro (h | ⟨h, -⟩ | ⟨h, -⟩) <;> rw [h] at hop <;> exact absurd hop (by decide)
  exact (trip_of_commits hread₁ hread₂ hfits hcommit).general_dest
    (plan_dest hread₁ hstdin hop hplan)

/-- `LDR R1, R1, #2` as the first instruction, with a base that is also the destination. -/
theorem valueLaw_ldr :
    ∃ s s₁, Booted s ∧ fetch s = .ok (0x6242, s₁) ∧
      ∃ t, iteration s = .ok t ∧ t.registers (destOf 0x6242) = lc3Value 0x6242 s := by
  have hstart : ∃ s s₁, Booted s ∧ fetch s = .ok (0x6242, s₁) ∧
      0xFFFF ∉ effectiveAddresses 0x6242 s₁ :=
    ⟨_, _, ⟨some (imageFile 0x3000 [0x6242]), 0, noInput, rfl⟩, rfl, by decide⟩
  obtain ⟨s, s₁, hboot, hfetch, hdata⟩ := hstart
  exact ⟨s, s₁, hboot, hfetch, valueLaw hfetch rfl hdata⟩

end Yavm.Lc3
