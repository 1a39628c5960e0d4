import Yavm.Lc3.Execute

set_option autoImplicit false

/-! # Subroutine linkage

`JSR` leaves the return address in `R7`, and it stays there for as long as no instruction writes
`R7` (`link_kept`). `JMP` is where the linkage breaks: its handler shifts where it should mask, and
a word with the opcode of `JMP` then always selects `R6` (`jmpBase_eq`). `linkage_iff` says when the
return still arrives, over every run of the callee. `JSRR` has its own defect: it writes `R7` before
it reads the base register, which shows exactly when that is `R7` as well (`callLaw_iff`). -/

namespace Yavm.Lc3

open Basis

/-! ## What a fetch from a device register can be -/

/-- A device register reads as a status word, zero, a byte, or `EOF`. -/
theorem readAt_device_value {a v : Word} {s t : State} (hdev : IsDevice a)
    (h : readAt a s = .ok (v, t)) : v = statusBit ∨ v = 0xFFFF ∨ ∃ b : Byte, v = b.setWidth 16 := by
  have hzero : (0 : Word) = (0 : Byte).setWidth 16 := rfl
  have hpoll : (pollKeyboard s).1 = statusBit ∨ (pollKeyboard s).1 = 0 := by
    unfold pollKeyboard
    split <;> simp
  rcases hdev with rfl | rfl | rfl | rfl
  · simp only [readAt, if_true, Except.ok.injEq] at h
    rw [h] at hpoll
    exact hpoll.imp_right fun hv => Or.inr ⟨0, hv.trans hzero⟩
  · simp only [readAt, if_neg (show mrKbdr ≠ mrKbsr by decide), if_true] at h
    split at h
    · obtain ⟨⟨c, u⟩, -, heq⟩ := map_eq_ok.1 h
      simp only [Prod.mk.injEq] at heq
      cases c with
      | none => exact Or.inr (Or.inl heq.1.symm)
      | some b => exact Or.inr (Or.inr ⟨b, heq.1.symm⟩)
    · simp only [Except.ok.injEq, Prod.mk.injEq] at h
      exact Or.inr (Or.inr ⟨0, h.1 ▸ hzero⟩)
  · simp only [readAt, if_neg (show mrDsr ≠ mrKbsr by decide),
      if_neg (show mrDsr ≠ mrKbdr by decide), if_true, Except.ok.injEq, Prod.mk.injEq] at h
    exact Or.inl h.1.symm
  · simp only [readAt, if_neg (show mrDdr ≠ mrKbsr by decide),
      if_neg (show mrDdr ≠ mrKbdr by decide), if_neg (show mrDdr ≠ mrDsr by decide), if_true,
      Except.ok.injEq, Prod.mk.injEq] at h
    exact Or.inr (Or.inr ⟨0, h.1 ▸ hzero⟩)

/-- A word fetched from a device register is `RTI`, a `BR` that is never taken, or an unknown
    trap. -/
theorem device_word_inert {v : Word}
    (h : v = statusBit ∨ v = 0xFFFF ∨ ∃ b : Byte, v = b.setWidth 16) :
    Op.decode v = .rti ∨ (Op.decode v = .trap ∧ TrapCode.decode v = none) ∨
      (Op.decode v = .br ∧ anyCondition v = false) := by
  rcases h with rfl | rfl | ⟨b, rfl⟩
  · exact Or.inl rfl
  · exact Or.inr (Or.inl ⟨rfl, rfl⟩)
  · refine Or.inr (Or.inr ⟨?_, ?_⟩)
    · have hb : ((b.setWidth 16) >>> 12).toNat = 0 := by
        have := b.isLt
        simp only [BitVec.toNat_ushiftRight, BitVec.toNat_setWidth, Nat.shiftRight_eq_div_pow]
        omega
      rw [Op.decode, hb]
      rfl
    · simp [anyCondition, BitVec.getLsbD_of_ge]

/-- An instruction that is not inert was fetched from an ordinary cell, and left the input alone. -/
theorem fetch_stdin {s s₁ : State} {w : Word} (h : fetch s = .ok (w, s₁))
    (hactive : ¬ (Op.decode w = .rti ∨ (Op.decode w = .trap ∧ TrapCode.decode w = none) ∨
      (Op.decode w = .br ∧ anyCondition w = false))) : s₁.stdin = s.stdin := by
  unfold fetch at h
  by_cases hdev : IsDevice (s.registers .pc)
  · obtain ⟨u, hread, -⟩ := memoryRead_eq_ok.1 h
    exact absurd (device_word_inert (readAt_device_value hdev hread)) hactive
  · rw [memoryRead_cell _ hdev (lt_uint16Max_iff.2 (ne_top_of_memoryRead h)), Except.ok.injEq,
      Prod.mk.injEq] at h
    rw [← h.2]
    rfl

/-! ## `JMP` -/

/-- The instruction set's meaning of a `JMP` word executed from `s` to `t`. -/
structure JmpLaw (instruction : Word) (s t : State) : Prop where
  pc : t.registers .pc = s.registers (baseOf instruction)
  registers : ∀ r, r ≠ .pc → t.registers r = s.registers r
  memory : t.memory = s.memory
  running : t.running = s.running
  stdin : t.stdin = s.stdin
  stdout : t.stdout = s.stdout

/-- On a word with the opcode of `JMP`, `(instruction >> 6) >> 7` is `0b110`. -/
theorem jmpBase_eq {w : Word} (h : Op.decode w = .jmp) : jmpBase w = .r6 := by
  have hcode : (w >>> 12).toNat = 12 := by
    unfold Op.decode at h
    split at h <;> first | assumption | exact absurd h (by decide)
  have hlt := w.isLt
  -- the shift by 13 leaves bits 15..13 of the word, the top of the opcode `0b1100`
  apply Fin.ext
  change ((w >>> 6) >>> 0x7).toNat = 6
  simp only [BitVec.toNat_ushiftRight, Nat.shiftRight_eq_div_pow] at hcode ⊢
  omega

/-- What a `JMP` does. -/
theorem jmp_trip {s t : State} {w : Word} (h : Executes s w t) (hop : Op.decode w = .jmp) :
    ∃ s₁, fetch s = .ok (w, s₁) ∧ Trip s w { pc := some (s₁.registers .r6) } t ∧
      t.stdin = s₁.stdin := by
  apply h.trip_of_plan
  intro s₁
  rw [← jmpBase_eq hop, plan, hop]

/-- Where `JMP` goes. -/
theorem jmp_pc {s t : State} {w : Word} (h : Executes s w t) (hop : Op.decode w = .jmp) :
    t.registers .pc = s.registers .r6 := by
  obtain ⟨s₁, hfetch, htrip, -⟩ := jmp_trip h hop
  rw [htrip.pc]
  exact (fetch_fetched hfetch).general (by decide)

/-- What `JMP` leaves alone. -/
theorem jmp_frame {s t : State} {w : Word} (h : Executes s w t) (hop : Op.decode w = .jmp) :
    (∀ r, r ≠ .pc → t.registers r = s.registers r) ∧ t.memory = s.memory ∧
      t.running = s.running ∧ t.stdin = s.stdin ∧ t.stdout = s.stdout := by
  obtain ⟨s₁, hfetch, htrip, hin⟩ := jmp_trip h hop
  have hstdin : s₁.stdin = s.stdin := fetch_stdin hfetch (by simp [hop])
  refine ⟨fun r hr => htrip.registers_same ?_ (by rw [hop]; rfl) hr, htrip.memory_same ?_, ?_,
    hin.trans hstdin, ?_⟩
  · rw [writesReg, hop]
  · rw [hop]
    rfl
  · simpa using htrip.running
  · simpa using htrip.stdout

/-- A `JMP` goes where the instruction set says exactly when `R6` and its base register agree. -/
theorem jmpLaw_iff {s t : State} {w : Word} (h : Executes s w t) (hop : Op.decode w = .jmp) :
    JmpLaw w s t ↔ s.registers .r6 = s.registers (baseOf w) := by
  rw [← jmp_pc h hop]
  obtain ⟨hregs, hmem, hrun, hin, hout⟩ := jmp_frame h hop
  exact ⟨JmpLaw.pc, fun hpc => ⟨hpc, hregs, hmem, hrun, hin, hout⟩⟩

/-! ## Calls -/

/-- The next instruction does not write `R7`; in particular it is no `JSR` or `JSRR`. -/
def KeepsLink (s : State) : Prop :=
  ∀ w s₁, fetch s = .ok (w, s₁) → writesReg w ≠ some .r7

/-- `t` is reached from a `JSR` with an offset at `s` by steps that do not write `R7`. -/
def CalledFrom (s t : State) : Prop :=
  ∃ w s' m, Executes s w s' ∧ Op.decode w = .jsr ∧ w.getLsbD 11 = true ∧
    steps emulateStep m s' = .ok t ∧ ∀ k < m, ∀ u, steps emulateStep k s' = .ok u → KeepsLink u

/-- What a `JSR` or `JSRR` does: it writes the link register, and reads the base register after
    that. -/
theorem jsr_trip {s t : State} {w : Word} (h : Executes s w t) (hop : Op.decode w = .jsr) :
    ∃ s₁, Fetched s s₁ ∧ Trip s w (jsrEffect w s₁) t := by
  obtain ⟨s₁, hfetch, htrip, -⟩ := h.trip_of_plan fun s₁ => by rw [plan, hop]
  exact ⟨s₁, fetch_fetched hfetch, htrip⟩

/-- `JSR` leaves the address of the next instruction in `R7`. -/
theorem jsr_link {s t : State} {w : Word} (h : Executes s w t) (hop : Op.decode w = .jsr) :
    t.registers .r7 = s.registers .pc + 1 := by
  obtain ⟨s₁, hfetched, htrip⟩ := jsr_trip h hop
  rw [htrip.general_dest rfl, hfetched.pc]

/-- **Step lemma.** A step that does not write `R7` keeps the link. -/
theorem link_step {s t : State} (hkeep : KeepsLink s) (h : emulateStep s = .ok t) :
    t.registers .r7 = s.registers .r7 := by
  obtain ⟨-, w, hexec⟩ := emulateStep_eq_ok.1 h
  obtain ⟨s₁, hfetch, -⟩ := id hexec
  obtain ⟨e, htrip⟩ := hexec.trip
  exact htrip.general_other (by decide) (hkeep w s₁ hfetch)

/-- The link survives the callee. -/
theorem link_kept {s t : State} (h : CalledFrom s t) :
    t.registers .r7 = s.registers .pc + 1 := by
  obtain ⟨w, s', m, hcall, hop, -, hrun, hkeep⟩ := h
  exact steps_invariant_along (fun u => u.registers .r7 = s.registers .pc + 1) KeepsLink
    (fun u v hlink hk hstep => (link_step hk hstep).trans hlink) (jsr_link hcall hop) hkeep hrun

/-- For every `JMP` executed: it sets the program counter to the value of its base register and
    changes nothing else if and only if `R6` holds that value; and after every `JSR` with an offset
    and every run of a callee that does not write `R7`, the `RET` it reaches goes to the instruction
    after the `JSR` if and only if `R6` and `R7` hold the same value. -/
theorem linkage_iff {t t' : State} {w : Word} (h : Executes t w t') (hop : Op.decode w = .jmp) :
    (JmpLaw w t t' ↔ t.registers .r6 = t.registers (baseOf w)) ∧
      ∀ s, CalledFrom s t → baseOf w = .r7 →
        (t'.registers .pc = s.registers .pc + 1 ↔ t.registers .r6 = t.registers .r7) := by
  refine ⟨jmpLaw_iff h hop, fun s hcalled _ => ?_⟩
  rw [jmp_pc h hop, link_kept hcalled]

/-- The equivalence on `JSR #1` at `0x3000`, with `ADD R6, R7, #0` and `RET` from `0x3002` on. -/
theorem linkage_iff_return :
    ∃ s t t', Booted s ∧ CalledFrom s t ∧ Executes t 0xC1C0 t' ∧
      (JmpLaw 0xC1C0 t t' ↔ t.registers .r6 = t.registers (baseOf 0xC1C0)) ∧
      (t'.registers .pc = s.registers .pc + 1 ↔ t.registers .r6 = t.registers .r7) := by
  have hrun : ∃ s s₁ t t', Booted s ∧ Executes s 0x4801 s₁ ∧ KeepsLink s₁ ∧
      steps emulateStep 1 s₁ = .ok t ∧ Executes t 0xC1C0 t' := by
    refine ⟨_, _, _, _, ⟨some (imageFile 0x3000 [0x4801, 0xF025, 0x1DE0, 0xC1C0]), 0, noInput, rfl⟩,
      ⟨_, rfl, rfl⟩, (forall_ok rfl).2 (by decide), rfl, ⟨_, rfl, rfl⟩⟩
  obtain ⟨s, s₁, t, t', hboot, hcall, hkeep, hstep, hret⟩ := hrun
  have hcalled : CalledFrom s t := by
    refine ⟨_, _, _, hcall, rfl, rfl, hstep, fun k hk u hu => ?_⟩
    obtain rfl : k = 0 := Nat.lt_one_iff.1 hk
    obtain rfl : s₁ = u := Except.ok.inj hu
    exact hkeep
  have hlaw := linkage_iff hret rfl
  exact ⟨s, t, t', hboot, hcalled, hret, hlaw.1, hlaw.2 s hcalled rfl⟩

/-- `JSR #1` at `0x3000` and `RET` at `0x3002`: the return goes to `R6`, which is still zero. -/
theorem linkage_broken_by_ret :
    ∃ s t t', Booted s ∧ CalledFrom s t ∧ Executes t 0xC1C0 t' ∧
      baseOf 0xC1C0 = .r7 ∧ t'.registers .pc = 0 ∧ t'.registers .pc ≠ s.registers .pc + 1 ∧
      ¬ JmpLaw 0xC1C0 t t' := by
  refine ⟨_, _, _, ⟨some (imageFile 0x3000 [0x4801, 0xF025, 0xC1C0]), 0, noInput, rfl⟩,
    ⟨0x4801, _, 0, ⟨_, rfl, rfl⟩, rfl, rfl, rfl, fun k hk => absurd hk (Nat.not_lt_zero k)⟩,
    ⟨_, rfl, rfl⟩, rfl, rfl, by decide, fun h => ?_⟩
  exact absurd h.pc (by decide)

/-! ## `JSR` and `JSRR` -/

/-- The instruction set's meaning of a `JSR` or `JSRR` word executed from `s` to `t`. -/
structure CallLaw (instruction : Word) (s t : State) : Prop where
  link : t.registers .r7 = s.registers .pc + 1
  pc : t.registers .pc = if instruction.getLsbD 11 then s.registers .pc + 1 + sext 11 instruction
    else s.registers (baseOf instruction)
  registers : ∀ r, r ≠ .r7 → r ≠ .pc → t.registers r = s.registers r
  memory : t.memory = s.memory

/-- The base register is read before it can be overwritten, or keeps its value when it is. -/
def BaseKept (instruction : Word) (s : State) : Prop :=
  instruction.getLsbD 11 = true ∨ baseOf instruction ≠ .r7 ∨
    s.registers .r7 = s.registers .pc + 1

/-- Where `JSR` and `JSRR` go. -/
theorem jsr_pc {s t : State} {w : Word} (h : Executes s w t) (hop : Op.decode w = .jsr) :
    t.registers .pc = if w.getLsbD 11 then s.registers .pc + 1 + sext 11 w
      else Function.update s.registers .r7 (s.registers .pc + 1) (baseOf w) := by
  obtain ⟨s₁, hfetched, htrip⟩ := jsr_trip h hop
  have hbase : Function.update s₁.registers .r7 (s.registers .pc + 1) (baseOf w)
      = Function.update s.registers .r7 (s.registers .pc + 1) (baseOf w) := by
    by_cases hlink : baseOf w = .r7
    · rw [hlink, Function.update_self, Function.update_self]
    · rw [Function.update_of_ne hlink, Function.update_of_ne hlink]
      exact hfetched.general (Reg.low3_general _)
  rw [htrip.pc, jsrEffect, hfetched.pc, hbase]
  rfl

/-- What `JSR` and `JSRR` leave alone. -/
theorem jsr_frame {s t : State} {w : Word} (h : Executes s w t) (hop : Op.decode w = .jsr) :
    (∀ r, r ≠ .r7 → r ≠ .pc → t.registers r = s.registers r) ∧ t.memory = s.memory := by
  obtain ⟨s₁, -, htrip⟩ := jsr_trip h hop
  have hwrites : writesReg w = some .r7 := by rw [writesReg, hop]
  refine ⟨fun r hlink hpc => ?_, htrip.memory_same (by rw [hop]; rfl)⟩
  rcases r.general_or with hgen | rfl | rfl
  · exact htrip.general_other hgen fun hw => hlink (Option.some.inj (hw.symm.trans hwrites))
  · exact absurd rfl hpc
  · exact htrip.cond_same (by rw [hop]; rfl)

/-- For every state and every `JSR` or `JSRR` word fetched from it: the iteration completes, and
    does what the instruction set says if and only if the word has an offset, or its base is not
    `R7`, or `R7` already holds the address of the next instruction. -/
theorem callLaw_iff {s s₁ : State} {w : Word} (hfetch : fetch s = .ok (w, s₁))
    (hop : Op.decode w = .jsr) :
    ∃ t, iteration s = .ok t ∧ (CallLaw w s t ↔ BaseKept w s) := by
  have hexec : Executes s w (jsr w s₁) := by
    refine ⟨s₁, hfetch, ?_⟩
    rw [dispatch, hop]
  refine ⟨_, iteration_eq_ok.2 ⟨w, hexec⟩, ?_⟩
  obtain ⟨hregs, hmem⟩ := jsr_frame hexec hop
  have hlaw : CallLaw w s (jsr w s₁) ↔ (jsr w s₁).registers .pc
      = if w.getLsbD 11 then s.registers .pc + 1 + sext 11 w else s.registers (baseOf w) :=
    ⟨CallLaw.pc, fun hpc => ⟨jsr_link hexec hop, hpc, hregs, hmem⟩⟩
  rw [hlaw, jsr_pc hexec hop, BaseKept]
  by_cases hoffset : w.getLsbD 11 = true
  · rw [if_pos hoffset, if_pos hoffset]
    exact iff_of_true rfl (Or.inl hoffset)
  · rw [if_neg hoffset, if_neg hoffset, or_iff_right hoffset]
    -- only when the base is the link register does the order of the two accesses show
    by_cases hlink : baseOf w = .r7
    · rw [hlink, Function.update_self, eq_comm, or_iff_right (not_not.2 rfl)]
    · rw [Function.update_of_ne hlink]
      exact iff_of_true rfl (Or.inl hlink)

/-- The equivalence on `JSRR R2` as the first instruction. -/
theorem callLaw_iff_jsrr :
    ∃ s s₁, Booted s ∧ fetch s = .ok (0x4080, s₁) ∧
      ∃ t, iteration s = .ok t ∧ (CallLaw 0x4080 s t ↔ BaseKept 0x4080 s) := by
  have hstart : ∃ s s₁, Booted s ∧ fetch s = .ok (0x4080, s₁) :=
    ⟨_, _, ⟨some (imageFile 0x3000 [0x4080]), 0, noInput, rfl⟩, rfl⟩
  obtain ⟨s, s₁, hboot, hfetch⟩ := hstart
  exact ⟨s, s₁, hboot, hfetch, callLaw_iff hfetch rfl⟩

/-- `JSRR R7` as the first instruction goes to `0x3001`; `R7` was zero. -/
theorem callLaw_broken_by_r7 :
    ∃ s t, Booted s ∧ Executes s 0x41C0 t ∧ ¬ CallLaw 0x41C0 s t := by
  refine ⟨_, _, ⟨some (imageFile 0x3000 [0x41C0]), 0, noInput, rfl⟩, ⟨_, rfl, rfl⟩, fun h => ?_⟩
  exact absurd h.pc (by decide)

end Yavm.Lc3
