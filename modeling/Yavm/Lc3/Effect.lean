import Yavm.Lc3.Image

set_option autoImplicit false

/-! # Instructions as effects

Every instruction of the C machine has two phases: it reads (registers, memory, the keyboard), and
then it commits what it decided — at most one general-purpose register, the condition codes, the
program counter, one memory word, some output, the running flag. `plan` is the first phase and
computes an `Effect`; `Effect.commit` is the second. `dispatch_eq_plan` shows that the handlers of
`vm.c` are exactly this, so that everything proved about whole runs goes through the two phases and
never unfolds a handler.

`plan` is stated in the words of the LC-3 instruction set (two's-complement fields, effective
addresses, the sign of a result); where the C machine departs from the instruction set — `AND` and
`LDI` leave the condition codes, `BR` does not test them, `JMP` has its own base register, `IN`
drops its byte — `plan` says what the C machine does. -/

namespace Yavm.Lc3

open Basis

/-! ## Instruction fields and values -/

/-- The two's-complement reading of the low `n` bits, as a word. -/
def sext (n : ℕ) (x : Word) : Word := (x.setWidth n).signExtend 16

/-- Bits 11..9: the destination of most instructions, the source of the stores. -/
def destOf (instruction : Word) : Reg := Reg.low3 (instruction >>> 9)

/-- Bits 8..6: the base or first source register. -/
def baseOf (instruction : Word) : Reg := Reg.low3 (instruction >>> 6)

theorem destOf_general (instruction : Word) : (destOf instruction).General :=
  Reg.low3_general _

theorem baseOf_general (instruction : Word) : (baseOf instruction).General :=
  Reg.low3_general _

/-- The second operand of `ADD` and `AND`: an immediate when bit 5 is set, else a register. -/
def operand2 (instruction : Word) (s : State) : Word :=
  if instruction.getLsbD 5 then sext 5 instruction else s.registers (Reg.low3 instruction)

/-- `PC + sext9`. -/
def pcRelative (instruction : Word) (s : State) : Word :=
  s.registers .pc + sext 9 instruction

/-- `base + sext6`. -/
def baseOffset (instruction : Word) (s : State) : Word :=
  s.registers (baseOf instruction) + sext 6 instruction

/-- A `BR` word has one of its condition bits n, z, p (bits 11, 10, 9) set. -/
def anyCondition (instruction : Word) : Bool :=
  instruction.getLsbD 11 || instruction.getLsbD 10 || instruction.getLsbD 9

/-- The two's-complement sign of a word. -/
def sign (v : Word) : Flag :=
  if v = 0 then .zr else if v.toInt < 0 then .neg else .pos

theorem signExtend_field {n : ℕ} (hn : 0 < n) (hw : n ≤ 16) (x : Word) :
    signExtend (x &&& BitVec.ofNat 16 (2 ^ n - 1)) n = sext n x := by
  rw [and_mask_eq_setWidth, sext, ← extendByMask_setWidth hn hw]
  rfl

theorem signExtend_5 (x : Word) : signExtend (x &&& 0x1F) 5 = sext 5 x :=
  signExtend_field (n := 5) (by decide) (by decide) x

theorem signExtend_6 (x : Word) : signExtend (x &&& 0x3F) 6 = sext 6 x :=
  signExtend_field (n := 6) (by decide) (by decide) x

theorem signExtend_9 (x : Word) : signExtend (x &&& 0x1FF) 9 = sext 9 x :=
  signExtend_field (n := 9) (by decide) (by decide) x

theorem signExtend_11 (x : Word) : signExtend (x &&& 0x7FF) 11 = sext 11 x :=
  signExtend_field (n := 11) (by decide) (by decide) x

/-- Bit 15 is the sign bit. -/
theorem sign_bit_iff (v : Word) : (v >>> 15) &&& 0x1 ≠ 0 ↔ v.toInt < 0 := by
  rw [show (0x1 : Word) = 1#16 from rfl, show (0 : Word) = 0#16 from rfl,
    shiftRight_and_one_ne_zero, ← BitVec.msb_eq_getLsbD_last v, BitVec.msb_eq_toInt,
    decide_eq_true_iff]

/-- `updateFlags` stores the sign of the register. -/
theorem updateFlags_eq (r : Reg) (s : State) :
    updateFlags r s = s.setReg .cond (sign (s.registers r)).code := by
  unfold updateFlags sign
  split_ifs with h₀ h₁ h₂ h₂
  · rfl
  · rfl
  · exact absurd ((sign_bit_iff _).1 h₁) h₂
  · exact absurd ((sign_bit_iff _).2 h₂) h₁
  · rfl

/-! ## Effects -/

/-- What an instruction commits once it has read its operands. -/
structure Effect where
  /-- The general-purpose register written, and its value. -/
  dest : Option (Reg × Word) := none
  /-- The condition code set. -/
  cond : Option Flag := none
  /-- The target of a control transfer. -/
  pc : Option Word := none
  /-- The memory word written. -/
  store : Option (Word × Word) := none
  output : List Byte := []
  halt : Bool := false

namespace Effect

/-- The effect of an instruction that writes a result and sets the condition codes from it. -/
def result (r : Reg) (v : Word) : Effect :=
  { dest := some (r, v), cond := some (sign v) }

/-- Write a register when there is something to write. -/
def setIf (regs : Reg → Word) (r : Reg) : Option Word → Reg → Word
  | none => regs
  | some v => Function.update regs r v

/-- The register file after the effect. -/
def registers (e : Effect) (regs : Reg → Word) : Reg → Word :=
  let regs := match e.dest with
    | none => regs
    | some (r, v) => Function.update regs r v
  setIf (setIf regs .cond (e.cond.map Flag.code)) .pc e.pc

/-- The second phase of an instruction. -/
def commit (e : Effect) (s : State) : Except Stop State :=
  let s := { s with registers := e.registers s.registers, running := s.running && !e.halt,
                    stdout := s.stdout ++ e.output }
  match e.store with
  | none => .ok s
  | some (a, v) => memoryWrite a v s

end Effect

/-- `BR` jumps when one of its condition bits is set, whatever the condition codes are. -/
def brEffect (instruction : Word) (s : State) : Effect :=
  if anyCondition instruction then { pc := some (pcRelative instruction s) } else {}

/-- `JSR` and `JSRR`: the link register is written before the base register is read. -/
def jsrEffect (instruction : Word) (s : State) : Effect where
  dest := some (.r7, s.registers .pc)
  -- so `JSRR R7` goes to the instruction after it
  pc := some (if instruction.getLsbD 11 then s.registers .pc + sext 11 instruction
    else Function.update s.registers .r7 (s.registers .pc) (baseOf instruction))

/-- The trap procedures, up to what they commit. -/
def planTrap (instruction : Word) (s : State) : Except Stop (Effect × State) :=
  match TrapCode.decode instruction with
  | some .getc => (getchar s).map fun (c, s) => ({ dest := some (.r0, charCode c) }, s)
  | some .in =>
    (getchar s).map fun (c, s) =>
      ({ output := ascii "Type in a character" ++ [lowByte (charCode c)] }, s)
  | some .out => .ok ({ output := [lowByte (s.registers .r0)] }, s)
  | some .puts =>
    (putsLoop s.memory (uint16Max - (s.registers .r0).toNat)).map fun out => ({ output := out }, s)
  | some .putsp =>
    (putspLoop s.memory (uint16Max - (s.registers .r0).toNat)).map fun out => ({ output := out }, s)
  | some .halt => .ok ({ output := ascii "Halting...\n", halt := true }, s)
  | none => .ok ({}, s)

/-- The first phase of an instruction: its effect, and the state after its reads. -/
def plan (instruction : Word) (s : State) : Except Stop (Effect × State) :=
  match Op.decode instruction with
  | .add =>
    .ok (.result (destOf instruction)
      (s.registers (baseOf instruction) + operand2 instruction s), s)
  | .and =>
    .ok ({ dest := some (destOf instruction,
            s.registers (baseOf instruction) &&& operand2 instruction s) }, s)
  | .not => .ok (.result (destOf instruction) (~~~s.registers (baseOf instruction)), s)
  | .lea => .ok (.result (destOf instruction) (pcRelative instruction s), s)
  | .ld =>
    (memoryRead (pcRelative instruction s) s).map fun (v, s) => (.result (destOf instruction) v, s)
  | .ldr =>
    (memoryRead (baseOffset instruction s) s).map fun (v, s) => (.result (destOf instruction) v, s)
  | .ldi => do
    let (pointer, s) ← memoryRead (pcRelative instruction s) s
    (memoryRead pointer s).map fun (v, s) => ({ dest := some (destOf instruction, v) }, s)
  | .st => .ok ({ store := some (pcRelative instruction s, s.registers (destOf instruction)) }, s)
  | .sti =>
    (memoryRead (pcRelative instruction s) s).map fun (pointer, t) =>
      ({ store := some (pointer, s.registers (destOf instruction)) }, t)
  | .str => .ok ({ store := some (baseOffset instruction s, s.registers (destOf instruction)) }, s)
  | .br => .ok (brEffect instruction s, s)
  | .jmp => .ok ({ pc := some (s.registers (jmpBase instruction)) }, s)
  | .jsr => .ok (jsrEffect instruction s, s)
  | .trap => planTrap instruction s
  | .rti => .ok ({}, s)
  | .res => .ok ({}, s)

/-! ## The handlers are their plans -/

theorem commit_result (r : Reg) (v : Word) (s : State) :
    (Effect.result r v).commit s = .ok (updateFlags r (s.setReg r v)) := by
  rw [updateFlags_eq]
  simp [Effect.result, Effect.commit, Effect.registers, Effect.setIf, State.setReg]

theorem commit_dest (r : Reg) (v : Word) (s : State) :
    Effect.commit { dest := some (r, v) } s = .ok (s.setReg r v) := by
  simp [Effect.commit, Effect.registers, Effect.setIf, State.setReg]

theorem commit_pc (v : Word) (s : State) :
    Effect.commit { pc := some v } s = .ok (s.setReg .pc v) := by
  simp [Effect.commit, Effect.registers, Effect.setIf, State.setReg]

theorem commit_store (a v : Word) (s : State) :
    Effect.commit { store := some (a, v) } s = memoryWrite a v s := by
  simp [Effect.commit, Effect.registers, Effect.setIf]

theorem commit_output (out : List Byte) (s : State) :
    Effect.commit { output := out } s = .ok (s.print out) := by
  simp [Effect.commit, Effect.registers, Effect.setIf, State.print]

theorem commit_none (s : State) : Effect.commit {} s = .ok s := by
  simp [Effect.commit, Effect.registers, Effect.setIf]

theorem bit_ne_zero (x : Word) (k : ℕ) : (x >>> k) &&& 0x1 ≠ 0 ↔ x.getLsbD k = true :=
  shiftRight_and_one_ne_zero x k

/-- The second operand, chosen as `add` and `and` choose it. -/
theorem choose_operand2 (w : Word) (s : State) (next : Word → State) :
    (if (w >>> 5) &&& 0x1 ≠ 0 then next (signExtend (w &&& 0x1F) 5)
      else next (s.registers (Reg.low3 w))) = next (operand2 w s) := by
  rw [operand2, signExtend_5]
  by_cases h : w.getLsbD 5 = true
  · rw [if_pos ((bit_ne_zero w 5).2 h), if_pos h]
  · rw [if_neg (fun hb => h ((bit_ne_zero w 5).1 hb)), if_neg h]

theorem add_eq (w : Word) (s : State) :
    Except.ok (ε := Stop) (add w s)
      = (Effect.result (destOf w) (s.registers (baseOf w) + operand2 w s)).commit s := by
  rw [commit_result, add]
  exact congrArg Except.ok (choose_operand2 w s fun y =>
    updateFlags (destOf w) (s.setReg (destOf w) (s.registers (baseOf w) + y)))

theorem and_eq (w : Word) (s : State) :
    Except.ok (ε := Stop) (and w s)
      = Effect.commit { dest := some (destOf w, s.registers (baseOf w) &&& operand2 w s) } s := by
  rw [commit_dest, and]
  exact congrArg Except.ok (choose_operand2 w s fun y =>
    s.setReg (destOf w) (s.registers (baseOf w) &&& y))

/-- The end of `ld` and `ldr`. -/
theorem load_eq (x : Except Stop (Word × State)) (r : Reg) :
    (x >>= fun (v, s) => .ok (updateFlags r (s.setReg r v)))
      = (x.map fun (v, s) => (Effect.result r v, s)) >>= fun (e, t) => e.commit t := by
  cases x with
  | error e => rfl
  | ok p => exact (commit_result _ _ _).symm

/-- Three bits or-ed together are nonzero exactly when one of them is. -/
theorem conditions_ne_zero (w : Word) :
    ((w >>> 11) &&& (0x1 : Word)) ||| ((w >>> 10) &&& (0x1 : Word)) ||| ((w >>> 9) &&& (0x1 : Word))
        ≠ 0
      ↔ anyCondition w = true := by
  have h₁₁ := bit_ne_zero w 11
  have h₁₀ := bit_ne_zero w 10
  have h₉ := bit_ne_zero w 9
  rw [anyCondition, Bool.or_eq_true, Bool.or_eq_true, ← h₁₁, ← h₁₀, ← h₉, ne_eq,
    show (0 : Word) = 0#16 from rfl, BitVec.or_eq_zero_iff, BitVec.or_eq_zero_iff,
    not_and_or, not_and_or]

theorem br_eq (w : Word) (s : State) :
    Except.ok (ε := Stop) (br w s) = (brEffect w s).commit s := by
  rw [br, signExtend_9, brEffect]
  by_cases h : anyCondition w = true
  · rw [if_pos h, commit_pc]
    exact congrArg _ (if_pos ((conditions_ne_zero w).2 h))
  · rw [if_neg h, commit_none]
    exact congrArg _ (if_neg (fun hb => h ((conditions_ne_zero w).1 hb)))

theorem jsr_eq (w : Word) (s : State) :
    Except.ok (ε := Stop) (jsr w s) = (jsrEffect w s).commit s := by
  rw [jsr, signExtend_11, jsrEffect]
  by_cases h : w.getLsbD 11 = true
  · simp only [if_pos ((bit_ne_zero w 0xB).2 h), if_pos h]
    simp [Effect.commit, Effect.registers, Effect.setIf, State.setReg]
  · simp only [if_neg (fun hb => h ((bit_ne_zero w 0xB).1 hb)), if_neg h]
    simp [Effect.commit, Effect.registers, Effect.setIf, State.setReg, baseOf]

theorem trap_eq_plan (w : Word) (s : State) :
    trap w s = planTrap w s >>= fun (e, t) => e.commit t := by
  unfold trap planTrap
  cases TrapCode.decode w with
  | none => exact (commit_none s).symm
  | some code =>
      cases code with
      | getc =>
          simp only [trapGetc]
          cases getchar s with
          | error e => rfl
          | ok p => exact (commit_dest _ _ _).symm
      | «in» =>
          -- the prompt is printed before the wait; in the plan all output follows the read
          simp only [trapIn, getchar_print]
          cases getchar s with
          | error e => rfl
          | ok p =>
              change Except.ok ((p.2.print _).print _) = _
              rw [State.print_print]
              exact (commit_output _ _).symm
      | out => exact (commit_output _ _).symm
      | puts =>
          simp only [trapPuts]
          cases putsLoop s.memory (uint16Max - (s.registers .r0).toNat) with
          | error e => rfl
          | ok out => exact (commit_output _ _).symm
      | putsp =>
          simp only [trapPutsp]
          cases putspLoop s.memory (uint16Max - (s.registers .r0).toNat) with
          | error e => rfl
          | ok out => exact (commit_output _ _).symm
      | halt =>
          simp [trapHalt, Effect.commit, Effect.registers, Effect.setIf, State.print, bind,
            Except.bind]

/-- **Two phases.** Every handler reads, and then commits one effect. -/
theorem dispatch_eq_plan (w : Word) (s : State) :
    dispatch w s = plan w s >>= fun (e, t) => e.commit t := by
  unfold dispatch plan
  cases Op.decode w with
  | add => exact add_eq w s
  | and => exact and_eq w s
  | br => exact br_eq w s
  | jmp => exact (commit_pc _ s).symm
  | jsr => exact jsr_eq w s
  | ld =>
      simp only [ld, signExtend_9]
      exact load_eq (memoryRead (pcRelative w s) s) (destOf w)
  | ldr =>
      simp only [ldr, signExtend_6]
      exact load_eq (memoryRead (baseOffset w s) s) (destOf w)
  | ldi =>
      simp only [ldi, signExtend_9]
      change (memoryRead (pcRelative w s) s >>= _) = _
      cases memoryRead (pcRelative w s) s with
      | error e => rfl
      | ok p =>
          change (memoryRead p.1 p.2 >>= _) = ((memoryRead p.1 p.2).map _ >>= _)
          cases memoryRead p.1 p.2 with
          | error e => rfl
          | ok q => exact (commit_dest _ _ _).symm
  | lea =>
      simp only [lea, signExtend_9]
      exact (commit_result _ _ _).symm
  | not => exact (commit_result _ _ _).symm
  | st =>
      simp only [st, signExtend_9]
      exact (commit_store _ _ _).symm
  | sti =>
      simp only [sti, signExtend_9]
      change (memoryRead (pcRelative w s) s >>= _) = _
      cases hread : memoryRead (pcRelative w s) s with
      | error e => rfl
      | ok p =>
          -- the handler evaluates `registers[sr]` after the pointer read, the plan before it
          have hregs := (memoryRead_readOnly hread).registers
          change memoryWrite p.1 (p.2.registers (destOf w)) p.2 = _
          rw [hregs]
          exact (commit_store _ _ _).symm
  | str =>
      simp only [str, signExtend_6]
      exact (commit_store _ _ _).symm
  | trap => exact trap_eq_plan w s
  | rti => exact (commit_none s).symm
  | res => exact (commit_none s).symm

end Yavm.Lc3
