import Mathlib.Tactic.IntervalCases
import Yavm.Lc3.Devices
import Yavm.Lc3.Linkage

set_option autoImplicit false

/-! # The machine against the processor of the instruction set

`Observes s m`: the state `s` of the C machine shows what the processor `m` of `Yavm.Isa.Machine`
does, on the same devices: the general-purpose registers, the program counter, memory, the keyboard,
the display, the running flag. Of the condition codes nothing is said: the C machine keeps its own,
and no handler reads them.

One instruction preserves this exactly if it is `Faithful`: every instruction is, except a branch
that is not taken, a `JMP` through another register than `R6`, a `JSRR` through `R7`, and `IN`.
`refinement_iff` carries this to whole runs. -/

namespace Yavm.Lc3

open Basis Isa

/-! ## Instruction fields -/

/-- The general-purpose register with this number. -/
def Reg.ofId (r : RegId) : Reg :=
  ⟨r.toNat, Nat.lt_trans r.isLt (by decide)⟩

theorem Reg.ofId_general (r : RegId) : (Reg.ofId r).General :=
  r.isLt

theorem Reg.ofId_inj {a b : RegId} : Reg.ofId a = Reg.ofId b ↔ a = b := by
  constructor
  · intro h
    exact BitVec.eq_of_toNat_eq (Fin.mk.inj h)
  · rintro rfl
    rfl

theorem low3_shift (w : Word) (k : ℕ) : Reg.low3 (w >>> k) = Reg.ofId (w.extractLsb' k 3) := by
  apply Fin.ext
  change ((w >>> k) &&& 0x7).toNat = (w.extractLsb' k 3).toNat
  rw [BitVec.toNat_and, BitVec.extractLsb'_toNat, BitVec.toNat_ushiftRight]
  exact Nat.and_two_pow_sub_one_eq_mod _ 3

theorem sext_eq {n : ℕ} (hn : n ≤ 16) (w : Word) :
    sext n w = (w.extractLsb' 0 n).signExtend 16 := by
  rw [sext, BitVec.setWidth_eq_extractLsb' hn]

theorem opcode_eq (w : Word) : (w.extractLsb' 12 4).toNat = (w >>> 12).toNat := by
  have hlt := w.isLt
  rw [BitVec.extractLsb'_toNat, BitVec.toNat_ushiftRight, Nat.shiftRight_eq_div_pow]
  omega

theorem operands_extract (w : Word) {start len : ℕ} (h : start + len ≤ 12) :
    (w.extractLsb' 0 12).extractLsb' start len = w.extractLsb' start len := by
  rw [BitVec.extractLsb'_extractLsb'_of_le h]

/-- The instruction in a word, by its opcode. -/
theorem decode_eq (w : Word) : Instr.decode w = match Op.decode w with
    | .br => .br (w.extractLsb' 9 3) (w.extractLsb' 0 9)
    | .add => .add (w.extractLsb' 9 3) (w.extractLsb' 6 3) (.decode (w.extractLsb' 0 6))
    | .ld => .ld (w.extractLsb' 9 3) (w.extractLsb' 0 9)
    | .st => .st (w.extractLsb' 9 3) (w.extractLsb' 0 9)
    | .jsr =>
      if w.extractLsb' 11 1 = 0b1#1 then .jsr (w.extractLsb' 0 11) else .jsrr (w.extractLsb' 6 3)
    | .and => .and (w.extractLsb' 9 3) (w.extractLsb' 6 3) (.decode (w.extractLsb' 0 6))
    | .ldr => .ldr (w.extractLsb' 9 3) (w.extractLsb' 6 3) (w.extractLsb' 0 6)
    | .str => .str (w.extractLsb' 9 3) (w.extractLsb' 6 3) (w.extractLsb' 0 6)
    | .rti => .rti
    | .not => .not (w.extractLsb' 9 3) (w.extractLsb' 6 3)
    | .ldi => .ldi (w.extractLsb' 9 3) (w.extractLsb' 0 9)
    | .sti => .sti (w.extractLsb' 9 3) (w.extractLsb' 0 9)
    | .jmp => .jmp (w.extractLsb' 6 3)
    | .res => .res
    | .lea => .lea (w.extractLsb' 9 3) (w.extractLsb' 0 9)
    | .trap => .trap (w.extractLsb' 0 8) := by
  simp only [Instr.decode, Instr.ofFields, opcode_eq, operands_extract, Nat.reduceAdd,
    Nat.reduceLeDiff]
  unfold Op.decode
  generalize (w >>> 12).toNat = op
  rcases op with _ | _ | _ | _ | _ | _ | _ | _ | _ | _ | _ | _ | _ | _ | _ | _ | op
  all_goals rfl

theorem flag_iff (w : Word) (k : ℕ) : w.extractLsb' k 1 = 0b1#1 ↔ w.getLsbD k = true := by
  constructor
  · intro h
    have hbit := congrArg (fun x => x.getLsbD 0) h
    simpa using hbit
  · intro h
    apply BitVec.eq_of_getLsbD_eq
    intro i hi
    obtain rfl : i = 0 := Nat.lt_one_iff.1 hi
    simpa using h

/-- A `BR` word asks for some condition. -/
theorem anyCondition_iff (w : Word) : anyCondition w = true ↔ w.extractLsb' 9 3 ≠ 0 := by
  have hnone : w.extractLsb' 9 3 = 0 ↔
      w.getLsbD 9 = false ∧ w.getLsbD 10 = false ∧ w.getLsbD 11 = false := by
    constructor
    · intro h
      have hbit : ∀ i < 3, w.getLsbD (9 + i) = false := fun i hi => by
        simpa [hi] using congrArg (fun x => x.getLsbD i) h
      exact ⟨hbit 0 (by decide), hbit 1 (by decide), hbit 2 (by decide)⟩
    · rintro ⟨h₀, h₁, h₂⟩
      apply BitVec.eq_of_getLsbD_eq
      intro i hi
      rw [BitVec.getLsbD_extractLsb']
      match i, hi with
      | 0, _ => simpa using h₀
      | 1, _ => simpa using h₁
      | 2, _ => simpa using h₂
  rw [ne_eq, hnone, anyCondition]
  cases w.getLsbD 9 <;> cases w.getLsbD 10 <;> cases w.getLsbD 11 <;> decide

/-- A trap vector is decoded from the low eight bits. -/
theorem trapCode_vector (w : Word) :
    TrapCode.decode ((w.extractLsb' 0 8).setWidth 16) = TrapCode.decode w := by
  have hmask : (w.extractLsb' 0 8).setWidth 16 &&& 0xFF = w &&& 0xFF := by
    apply BitVec.eq_of_toNat_eq
    rw [BitVec.toNat_and, BitVec.toNat_and, BitVec.toNat_setWidth, BitVec.extractLsb'_toNat]
    change _ % 2 ^ 8 % 2 ^ 16 &&& (2 ^ 8 - 1) = _ &&& (2 ^ 8 - 1)
    rw [Nat.and_two_pow_sub_one_eq_mod, Nat.and_two_pow_sub_one_eq_mod, Nat.shiftRight_zero]
    omega
  rw [TrapCode.decode, TrapCode.decode, hmask]

/-! ## What a processor and the machine have in common -/

/-- The state shows what the processor does. -/
structure Observes (s : State) (m : Machine Devices) : Prop where
  regs : ∀ r, s.registers (.ofId r) = m.regs r
  pc : s.registers .pc = m.pc
  devices : s.devices = m.bus

namespace Observes

variable {s : State} {m : Machine Devices} (h : Observes s m)
include h

theorem setReg (r : RegId) (v : Word) : Observes (s.setReg (.ofId r) v) (m.setReg r v) where
  regs x := by
    by_cases hx : x = r
    · subst hx
      simp [Machine.setReg]
    · have hne : Reg.ofId x ≠ Reg.ofId r := fun heq => hx (Reg.ofId_inj.1 heq)
      simp [Machine.setReg, hx, hne, h.regs]
  pc := by
    rw [State.setReg_registers, Function.update_of_ne (Reg.ofId_general r).ne_pc.symm]
    exact h.pc
  devices := h.devices

theorem setPc (v : Word) : Observes (s.setReg .pc v) { m with pc := v } where
  regs x := by
    rw [State.setReg_registers, Function.update_of_ne (Reg.ofId_general x).ne_pc]
    exact h.regs x
  pc := by rw [State.setReg_registers, Function.update_self]
  devices := h.devices

/-- The condition codes are not observed. -/
theorem setCond (v : Word) (sign : Sign) : Observes (s.setReg .cond v) { m with sign } where
  regs x := by
    rw [State.setReg_registers, Function.update_of_ne (Reg.ofId_general x).ne_cond]
    exact h.regs x
  pc := by
    rw [State.setReg_registers, Function.update_of_ne Reg.pc_ne_cond]
    exact h.pc
  devices := h.devices

theorem withSign (sign : Sign) : Observes s { m with sign } :=
  ⟨h.regs, h.pc, h.devices⟩

/-- `updateFlags` behind a result. -/
theorem result (r : RegId) (v : Word) :
    Observes (updateFlags (.ofId r) (s.setReg (.ofId r) v)) (m.result r v) := by
  rw [updateFlags_eq]
  exact (h.setReg r v).setCond _ _

theorem afterRead {t : State} {d : Devices} (hread : ReadOnly s t) (hdev : t.devices = d) :
    Observes t { m with bus := d } where
  regs x := (congrFun hread.registers _).trans (h.regs x)
  pc := (congrFun hread.registers _).trans h.pc
  devices := hdev

/-- What a trap procedure finds. -/
theorem service (r0 : Word) : (m.bus.state r0).devices = s.devices :=
  h.devices.symm

/-! ## Operands -/

theorem dest (w : Word) : s.registers (destOf w) = m.regs (w.extractLsb' 9 3) := by
  rw [destOf, low3_shift, h.regs]

theorem base (w : Word) : s.registers (baseOf w) = m.regs (w.extractLsb' 6 3) := by
  rw [baseOf, low3_shift, h.regs]

theorem near (w : Word) : pcRelative w s = m.near (w.extractLsb' 0 9) := by
  rw [pcRelative, h.pc, sext_eq (by decide)]
  rfl

theorem based (w : Word) :
    baseOffset w s = m.based (w.extractLsb' 6 3) (w.extractLsb' 0 6) := by
  rw [baseOffset, h.base, sext_eq (by decide)]
  rfl

theorem operand (w : Word) :
    operand2 w s = (Operand.decode (w.extractLsb' 0 6)).value m := by
  have hflag : (w.extractLsb' 0 6).extractLsb' 5 1 = w.extractLsb' 5 1 :=
    BitVec.extractLsb'_extractLsb'_of_le (by decide)
  have himm : (w.extractLsb' 0 6).extractLsb' 0 5 = w.extractLsb' 0 5 :=
    BitVec.extractLsb'_extractLsb'_of_le (by decide)
  have hreg : (w.extractLsb' 0 6).extractLsb' 0 3 = w.extractLsb' 0 3 :=
    BitVec.extractLsb'_extractLsb'_of_le (by decide)
  rw [operand2, Operand.decode, hflag, himm, hreg]
  by_cases hbit : w.getLsbD 5 = true
  · rw [if_pos hbit, if_pos ((flag_iff w 5).2 hbit), sext_eq (by decide)]
    rfl
  · rw [if_neg hbit, if_neg fun heq => hbit ((flag_iff w 5).1 heq)]
    have hlow := low3_shift w 0
    rw [BitVec.ushiftRight_zero] at hlow
    rw [hlow, h.regs]
    rfl

end Observes

/-! ## One instruction -/

/-- Where the machine does what the processor does, with the program counter behind the
    instruction. -/
def Faithful (i : Instr) (m : Machine Devices) : Prop :=
  match i with
  -- the machine branches whenever some condition is asked for
  | .br conditions offset => conditions = 0 ∨ offset = 0 ∨ m.sign.meets conditions = true
  | .jmp base => m.regs base = m.regs 6
  -- the machine has put the return address into `R7` when it reads the base register
  | .jsrr base => base = 7 → m.regs 7 = m.pc
  -- the machine leaves `R0` alone
  | .trap vector => TrapCode.decode (vector.setWidth 16) = some .in →
    ∀ c stdin, m.bus.stdin.getchar = some (c, stdin) → m.regs 0 = charCode c
  | _ => True

/-- The result of an instruction, in both machines. -/
def StepAlike (i : Instr) (m : Machine Devices) :
    Except Stop State → Except Stop (Machine Devices) → Prop :=
  Alike fun t m' => Observes t m' ↔ Faithful i m

theorem StepAlike.of_alike {i : Instr} {m : Machine Devices} {x : Except Stop State}
    {y : Except Stop (Machine Devices)} (hi : Faithful i m) (h : Alike Observes x y) :
    StepAlike i m x y :=
  h.mono fun _ _ _ _ hobs => iff_of_true hobs hi

section

variable {s : State} {m : Machine Devices} (h : Observes s m)
include h

theorem load_alike (r : RegId) (a : Word) {f : Word × State → Except Stop State}
    (hf : ∀ v t m', Observes t m' → Alike Observes (f (v, t)) (.ok (m'.result r v))) :
    Alike Observes (memoryRead a s >>= f) (Isa.load platform r a m) := by
  have hread := platform_read a h.devices
  cases hx : memoryRead a s with
  | error e =>
      rw [hx] at hread
      rw [Isa.load, hread.error_right]
      rfl
  | ok p =>
      rw [hx] at hread
      obtain ⟨q, hq, hv, hdev, hro⟩ := hread.exists_right
      rw [Isa.load, hq]
      change Alike _ (f p) (.ok (Machine.result r q.1 { m with bus := q.2 }))
      rw [hv]
      exact hf p.1 p.2 _ (h.afterRead hro hdev)

theorem store_alike (a v : Word) :
    Alike Observes (memoryWrite a v s) (Isa.store platform a v m) := by
  have hwrite := platform_write a v h.devices
  cases hx : memoryWrite a v s with
  | error e =>
      rw [hx] at hwrite
      rw [Isa.store, hwrite.error_right]
      rfl
  | ok t =>
      rw [hx] at hwrite
      obtain ⟨d, hd, hdev, hregs⟩ := hwrite.exists_right
      rw [Isa.store, hd]
      exact ⟨fun r => (congrFun hregs _).trans (h.regs r), (congrFun hregs _).trans h.pc, hdev⟩

/-- An instruction whose address is read from memory first. -/
theorem pointer_alike (a : Word) {f : Word × State → Except Stop State}
    {g : Word × Machine Devices → Except Stop (Machine Devices)}
    (hfg : ∀ p t m', Observes t m' → t.registers = s.registers → m'.regs = m.regs →
      Alike Observes (f (p, t)) (g (p, m'))) :
    Alike Observes (memoryRead a s >>= f) (pointer platform a m >>= g) := by
  have hread := platform_read a h.devices
  cases hx : memoryRead a s with
  | error e =>
      rw [hx] at hread
      rw [pointer, hread.error_right]
      rfl
  | ok p =>
      rw [hx] at hread
      obtain ⟨q, hq, hv, hdev, hro⟩ := hread.exists_right
      rw [pointer, hq]
      change Alike _ (f p) (g (q.1, { m with bus := q.2 }))
      rw [hv]
      exact hfg p.1 p.2 _ (h.afterRead hro hdev) hro.registers rfl

/-- A service that leaves `R0` alone. -/
theorem keeps_r0 {t : State} {d : Devices} (hregs : t.registers = s.registers)
    (hdev : t.devices = d) : Observes t (Machine.setReg 0 (m.regs 0) { m with bus := d }) := by
  refine ⟨fun r => ?_, (congrFun hregs _).trans h.pc, hdev⟩
  rw [Machine.setReg, Function.update_eq_self, hregs]
  exact h.regs r

/-- A jump, in both machines. -/
theorem setPc_iff {v v' : Word} :
    Observes (s.setReg .pc v) { m with pc := v' } ↔ v' = v := by
  constructor
  · intro hobs
    have hpc := hobs.pc
    rw [State.setReg_registers, Function.update_self] at hpc
    exact hpc.symm
  · rintro rfl
    exact h.setPc v'

theorem br_alike {w : Word} (hop : Op.decode w = .br) :
    StepAlike (Instr.decode w) m (dispatch w s) (exec platform (Instr.decode w) m) := by
  rw [decode_eq, hop, dispatch, hop]
  simp only
  rw [br_eq, brEffect, h.near]
  have hany := anyCondition_iff w
  generalize w.extractLsb' 9 3 = conditions at hany ⊢
  generalize w.extractLsb' 0 9 = offset
  have hnear : m.near offset = m.pc ↔ offset = 0 := by
    rw [Machine.near, BitVec.add_right_eq_self]
    exact signExtend_eq_zero_iff (by decide) _
  by_cases hcond : conditions = 0
  · subst hcond
    rw [if_neg fun hb => hany.1 hb rfl, commit_none]
    have hmeets : m.sign.meets 0 = false := by cases m.sign <;> rfl
    rw [exec, hmeets]
    exact iff_of_true h (Or.inl rfl)
  · rw [if_pos (hany.2 hcond), commit_pc, exec]
    by_cases hmeets : m.sign.meets conditions = true
    · rw [if_pos hmeets]
      exact iff_of_true (h.setPc _) (Or.inr (Or.inr hmeets))
    · rw [if_neg hmeets]
      change Observes _ _ ↔ _
      have hself : Observes (s.setReg .pc (m.near offset)) { m with pc := m.pc } ↔
          m.pc = m.near offset := setPc_iff h
      rw [hself, eq_comm, hnear, Faithful, or_iff_right hcond, or_iff_left hmeets]

theorem jsr_alike {w : Word} (hop : Op.decode w = .jsr) :
    StepAlike (Instr.decode w) m (dispatch w s) (exec platform (Instr.decode w) m) := by
  have hlink : Observes (s.setReg .r7 (s.registers .pc)) (m.setReg 7 m.pc) := h.pc ▸ h.setReg 7 m.pc
  rw [decode_eq, hop, dispatch, hop]
  simp only [jsr, signExtend_11]
  have hbit : (w >>> 11) &&& 0x1 ≠ 0 ↔ w.extractLsb' 11 1 = 0b1#1 :=
    (bit_ne_zero w 11).trans (flag_iff w 11).symm
  by_cases hflag : w.extractLsb' 11 1 = 0b1#1
  · rw [if_pos (hbit.2 hflag), if_pos hflag, exec, hlink.pc, sext_eq (by decide)]
    exact .of_alike trivial (hlink.setPc _)
  · rw [if_neg fun hb => hflag (hbit.1 hb), if_neg hflag, exec, low3_shift, hlink.regs]
    generalize w.extractLsb' 6 3 = base
    refine (setPc_iff hlink).trans ?_
    -- the link register is already written when the base register is read
    by_cases hbase : base = 7
    · subst hbase
      rw [Faithful, Machine.setReg_regs, Function.update_self]
      exact ⟨fun heq _ => heq, fun heq => heq rfl⟩
    · rw [Faithful, Machine.setReg_regs, Function.update_of_ne hbase]
      exact iff_of_true rfl fun heq => absurd heq hbase

theorem getc_alike :
    Alike Observes (trapGetc s)
      (((getchar (m.bus.state (m.regs 0))).map fun (c, s) => (charCode c, s.devices)).map
        fun (r0, bus) => Machine.setReg 0 r0 { m with bus }) := by
  have hget := getchar_devices (h.service (m.regs 0))
  unfold trapGetc
  cases hx : getchar s with
  | error e =>
      rw [hx] at hget
      rw [hget.error_right]
      rfl
  | ok p =>
      rw [hx] at hget
      obtain ⟨q, hq, hc, hdev, hro⟩ := hget.exists_right
      rw [hq]
      change Observes (p.2.setReg (.ofId 0) (charCode p.1)) (Machine.setReg 0 (charCode q.1) _)
      rw [hc]
      exact (h.afterRead hro hdev.symm).setReg 0 _

/-- The string traps print what `R0` points to. -/
theorem string_alike (bytesOf : Word → List Byte) :
    Alike Observes
      ((stringLoop bytesOf s.memory (uint16Max - (s.registers .r0).toNat)).map s.print)
      (((((stringLoop bytesOf (m.bus.state (m.regs 0)).memory
        (uint16Max - ((m.bus.state (m.regs 0)).registers .r0).toNat)).map
          (m.bus.state (m.regs 0)).print)).map fun s => (m.regs 0, s.devices)).map
            fun (r0, bus) => Machine.setReg 0 r0 { m with bus }) := by
  have hr0 : s.registers .r0 = m.regs 0 := h.regs 0
  have hmem : (m.bus.state (m.regs 0)).memory = s.memory :=
    congrArg Devices.memory h.devices.symm
  rw [hr0, hmem, state_r0]
  cases stringLoop bytesOf s.memory (uint16Max - (m.regs 0).toNat) with
  | error e => rfl
  | ok out => exact keeps_r0 h rfl (devices_print (h.service _) out).symm

/-- `IN` shows its byte, but does not hand it over. -/
theorem in_alike {vector : BitVec 8} (hvector : TrapCode.decode (vector.setWidth 16) = some .in) :
    StepAlike (.trap vector) m (trapIn s)
      (((getchar ((m.bus.state (m.regs 0)).print (ascii "Type in a character"))).map fun (c, s) =>
        (charCode c, (s.print [lowByte (charCode c)]).devices)).map fun (r0, bus) =>
          Machine.setReg 0 r0 { m with bus }) := by
  have hprompt := devices_print (h.service (m.regs 0)) (ascii "Type in a character")
  have hget := getchar_devices hprompt
  unfold trapIn
  cases hx : getchar (s.print (ascii "Type in a character")) with
  | error e =>
      rw [hx] at hget
      simp only [hx]
      rw [hget.error_right]
      rfl
  | ok p =>
      rw [hx] at hget
      obtain ⟨q, hq, hc, hdev, hro⟩ := hget.exists_right
      simp only [hx]
      rw [hq]
      change Observes (p.2.print [lowByte (charCode p.1)]) (Machine.setReg 0 (charCode q.1)
        { m with bus := (q.2.print [lowByte (charCode q.1)]).devices }) ↔ _
      rw [hc, devices_print hdev]
      obtain ⟨stdin, hstdin, -⟩ := getchar_eq_ok.1 hx
      have hsame : s.stdin = m.bus.stdin := congrArg Devices.stdin h.devices
      have hfaithful : Faithful (.trap vector) m ↔ m.regs 0 = charCode p.1 := by
        constructor
        · intro hf
          exact hf hvector p.1 stdin (hsame ▸ hstdin)
        · intro heq _ c stdin' hc'
          rw [← hsame] at hc'
          obtain ⟨rfl, -⟩ := Prod.mk.inj (Option.some.inj (hstdin.symm.trans hc'))
          exact heq
      rw [hfaithful]
      constructor
      · intro hobs
        have hzero := hobs.regs 0
        rw [Machine.setReg_regs, Function.update_self] at hzero
        exact (h.regs 0).symm.trans ((congrFun hro.registers _).symm.trans hzero)
      · intro heq
        rw [← heq]
        exact keeps_r0 h hro.registers rfl

theorem trap_alike {w : Word} (hop : Op.decode w = .trap) :
    StepAlike (Instr.decode w) m (dispatch w s) (exec platform (Instr.decode w) m) := by
  have hr0 : s.registers .r0 = m.regs 0 := h.regs 0
  have hcode := trapCode_vector w
  have hother : TrapCode.decode w ≠ some .in → Faithful (.trap (w.extractLsb' 0 8)) m :=
    fun hne hin => absurd (hcode.symm.trans hin) hne
  rw [decode_eq, hop, dispatch, hop, exec]
  simp only [platform, service, trap, hcode]
  cases hvector : TrapCode.decode w with
  | none => exact .of_alike (hother (by simp [hvector])) (keeps_r0 h rfl h.devices)
  | some code =>
    cases code
    case «in» => exact in_alike h (hcode.trans hvector)
    all_goals refine .of_alike (hother (by simp [hvector])) ?_
    case getc => exact getc_alike h
    case out =>
      refine keeps_r0 h rfl ?_
      rw [trapOut, trapOut, hr0, state_r0, devices_print (h.service _)]
    case puts => exact string_alike h putsBytes
    case putsp => exact string_alike h putspBytes
    case halt =>
      refine keeps_r0 h rfl ?_
      obtain ⟨hmem, -, hin, hout⟩ := Devices.mk.inj h.devices
      simp only [trapHalt, State.devices, State.print, hmem, hin, hout]
      rfl

/-- One case per opcode: an instruction ends alike in both machines, and leaves states that agree
    exactly if it is faithful. -/
theorem exec_alike (w : Word) :
    StepAlike (Instr.decode w) m (dispatch w s) (exec platform (Instr.decode w) m) := by
  cases hop : Op.decode w
  case br => exact br_alike h hop
  case jsr => exact jsr_alike h hop
  case trap => exact trap_alike h hop
  all_goals rw [decode_eq, hop, dispatch, hop]
  case add =>
    simp only
    rw [add_eq, commit_result, h.base, h.operand, destOf, low3_shift]
    exact .of_alike trivial (h.result _ _)
  case and =>
    simp only
    rw [and_eq, commit_dest, h.base, h.operand, destOf, low3_shift]
    exact .of_alike trivial ((h.setReg _ _).withSign _)
  case not =>
    have hnot : not w s
        = updateFlags (destOf w) (s.setReg (destOf w) (~~~s.registers (baseOf w))) := rfl
    rw [hnot, h.base, destOf, low3_shift]
    exact .of_alike trivial (h.result _ _)
  case lea =>
    have hlea : lea w s = updateFlags (destOf w) (s.setReg (destOf w) (pcRelative w s)) := by
      rw [lea, signExtend_9]
      rfl
    rw [hlea, h.near, destOf, low3_shift]
    exact .of_alike trivial (h.result _ _)
  case ld =>
    refine .of_alike trivial ?_
    rw [exec, ← h.near]
    simp only [ld, signExtend_9, low3_shift]
    refine load_alike h _ _ ?_
    intro v t m' hobs
    exact hobs.result _ v
  case ldr =>
    refine .of_alike trivial ?_
    rw [exec, ← h.based]
    simp only [ldr, signExtend_6, low3_shift w 9]
    refine load_alike h _ _ ?_
    intro v t m' hobs
    exact hobs.result _ v
  case ldi =>
    refine .of_alike trivial ?_
    rw [exec, ← h.near]
    simp only [ldi, signExtend_9, low3_shift]
    refine pointer_alike h _ ?_
    intro p t m' hobs _ _
    refine load_alike hobs _ _ ?_
    intro v t m' hobs
    exact (hobs.setReg _ v).withSign _
  case st =>
    refine .of_alike trivial ?_
    rw [exec, ← h.near, ← h.dest]
    simp only [st, signExtend_9]
    exact store_alike h _ _
  case str =>
    refine .of_alike trivial ?_
    rw [exec, ← h.based, ← h.dest]
    simp only [str, signExtend_6]
    exact store_alike h _ _
  case sti =>
    refine .of_alike trivial ?_
    rw [exec, ← h.near]
    simp only [sti, signExtend_9]
    refine pointer_alike h _ ?_
    intro p t m' hobs _ _
    rw [← hobs.dest]
    exact store_alike hobs _ _
  case jmp =>
    have hbase : s.registers (jmpBase w) = m.regs 6 := by
      rw [jmpBase_eq hop]
      exact h.regs 6
    rw [jmp, hbase, exec]
    exact setPc_iff h
  case rti | res => exact iff_of_true h trivial

/-! ## One step -/

theorem fetch_alike :
    Alike (fun p p' => p'.1 = p.1 ∧ Observes p.2 p'.2) (fetch s) (Isa.fetch platform m) := by
  have hnext : Observes (s.setReg .pc (s.registers .pc + 1)) { m with pc := m.pc + 1 } :=
    h.pc ▸ h.setPc (m.pc + 1)
  have hread := platform_read m.pc hnext.devices
  rw [fetch, Isa.fetch, h.pc] at *
  cases hx : memoryRead m.pc (s.setReg .pc (m.pc + 1)) with
  | error e =>
      rw [hx] at hread
      rw [hread.error_right]
      rfl
  | ok p =>
      rw [hx] at hread
      obtain ⟨q, hq, hv, hdev, hro⟩ := hread.exists_right
      rw [hq]
      exact ⟨hv, hnext.afterRead hro hdev⟩

end

/-- The next instruction is faithful. -/
def FaithfulStep (m : Machine Devices) : Prop :=
  ∀ w m', Isa.fetch platform m = .ok (w, m') → Faithful (Instr.decode w) m'

/-- **Step lemma.** From a state that shows what the processor does, a step ends alike in both, and
    the state it ends in shows what the processor does exactly if the instruction is faithful. -/
theorem step_alike {s : State} {m : Machine Devices} (h : Observes s m) :
    Alike (fun t m' => Observes t m' ↔ FaithfulStep m) (emulateStep s)
      (Isa.step platform m) := by
  have hrunning : m.bus.running = s.running := congrArg Devices.running h.devices.symm
  unfold emulateStep Isa.step
  have hstopped : platform.stopped m.bus = if s.running then none else some .halted := by
    rw [← hrunning]
    rfl
  rw [hstopped]
  by_cases hrun : s.running = true
  · rw [if_pos hrun, if_pos hrun]
    refine (fetch_alike h).bind ?_
    rintro ⟨w, s₁⟩ ⟨w', m₁⟩ - hfetch ⟨hw, hobs⟩
    obtain rfl : w' = w := hw
    have hfaithful : FaithfulStep m ↔ Faithful (Instr.decode w') m₁ := forall_ok hfetch
    rw [hfaithful]
    exact exec_alike hobs w'
  · rw [if_neg hrun, if_neg hrun]
    rfl

/-! ## Whole runs -/

/-- The processor in the state that `s` shows. -/
def State.processor (s : State) (sign : Sign) : Machine Devices where
  regs r := s.registers (.ofId r)
  pc := s.registers .pc
  sign := sign
  bus := s.devices

theorem observes_processor (s : State) (sign : Sign) : Observes s (s.processor sign) :=
  ⟨fun _ => rfl, rfl, rfl⟩

/-- For every state of the C machine, every processor of the instruction set in the same state and
    every number of steps: up to there the two runs end alike, with the same general-purpose
    registers, program counter, memory, input, output and running flag or with the same error, if
    and only if every step that the processor completes is faithful. -/
theorem refinement_iff {s₀ : State} {m₀ : Machine Devices} (h : Observes s₀ m₀) (n : ℕ) :
    (∀ k ≤ n, Alike Observes (steps emulateStep k s₀) (steps (Isa.step platform) k m₀)) ↔
      ∀ k < n, ∀ m m', steps (Isa.step platform) k m₀ = .ok m → Isa.step platform m = .ok m' →
        FaithfulStep m :=
  alike_steps_iff (fun _ _ => step_alike) h n

/-- `ADD R0, R0, #1`, a branch on a positive word, `JSR`, `HALT`: every step is faithful. -/
theorem refinement_iff_branch :
    ∃ s₀, Booted s₀ ∧ ∀ k ≤ 4, Alike Observes (steps emulateStep k s₀)
      (steps (Isa.step platform) k (s₀.processor .zero)) := by
  have hstart : ∃ s₀, Booted s₀ ∧
      ∀ k < 4, ∀ m, steps (Isa.step platform) k (s₀.processor .zero) = .ok m → FaithfulStep m := by
    refine ⟨_, ⟨some (imageFile 0x3000 [0x1021, 0x0201, 0, 0x4801, 0, 0xF025]), 0, noInput, rfl⟩, ?_⟩
    intro k hk m hm
    interval_cases k
    all_goals obtain rfl := Except.ok.inj hm
    · exact (forall_ok rfl).2 trivial
    · exact (forall_ok rfl).2 (Or.inr (Or.inr rfl))
    · exact (forall_ok rfl).2 trivial
    · exact (forall_ok rfl).2 fun hin => absurd hin (by decide)
  obtain ⟨s₀, hboot, hfaithful⟩ := hstart
  exact ⟨s₀, hboot, (refinement_iff (observes_processor s₀ .zero) 4).2 fun k hk m _ hm _ =>
    hfaithful k hk m hm⟩

end Yavm.Lc3
