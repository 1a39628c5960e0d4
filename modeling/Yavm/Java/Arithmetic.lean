import Yavm.Java.Agreement
import Yavm.Java.Handlers

set_option autoImplicit false

/-! # Arithmetic on both machines

`ADD`, `NOT` and `LEA` compute a result and set the condition codes from it. The C machine computes
in 16 bits and the Java machine in 32, so along a sequence of these instructions the Java registers
stay congruent to the C registers modulo 2¹⁶ (`congruent_run`) but not equal to them. The condition
codes are set from the `int`, and the comparison in `updateFlags` is not invariant under the
congruence: `flagOf_eq_sign_iff` says for which `int`s it finds the sign of the low half, and
`arithmetic_iff` carries this to whole sequences. -/

namespace Yavm.Java

open Basis
open Lc3 (Reg Word Flag)

inductive ArithmeticOp
  | add | not | lea
  deriving DecidableEq, Repr

def ArithmeticOp.opcode : ArithmeticOp → Lc3.Op
  | .add => .add
  | .not => .not
  | .lea => .lea

/-- An `ADD`, `NOT` or `LEA` word. -/
structure Arithmetic where
  word : Word
  op : ArithmeticOp
  decodes : Lc3.Op.decode word = op.opcode

namespace Arithmetic

/-- The Java handler of the word. -/
def runJava (i : Arithmetic) (s : State) : State :=
  match i.op with
  | .add => addOp (i.word.setWidth 32) s
  | .not => bitwiseNot (i.word.setWidth 32) s
  | .lea => loadEffectiveAddress (i.word.setWidth 32) s

/-- The C handler of the word. -/
def runC (i : Arithmetic) (s : Lc3.State) : Lc3.State :=
  match i.op with
  | .add => Lc3.add i.word s
  | .not => Lc3.not i.word s
  | .lea => Lc3.lea i.word s

end Arithmetic

/-- The Java machine after a sequence of words. -/
def javaRun (code : List Arithmetic) (s : State) : State :=
  code.foldl (fun s i => i.runJava s) s

/-- The C machine after a sequence of words. -/
def cRun (code : List Arithmetic) (s : Lc3.State) : Lc3.State :=
  code.foldl (fun s i => i.runC s) s

/-- The Java registers are congruent modulo 2¹⁶ to the C registers. -/
def Congruent (c : Lc3.State) (j : State) : Prop :=
  ∀ r, r ≠ .cond → (j.registers r).setWidth 16 = c.registers r

/-- The condition registers denote the same sign, each in its own encoding. -/
def SameSign (c : Lc3.State) (j : State) : Prop :=
  ∃ f : Flag, c.registers .cond = f.code ∧ j.registers .cond = flagCode f

/-- The two machines agree along a sequence of words: the registers are congruent before the first
    word and after every word, and the condition registers agree after every word. -/
structure ArithmeticLaw (code : List Arithmetic) (c : Lc3.State) (j : State) : Prop where
  congruent : ∀ past, past <+: code → Congruent (cRun past c) (javaRun past j)
  sameSign : ∀ past i, past ++ [i] <+: code →
    SameSign (cRun (past ++ [i]) c) (javaRun (past ++ [i]) j)

/-- The sum of two `int`s is at most 65535, or its low half is a positive 16-bit number. -/
def SumSigned (x y : JavaInt) : Prop :=
  (x.toNat + y.toNat) % 2 ^ 32 < 65536 ∨
    0 < (x.toNat + y.toNat) % 65536 ∧ (x.toNat + y.toNat) % 65536 < 32768

/-- The high half of an `int` is all ones, or its low half is a negative 16-bit number other
    than -1. -/
def NotSigned (x : JavaInt) : Prop :=
  2 ^ 32 - 65536 ≤ x.toNat ∨ 32768 ≤ x.toNat % 65536 ∧ x.toNat % 65536 < 65535

/-- The operands from which the Java handler gets the sign of the C result. -/
def Arithmetic.SignKept (i : Arithmetic) (s : State) : Prop :=
  match i.op with
  | .add => SumSigned (s.registers (Lc3.baseOf i.word)) (operand2 i.word s)
  | .not => NotSigned (s.registers (Lc3.baseOf i.word))
  | .lea => SumSigned (s.registers .pc) (offset 9 i.word)

/-! ## Signs -/

theorem neg_test_iff (v : JavaInt) : v.sshiftRight 15 = 1 ↔ 32768 ≤ v.toNat ∧ v.toNat < 65536 := by
  have hlt := v.isLt
  have hone : (1 : JavaInt).toInt = 1 := rfl
  rw [← BitVec.toInt_inj, BitVec.toInt_sshiftRight, Int.shiftRight_eq_div_pow, hone,
    BitVec.toInt_eq_toNat_cond]
  split <;> omega

/-- `updateFlags` finds the sign of the low half of an `int` when there is nothing above it, or when
    it is positive. -/
theorem flagOf_eq_sign_iff (v : JavaInt) :
    flagOf v = Lc3.sign (v.setWidth 16) ↔
      v.toNat < 65536 ∨ 0 < v.toNat % 65536 ∧ v.toNat % 65536 < 32768 := by
  have hlt := v.isLt
  have hzero : v = 0 ↔ v.toNat = 0 := by
    rw [← BitVec.toNat_inj]
    rfl
  have hzero' : v.setWidth 16 = 0 ↔ v.toNat % 65536 = 0 := by
    rw [← BitVec.toNat_inj, BitVec.toNat_setWidth]
    rfl
  have hneg' : (v.setWidth 16).toInt < 0 ↔ 32768 ≤ v.toNat % 65536 := by
    rw [BitVec.toInt_eq_toNat_cond, BitVec.toNat_setWidth]
    split <;> omega
  rw [flagOf, Lc3.sign]
  simp only [hzero, hzero', neg_test_iff, hneg']
  split_ifs <;> simp only [true_iff, false_iff] <;> omega

/-! ## One instruction -/

namespace Arithmetic

/-- The result the Java handler computes. -/
def javaResult (i : Arithmetic) (s : State) : JavaInt :=
  match i.op with
  | .add => s.registers (Lc3.baseOf i.word) + operand2 i.word s
  | .not => ~~~s.registers (Lc3.baseOf i.word)
  | .lea => s.registers .pc + offset 9 i.word

/-- The result the C handler computes. -/
def cResult (i : Arithmetic) (s : Lc3.State) : Word :=
  match i.op with
  | .add => s.registers (Lc3.baseOf i.word) + Lc3.operand2 i.word s
  | .not => ~~~s.registers (Lc3.baseOf i.word)
  | .lea => Lc3.pcRelative i.word s

theorem runJava_eq (i : Arithmetic) (s : State) :
    i.runJava s = s.result (Lc3.destOf i.word) (i.javaResult s) := by
  rw [runJava, javaResult]
  cases i.op with
  | add => exact addOp_eq i.word s
  | not => exact bitwiseNot_eq i.word s
  | lea => exact loadEffectiveAddress_eq i.word s

theorem runC_eq (i : Arithmetic) (s : Lc3.State) :
    i.runC s = (s.setReg (Lc3.destOf i.word) (i.cResult s)).setReg .cond
      (Lc3.sign (i.cResult s)).code := by
  have hflags : ∀ (r : Reg) (v : Word), Lc3.updateFlags r (s.setReg r v)
      = (s.setReg r v).setReg .cond (Lc3.sign v).code := fun r v => by
    rw [Lc3.updateFlags_eq, Lc3.State.setReg_registers, Function.update_self]
  rw [runC, cResult, ← hflags]
  cases i.op with
  | add => exact Except.ok.inj ((Lc3.add_eq i.word s).trans (Lc3.commit_result _ _ s))
  | not => rfl
  | lea =>
      rw [Lc3.lea, Lc3.signExtend_9]
      rfl

theorem operand2_congruent {c : Lc3.State} {j : State} (h : Congruent c j) (w : Word) :
    (operand2 w j).setWidth 16 = Lc3.operand2 w c := by
  rw [operand2, Lc3.operand2]
  split
  · exact offset_setWidth (by decide) (by decide) w
  · exact h _ (Reg.low3_general w).ne_cond

/-- Addition and complement respect the congruence. -/
theorem result_congruent {c : Lc3.State} {j : State} (h : Congruent c j) (i : Arithmetic) :
    (i.javaResult j).setWidth 16 = i.cResult c := by
  have hbase := h _ (Lc3.baseOf_general i.word).ne_cond
  rw [javaResult, cResult]
  cases i.op with
  | add =>
      rw [BitVec.setWidth_add _ _ (by decide), operand2_congruent h, hbase]
  | not =>
      rw [BitVec.setWidth_not (by decide), hbase]
  | lea =>
      rw [BitVec.setWidth_add _ _ (by decide), offset_setWidth (by decide) (by decide),
        h _ Reg.pc_ne_cond, Lc3.pcRelative]

end Arithmetic

variable {c : Lc3.State} {j : State}

/-- **Step lemma.** -/
theorem congruent_step (h : Congruent c j) (i : Arithmetic) :
    Congruent (i.runC c) (i.runJava j) := by
  intro r hr
  rw [i.runC_eq, i.runJava_eq, Lc3.State.setReg_registers, Function.update_of_ne hr,
    Lc3.State.setReg_registers]
  by_cases hdest : r = Lc3.destOf i.word
  · rw [hdest, Function.update_self, State.result_self _ _ (hdest ▸ hr)]
    exact Arithmetic.result_congruent h i
  · rw [Function.update_of_ne hdest, State.result_other _ _ hdest hr]
    exact h r hr

/-- **Run lemma.** -/
theorem congruent_run (h : Congruent c j) (code : List Arithmetic) :
    Congruent (cRun code c) (javaRun code j) := by
  induction code generalizing c j with
  | nil => exact h
  | cons i code ih => exact ih (congruent_step h i)

/-- The condition on the operands is the condition on the result. -/
theorem signKept_iff (i : Arithmetic) (s : State) :
    i.SignKept s ↔ flagOf (i.javaResult s) = Lc3.sign ((i.javaResult s).setWidth 16) := by
  rw [flagOf_eq_sign_iff, Arithmetic.SignKept, Arithmetic.javaResult]
  have hsum : ∀ x y : JavaInt, SumSigned x y ↔ (x + y).toNat < 65536 ∨
      0 < (x + y).toNat % 65536 ∧ (x + y).toNat % 65536 < 32768 := fun x y => by
    rw [SumSigned, BitVec.toNat_add]
    omega
  cases i.op with
  | add => exact hsum _ _
  | not =>
      have hlt := (s.registers (Lc3.baseOf i.word)).isLt
      simp only [NotSigned, BitVec.toNat_not]
      omega
  | lea => exact hsum _ _

/-- From congruent registers, an instruction leaves the same sign on both machines exactly when its
    operands keep it. -/
theorem sameSign_step_iff (h : Congruent c j) (i : Arithmetic) :
    SameSign (i.runC c) (i.runJava j) ↔ i.SignKept j := by
  have hc : (i.runC c).registers .cond = (Lc3.sign (i.cResult c)).code := by
    rw [i.runC_eq, Lc3.State.setReg_registers, Function.update_self]
  rw [signKept_iff, Arithmetic.result_congruent h i, SameSign, hc, i.runJava_eq,
    State.result_cond]
  constructor
  · intro hsame
    obtain ⟨f, hf, hf'⟩ := hsame
    rw [Lc3.Flag.code_injective hf, flagCode_injective hf']
  · intro hflag
    exact ⟨_, rfl, congrArg flagCode hflag⟩

/-- For all register files that are equal at the start and every finite sequence of `ADD`, `NOT` and
    `LEA` words: the Java registers stay congruent to the C registers and the condition registers
    have the same sign after every instruction, if and only if every instruction has operands from
    which the Java handler gets the sign (`Arithmetic.SignKept`). -/
theorem arithmetic_iff (h : ∀ r, r ≠ .cond → j.registers r = (c.registers r).setWidth 32)
    (code : List Arithmetic) :
    ArithmeticLaw code c j ↔ ∀ past i, past ++ [i] <+: code → i.SignKept (javaRun past j) := by
  have hstart : Congruent c j := fun r hr => by
    rw [h r hr]
    simp
  have hsign : ∀ past i, SameSign (cRun (past ++ [i]) c) (javaRun (past ++ [i]) j) ↔
      i.SignKept (javaRun past j) := fun past i => by
    rw [cRun, javaRun, List.foldl_append, List.foldl_append]
    exact sameSign_step_iff (congruent_run hstart past) i
  constructor
  · intro hlaw past i hpast
    exact (hsign past i).1 (hlaw.sameSign past i hpast)
  · intro hkept
    exact ⟨fun past _ => congruent_run hstart past,
      fun past i hpast => (hsign past i).2 (hkept past i hpast)⟩

/-- `NOT R0, R0`. -/
def notR0 : Arithmetic := ⟨0x903F, .not, rfl⟩

theorem registers_ofLc3 (c : Lc3.State) (f : Flag) :
    ∀ r, r ≠ .cond → (ofLc3 c f).registers r = (c.registers r).setWidth 32 :=
  fun _ hr => if_neg hr

/-- The equivalence on two complements, from registers that hold zero. -/
theorem arithmetic_iff_not :
    ArithmeticLaw [notR0, notR0] (Lc3.initialState Lc3.noInput)
        (ofLc3 (Lc3.initialState Lc3.noInput) .zr) ↔
      ∀ past i, past ++ [i] <+: [notR0, notR0] →
        i.SignKept (javaRun past (ofLc3 (Lc3.initialState Lc3.noInput) .zr)) :=
  arithmetic_iff (registers_ofLc3 _ _) _

/-- The complement of 0 is negative on the C machine and positive on the Java machine. -/
theorem arithmetic_broken_by_not :
    ∃ c j, (∀ r, r ≠ .cond → j.registers r = (c.registers r).setWidth 32) ∧
      ¬ ArithmeticLaw [notR0] c j := by
  refine ⟨Lc3.initialState Lc3.noInput, _, registers_ofLc3 _ .zr, fun hlaw => ?_⟩
  obtain ⟨f, hc, hj⟩ := hlaw.sameSign [] notR0 (List.prefix_refl _)
  cases f with
  | neg => exact absurd hj (by decide)
  | zr => exact absurd hc (by decide)
  | pos => exact absurd hc (by decide)

end Yavm.Java
