import Yavm.Java.Handlers
import Yavm.Lc3.Linkage

set_option autoImplicit false

/-! # Control transfer on the Java machine

`JMP`, and `JSR` without bit 11, go to the address in a base register. Neither Java handler reads
that register: `jump` shifts by seven and keeps the opcode in its index, which is then outside the
register array (`jump_throws`), and `jumpRegister` goes to the number of the register
(`jumpRegister_eq`). -/

namespace Yavm.Java

open Basis
open Lc3 (Reg Word)

/-- The handlers that go to a base register. -/
inductive Transfer
  | jump | jumpRegister
  deriving DecidableEq, Repr

namespace Transfer

/-- The words of the handler: opcode `JMP`, or opcode `JSR` with bit 11 clear. -/
def Encodes (w : Word) : Transfer → Prop
  | .jump => Lc3.Op.decode w = .jmp
  | .jumpRegister => Lc3.Op.decode w = .jsr ∧ w.getLsbD 11 = false

/-- The method. -/
def run (w : Word) (s : State) : Transfer → Except Stop State
  | .jump => Java.jump (w.setWidth 32) s
  | .jumpRegister => .ok (Java.jumpRegister (w.setWidth 32) s)

/-- The program counter gets the value the base register held, `jumpRegister` links in `R7`, and
    nothing else changes. -/
def target (w : Word) (s : State) : Transfer → State
  | .jump => s.setReg .pc (s.registers (Lc3.baseOf w))
  | .jumpRegister => (s.setReg .r7 (s.registers .pc)).setReg .pc (s.registers (Lc3.baseOf w))

end Transfer

/-- The handler completes in the state it should. -/
def TransferLaw (i : Transfer) (w : Word) (s : State) : Prop :=
  i.run w s = .ok (i.target w s)

/-- The opcode is still in the index, which is at least 384 where ten is the bound. -/
theorem jump_throws {w : Word} (h : Lc3.Op.decode w = .jmp) (s : State) :
    ∃ k : ℤ, 384 ≤ k ∧ jump (w.setWidth 32) s = .error (.arrayIndex k) := by
  have hbase := congrArg Fin.val (Lc3.jmpBase_eq h)
  change ((w >>> 6) >>> 0x7).toNat = 6 at hbase
  have hindex : 384 ≤ ((w >>> 7).setWidth 32 : JavaInt).toInt := by
    rw [toInt_setWidth_32]
    simp only [BitVec.toNat_ushiftRight, Nat.shiftRight_eq_div_pow] at hbase ⊢
    omega
  refine ⟨_, hindex, ?_⟩
  rw [jump, sshiftRight_setWidth w (by decide), readRegister, dif_neg (by omega)]
  rfl

/-- Both registers are written whatever the base register holds, so only the target matters. -/
theorem jumpRegister_target_iff {w : Word} (h : w.getLsbD 11 = false) (s : State) :
    TransferLaw .jumpRegister w s ↔ s.registers (Lc3.baseOf w) = number (Lc3.baseOf w) := by
  rw [TransferLaw, Transfer.run, Transfer.target, jumpRegister_eq, if_neg (by rw [h]; decide),
    Except.ok.injEq]
  constructor
  · intro hsame
    have hpc := congrArg (fun t : State => t.registers .pc) hsame
    simp only [State.setReg_self] at hpc
    exact hpc.symm
  · intro hbase
    rw [hbase]

/-- For every state and every word of opcode `JMP`, or of opcode `JSR` with bit 11 clear: the
    handler completes with the value the base register held as the program counter, with the old
    program counter in `R7` after `jumpRegister`, and with nothing else changed, if and only if the
    handler is `jumpRegister` and the base register holds its own number. -/
theorem transferLaw_iff {i : Transfer} {w : Word} (h : i.Encodes w) (s : State) :
    TransferLaw i w s ↔
      i = .jumpRegister ∧ s.registers (Lc3.baseOf w) = number (Lc3.baseOf w) := by
  cases i with
  | jump =>
      obtain ⟨k, -, hthrows⟩ := jump_throws h s
      refine iff_of_false (fun hlaw => ?_) (fun hand => absurd hand.1 (by decide))
      rw [TransferLaw, Transfer.run, hthrows] at hlaw
      exact absurd hlaw (by simp)
  | jumpRegister =>
      rw [jumpRegister_target_iff h.2]
      exact (and_iff_right rfl).symm

/-- A machine that has just fetched the word at `0x3000`, with `0x4000` in `R1`. -/
def calledState : State where
  memory := fun _ => 0
  registers := fun r => if r = .pc then 0x3001 else if r.val = 1 then 0x4000 else 0
  running := true
  stdout := []

/-- The equivalence on `JSRR R1`. -/
theorem transferLaw_iff_jsrr :
    TransferLaw .jumpRegister 0x4040 calledState ↔
      Transfer.jumpRegister = .jumpRegister ∧ calledState.registers 1 = number 1 :=
  transferLaw_iff (i := .jumpRegister) ⟨rfl, rfl⟩ calledState

/-- `JSRR R1` goes to 1, and `JMP R1` throws. -/
theorem transferLaw_broken_by_jsrr :
    ¬ TransferLaw .jumpRegister 0x4040 calledState ∧ ¬ TransferLaw .jump 0xC040 calledState := by
  refine ⟨fun hlaw => ?_, fun hlaw => ?_⟩
  · exact absurd ((jumpRegister_target_iff rfl calledState).1 hlaw) (by decide)
  · obtain ⟨k, -, hthrows⟩ := jump_throws (w := 0xC040) rfl calledState
    rw [TransferLaw, Transfer.run, hthrows] at hlaw
    exact absurd hlaw (by simp)

end Yavm.Java
