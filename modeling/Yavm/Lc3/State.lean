import Mathlib.Logic.Function.Basic
import Yavm.Basis.BufferedInput
import Yavm.Basis.Run
import Yavm.Basis.TwosComplement

set_option autoImplicit false

/-! # The state of the C machine (`lc3_vm_c/vm.h`)

The enumerations of `vm.h` and the file-scope variables of `vm.c`. `memory` has `UINT16_MAX`
elements and is indexed by exactly those, so a state holds nothing at `0xFFFF`; code that forms the
index `0xFFFF` stops with `Stop.index` (or `Stop.pointer`, when it got there by incrementing a
pointer), which is where the C program has no defined behaviour.

Standard input is the buffered stream of `Basis.Input`: the kernel queue that `select` polls and the
stdio buffer that `getchar` reads through. Standard output is the list of bytes written so far.
`events` is a ghost component: the calls of `memoryRead`, `memoryWrite` and `getchar`, oldest
first. No code reads it. -/

namespace Yavm.Lc3

open Basis

abbrev Word := BitVec 16

abbrev Byte := BitVec 8

/-- `UINT16_MAX`: the number of elements of `memory`, and the top address. -/
abbrev uint16Max : ℕ := 65535

/-! ## Enumerations -/

/-- An index of the array `registers`, which has `R_COUNT` elements. -/
abbrev Reg := Fin 10

namespace Reg

def r0 : Reg := 0
def r6 : Reg := 6
def r7 : Reg := 7
def pc : Reg := 8
def cond : Reg := 9

/-- The index `x & 0x7`. -/
def low3 (x : Word) : Reg :=
  ⟨(x &&& 0x7).toNat, Nat.lt_of_le_of_lt Nat.and_le_right (by decide)⟩

/-- An index below eight: a general-purpose register, neither `R_PC` nor `R_COND`. -/
def General (r : Reg) : Prop := r.val < 8

instance : DecidablePred General := fun r => inferInstanceAs (Decidable (r.val < 8))

theorem low3_general (x : Word) : (low3 x).General :=
  Nat.lt_of_le_of_lt Nat.and_le_right (by decide)

/-- The ten registers: eight general-purpose ones, `R_PC` and `R_COND`. -/
theorem general_or (r : Reg) : r.General ∨ r = pc ∨ r = cond := by
  revert r
  decide

theorem General.ne_pc {r : Reg} (h : r.General) : r ≠ pc := by
  rintro rfl
  exact absurd h (by decide)

theorem General.ne_cond {r : Reg} (h : r.General) : r ≠ cond := by
  rintro rfl
  exact absurd h (by decide)

@[simp] theorem pc_ne_cond : pc ≠ cond := by decide

@[simp] theorem cond_ne_pc : cond ≠ pc := by decide

@[simp] theorem pc_ne_r7 : pc ≠ r7 := by decide

end Reg

/-- The opcodes `OP_BR` … `OP_TRAP`. -/
inductive Op
  | br | add | ld | st | jsr | and | ldr | str | rti | not | ldi | sti | jmp | res | lea | trap
  deriving DecidableEq, Repr

/-- `instruction >> 12`, as an opcode. -/
def Op.decode (instruction : Word) : Op :=
  match (instruction >>> 12).toNat with
  | 0 => .br
  | 1 => .add
  | 2 => .ld
  | 3 => .st
  | 4 => .jsr
  | 5 => .and
  | 6 => .ldr
  | 7 => .str
  | 8 => .rti
  | 9 => .not
  | 10 => .ldi
  | 11 => .sti
  | 12 => .jmp
  | 13 => .res
  | 14 => .lea
  | _ => .trap

/-- The trap vectors `TRAP_GETC` … `TRAP_HALT`. -/
inductive TrapCode
  | getc | out | puts | in | putsp | halt
  deriving DecidableEq, Repr

/-- `instruction & 0xFF`, as a trap vector; `none` for the vectors no case handles. -/
def TrapCode.decode (instruction : Word) : Option TrapCode :=
  match (instruction &&& 0xFF).toNat with
  | 0x20 => some .getc
  | 0x21 => some .out
  | 0x22 => some .puts
  | 0x23 => some .in
  | 0x24 => some .putsp
  | 0x25 => some .halt
  | _ => none

/-- `FL_POS`, `FL_ZR`, `FL_NEG`. -/
inductive Flag
  | pos | zr | neg
  deriving DecidableEq, Repr

/-- The number each flag is in the C enumeration. -/
def Flag.code : Flag → Word
  | .pos => 0
  | .zr => 1
  | .neg => 2

theorem Flag.code_injective : Function.Injective Flag.code := by
  intro a b h
  cases a <;> cases b <;> first | rfl | exact absurd h (by decide)

/-! ## Device registers -/

def mrKbsr : Word := 0xFE00
def mrKbdr : Word := 0xFE02
def mrDsr : Word := 0xFE04
def mrDdr : Word := 0xFE06

/-- `STATUS_BIT`. -/
def statusBit : Word := 0x8000

/-- The addresses `memoryRead` answers without looking at `memory`. -/
def IsDevice (a : Word) : Prop := a = mrKbsr ∨ a = mrKbdr ∨ a = mrDsr ∨ a = mrDdr

instance : DecidablePred IsDevice := fun a => by
  unfold IsDevice
  infer_instance

/-! ## States and outcomes -/

/-- What ends a computation before its result. -/
inductive Stop
  /-- The loop of `emulate` was left: `running` is 0. -/
  | halted
  /-- `memoryRead` or `memoryWrite` formed an index outside `memory`. -/
  | index (i : ℕ)
  /-- A pointer into `memory` was dereferenced outside the array. -/
  | pointer (i : ℕ)
  /-- `getchar` waits for a key that is never typed. -/
  | blocked
  /-- `exit`, after printing the message. -/
  | exit (status : ℤ) (message : String)
  deriving DecidableEq, Repr

/-- A recorded call: `memoryRead` with its result, `memoryWrite`, or `getchar` with its result
    (`none` for `EOF`). -/
inductive Event
  | read (address value : Word)
  | write (address value : Word)
  | getchar (result : Option Byte)
  deriving DecidableEq, Repr

/-- The array `memory`. -/
abbrev Memory := Fin uint16Max → Word

/-- The file-scope variables, the standard streams and the ghost record of calls. -/
structure State where
  memory : Memory
  registers : Reg → Word
  running : Bool
  stdin : Input Byte
  stdout : List Byte
  events : List Event

namespace State

/-- `registers[r] = v`. -/
def setReg (s : State) (r : Reg) (v : Word) : State :=
  { s with registers := Function.update s.registers r v }

/-- Write bytes to standard output. -/
def print (s : State) (out : List Byte) : State :=
  { s with stdout := s.stdout ++ out }

/-- Add a call to the ghost record. -/
def record (s : State) (e : Event) : State :=
  { s with events := s.events ++ [e] }

theorem print_print (s : State) (out₁ out₂ : List Byte) :
    (s.print out₁).print out₂ = s.print (out₁ ++ out₂) := by
  simp [print]

@[simp] theorem setReg_memory (s : State) (r : Reg) (v : Word) :
    (s.setReg r v).memory = s.memory := rfl
@[simp] theorem setReg_registers (s : State) (r : Reg) (v : Word) :
    (s.setReg r v).registers = Function.update s.registers r v := rfl
@[simp] theorem setReg_running (s : State) (r : Reg) (v : Word) :
    (s.setReg r v).running = s.running := rfl
@[simp] theorem setReg_stdin (s : State) (r : Reg) (v : Word) :
    (s.setReg r v).stdin = s.stdin := rfl
@[simp] theorem setReg_stdout (s : State) (r : Reg) (v : Word) :
    (s.setReg r v).stdout = s.stdout := rfl
@[simp] theorem setReg_events (s : State) (r : Reg) (v : Word) :
    (s.setReg r v).events = s.events := rfl

end State

/-- The bytes of an ASCII string literal. -/
def ascii (text : String) : List Byte :=
  text.toList.map fun c => BitVec.ofNat 8 c.toNat

/-- `(char) x`, as the byte `fputc` writes. -/
def lowByte (x : Word) : Byte := x.setWidth 8

/-- Zero-extension loses nothing. -/
theorem zeroExtend_inj {a b : Byte} : (a.setWidth 16 : Word) = b.setWidth 16 ↔ a = b := by
  constructor
  · intro h
    have hlow := congrArg lowByte h
    simpa [lowByte] using hlow
  · rintro rfl
    rfl

end Yavm.Lc3
