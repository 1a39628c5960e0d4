import Mathlib.Data.BitVec
import Mathlib.Tactic.Common

set_option autoImplicit false

/-! # LC-3 instructions and their words

An instruction word is an opcode and twelve bits of operands. `Instr` is the syntax, `encode` the
word of an instruction, `decode` the instruction in a word, and `decode_encode` the round trip. Bits
that an instruction does not use are ignored by `decode` and filled as assemblers do by `encode`. -/

namespace Isa

abbrev Word := BitVec 16

/-- The number of a general-purpose register. -/
abbrev RegId := BitVec 3

/-- The second operand of `ADD` and `AND`. -/
inductive Operand
  | reg (r : RegId)
  | imm (v : BitVec 5)
  deriving DecidableEq, Repr

inductive Instr
  | add (dr sr1 : RegId) (op2 : Operand)
  | and (dr sr1 : RegId) (op2 : Operand)
  | not (dr sr : RegId)
  /-- The conditions are n, z and p, from the high bit down. -/
  | br (conditions : BitVec 3) (offset : BitVec 9)
  | jmp (base : RegId)
  | jsr (offset : BitVec 11)
  | jsrr (base : RegId)
  | ld (dr : RegId) (offset : BitVec 9)
  | ldi (dr : RegId) (offset : BitVec 9)
  | ldr (dr base : RegId) (offset : BitVec 6)
  | lea (dr : RegId) (offset : BitVec 9)
  | st (sr : RegId) (offset : BitVec 9)
  | sti (sr : RegId) (offset : BitVec 9)
  | str (sr base : RegId) (offset : BitVec 6)
  | trap (vector : BitVec 8)
  | rti
  | res
  deriving DecidableEq, Repr

/-! ## Encoding -/

/-- Two registers and six more bits. -/
def twoRegs (a b : RegId) (low : BitVec 6) : BitVec 12 :=
  a ++ (b ++ low)

/-- A register, or three condition bits, and a nine-bit offset. -/
def regOffset (a : BitVec 3) (offset : BitVec 9) : BitVec 12 :=
  a ++ offset

def Operand.encode : Operand → BitVec 6
  | .reg r => 0b0#1 ++ (0b00#2 ++ r)
  | .imm v => 0b1#1 ++ v

namespace Instr

def opcode : Instr → BitVec 4
  | br .. => 0
  | add .. => 1
  | ld .. => 2
  | st .. => 3
  | jsr .. | jsrr .. => 4
  | and .. => 5
  | ldr .. => 6
  | str .. => 7
  | rti => 8
  | not .. => 9
  | ldi .. => 10
  | sti .. => 11
  | jmp .. => 12
  | res => 13
  | lea .. => 14
  | trap .. => 15

def operands : Instr → BitVec 12
  | add dr sr1 op2 | and dr sr1 op2 => twoRegs dr sr1 op2.encode
  | not dr sr => twoRegs dr sr 0b111111
  | br r offset | ld r offset | ldi r offset | lea r offset | st r offset | sti r offset =>
    regOffset r offset
  | ldr r base offset | str r base offset => twoRegs r base offset
  | jmp base | jsrr base => twoRegs 0 base 0
  | jsr offset => 0b1#1 ++ offset
  | trap vector => 0x0#4 ++ vector
  | rti | res => 0

/-- The word of an instruction. -/
def encode (i : Instr) : Word :=
  i.opcode ++ i.operands

end Instr

/-! ## Decoding -/

def Operand.decode (field : BitVec 6) : Operand :=
  if field.extractLsb' 5 1 = 0b1#1 then .imm (field.extractLsb' 0 5)
  else .reg (field.extractLsb' 0 3)

namespace Instr

/-- The instruction with this opcode and these operands. -/
def ofFields (opcode : BitVec 4) (operands : BitVec 12) : Instr :=
  let r := operands.extractLsb' 9 3
  let base := operands.extractLsb' 6 3
  let offset6 := operands.extractLsb' 0 6
  let offset9 := operands.extractLsb' 0 9
  match opcode.toNat with
  | 0 => br r offset9
  | 1 => add r base (Operand.decode offset6)
  | 2 => ld r offset9
  | 3 => st r offset9
  | 4 => if operands.extractLsb' 11 1 = 0b1#1 then jsr (operands.extractLsb' 0 11) else jsrr base
  | 5 => and r base (Operand.decode offset6)
  | 6 => ldr r base offset6
  | 7 => str r base offset6
  | 8 => rti
  | 9 => not r base
  | 10 => ldi r offset9
  | 11 => sti r offset9
  | 12 => jmp base
  | 13 => res
  | 14 => lea r offset9
  | _ => trap (operands.extractLsb' 0 8)

/-- The instruction in a word. -/
def decode (w : Word) : Instr :=
  ofFields (w.extractLsb' 12 4) (w.extractLsb' 0 12)

end Instr

/-! ## The round trip -/

section

variable {n m : ℕ} (hi : BitVec n) (lo : BitVec m)

theorem extract_high : (hi ++ lo).extractLsb' m n = hi :=
  BitVec.extractLsb'_append_eq_left

theorem extract_low : (hi ++ lo).extractLsb' 0 m = lo :=
  BitVec.extractLsb'_append_eq_right

theorem extract_of_le {start len : ℕ} (h : start + len ≤ m) :
    (hi ++ lo).extractLsb' start len = lo.extractLsb' start len :=
  BitVec.extractLsb'_append_eq_of_add_le h

end

section

variable (a b : RegId) (low : BitVec 6) (offset : BitVec 9)

@[simp] theorem twoRegs_first : (twoRegs a b low).extractLsb' 9 3 = a :=
  extract_high a (b ++ low)

@[simp] theorem twoRegs_second : (twoRegs a b low).extractLsb' 6 3 = b :=
  (extract_of_le a (b ++ low) (by decide)).trans (extract_high b low)

@[simp] theorem twoRegs_low : (twoRegs a b low).extractLsb' 0 6 = low :=
  (extract_of_le a (b ++ low) (by decide)).trans (extract_low b low)

@[simp] theorem regOffset_first : (regOffset a offset).extractLsb' 9 3 = a :=
  extract_high a offset

@[simp] theorem regOffset_low : (regOffset a offset).extractLsb' 0 9 = offset :=
  extract_low a offset

/-- Without the flag bit, the eleven low bits start with zeros. -/
theorem twoRegs_zero_flag : (twoRegs 0 b low).extractLsb' 11 1 ≠ 0b1#1 := by
  have hflag : (twoRegs 0 b low).extractLsb' 11 1 = 0b0#1 := by
    apply BitVec.eq_of_getLsbD_eq
    intro i hi
    obtain rfl : i = 0 := Nat.lt_one_iff.1 hi
    rw [BitVec.getLsbD_extractLsb', twoRegs, BitVec.getLsbD_append]
    rfl
  rw [hflag]
  decide

end

@[simp]
theorem Operand.decode_encode (op2 : Operand) : Operand.decode op2.encode = op2 := by
  cases op2 with
  | reg r =>
      have hreg : (0b0#1 ++ (0b00#2 ++ r)).extractLsb' 0 3 = r :=
        (extract_of_le _ _ (by decide)).trans (extract_low _ r)
      rw [encode, decode, extract_high, if_neg (by decide)]
      exact congrArg reg hreg
  | imm v =>
      rw [encode, decode, extract_high, if_pos rfl]
      exact congrArg imm (extract_low _ v)

namespace Instr

theorem decode_append (opcode : BitVec 4) (operands : BitVec 12) :
    decode (opcode ++ operands) = ofFields opcode operands :=
  congrArg₂ ofFields (extract_high opcode operands) (extract_low opcode operands)

/-- One case per instruction: its word is decoded to it. -/
@[simp]
theorem decode_encode (i : Instr) : decode i.encode = i := by
  rw [encode, decode_append]
  cases i with
  | jsr offset =>
      change ite _ _ _ = _
      rw [operands, extract_high, if_pos rfl]
      exact congrArg jsr (extract_low _ offset)
  | jsrr base =>
      change ite _ _ _ = _
      rw [operands, if_neg (twoRegs_zero_flag base 0), twoRegs_second]
  | trap vector => exact congrArg trap (extract_low _ vector)
  | rti | res => rfl
  | _ => simp [opcode, operands, ofFields]

end Instr

end Isa
