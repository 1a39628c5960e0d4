import Yavm.Lc3.Memory

set_option autoImplicit false

/-! # The instruction handlers of `vm.c`

One definition per C function, on explicit states. Handlers that cannot fail are plain functions;
those that go through `memoryRead`, `memoryWrite`, `getchar` or a raw pointer return `Except Stop`.
C computes on `int` and truncates on assignment to `uint16_t`, which is the arithmetic of
`BitVec 16`. -/

namespace Yavm.Lc3

open Basis

/-- `signExtend(x, bit_count)`. -/
def signExtend (x : Word) (bitCount : ℕ) : Word :=
  if (x >>> (bitCount - 1)) &&& 0x1 ≠ 0 then x ||| (0xFFFF <<< bitCount) else x

def updateFlags (reg : Reg) (s : State) : State :=
  if s.registers reg = 0 then
    s.setReg .cond Flag.zr.code
  else if (s.registers reg >>> 15) &&& 0x1 ≠ 0 then
    s.setReg .cond Flag.neg.code
  else
    s.setReg .cond Flag.pos.code

def add (instruction : Word) (s : State) : State :=
  let dr := Reg.low3 (instruction >>> 9)
  let sr1 := Reg.low3 (instruction >>> 6)
  if (instruction >>> 5) &&& 0x1 ≠ 0 then
    let imm := signExtend (instruction &&& 0x1F) 5
    updateFlags dr (s.setReg dr (s.registers sr1 + imm))
  else
    let sr2 := Reg.low3 instruction
    updateFlags dr (s.setReg dr (s.registers sr1 + s.registers sr2))

def ld (instruction : Word) (s : State) : Except Stop State := do
  let dr := Reg.low3 (instruction >>> 9)
  let pcOffset := signExtend (instruction &&& 0x1FF) 9
  let (value, s) ← memoryRead (s.registers .pc + pcOffset) s
  return updateFlags dr (s.setReg dr value)

/-- `ldi` ends without `updateFlags`. -/
def ldi (instruction : Word) (s : State) : Except Stop State := do
  let dr := Reg.low3 (instruction >>> 9)
  let pcOffset := signExtend (instruction &&& 0x1FF) 9
  let (pointer, s) ← memoryRead (s.registers .pc + pcOffset) s
  let (value, s) ← memoryRead pointer s
  return s.setReg dr value

def ldr (instruction : Word) (s : State) : Except Stop State := do
  let dr := Reg.low3 (instruction >>> 9)
  let baseR := Reg.low3 (instruction >>> 6)
  let pcOffset := signExtend (instruction &&& 0x3F) 6
  let (value, s) ← memoryRead (s.registers baseR + pcOffset) s
  return updateFlags dr (s.setReg dr value)

def st (instruction : Word) (s : State) : Except Stop State :=
  let sr := Reg.low3 (instruction >>> 9)
  let pcOffset := signExtend (instruction &&& 0x1FF) 9
  memoryWrite (s.registers .pc + pcOffset) (s.registers sr) s

def sti (instruction : Word) (s : State) : Except Stop State := do
  let sr := Reg.low3 (instruction >>> 9)
  let pcOffset := signExtend (instruction &&& 0x1FF) 9
  let (pointer, s) ← memoryRead (s.registers .pc + pcOffset) s
  memoryWrite pointer (s.registers sr) s

def str (instruction : Word) (s : State) : Except Stop State :=
  let sr := Reg.low3 (instruction >>> 9)
  let baseR := Reg.low3 (instruction >>> 6)
  let pcOffset6 := signExtend (instruction &&& 0x3F) 6
  memoryWrite (s.registers baseR + pcOffset6) (s.registers sr) s

def lea (instruction : Word) (s : State) : State :=
  let dr := Reg.low3 (instruction >>> 9)
  let pcOffset := signExtend (instruction &&& 0x1FF) 9
  updateFlags dr (s.setReg dr (s.registers .pc + pcOffset))

/-- `and` ends without `updateFlags`. -/
def and (instruction : Word) (s : State) : State :=
  let dr := Reg.low3 (instruction >>> 9)
  let sr1 := Reg.low3 (instruction >>> 6)
  if (instruction >>> 5) &&& 0x1 ≠ 0 then
    let imm := signExtend (instruction &&& 0x1F) 5
    s.setReg dr (s.registers sr1 &&& imm)
  else
    let sr2 := Reg.low3 instruction
    s.setReg dr (s.registers sr1 &&& s.registers sr2)

def not (instruction : Word) (s : State) : State :=
  let dr := Reg.low3 (instruction >>> 9)
  let sr := Reg.low3 (instruction >>> 6)
  updateFlags dr (s.setReg dr (~~~s.registers sr))

/-- `br` tests the three bits of the instruction and never reads `registers[R_COND]`. -/
def br (instruction : Word) (s : State) : State :=
  let negBit := (instruction >>> 0xB) &&& 0x1
  let zeroBit := (instruction >>> 0xA) &&& 0x1
  let posBit := (instruction >>> 0x9) &&& 0x1
  let pcOffset := signExtend (instruction &&& 0x1FF) 9
  if (negBit ||| zeroBit ||| posBit) ≠ 0 then
    s.setReg .pc (s.registers .pc + pcOffset)
  else
    s

/-- `(instruction >> 6) >> 0x7`: the second `>>` stands where the other handlers mask. -/
def jmpBase (instruction : Word) : Reg :=
  ⟨((instruction >>> 6) >>> 0x7).toNat, by
    have := instruction.isLt
    simp only [BitVec.toNat_ushiftRight, Nat.shiftRight_eq_div_pow]
    omega⟩

def jmp (instruction : Word) (s : State) : State :=
  let baseR := jmpBase instruction
  s.setReg .pc (s.registers baseR)

def jsr (instruction : Word) (s : State) : State :=
  let eleventhBit := (instruction >>> 0xB) &&& 0x1
  let s := s.setReg .r7 (s.registers .pc)
  if eleventhBit ≠ 0 then
    let pcOffset := signExtend (instruction &&& 0x7FF) 11
    s.setReg .pc (s.registers .pc + pcOffset)
  else
    let baseR := Reg.low3 (instruction >>> 6)
    s.setReg .pc (s.registers baseR)

/-! ## Trap procedures -/

/-- `while (*ptr) { … ptr++; }` on the last `left` cells of `memory`: what the loop prints up to the
    first zero word. With no cell left the pointer has reached the end of the array and is
    dereferenced there. -/
def stringLoop (bytesOf : Word → List Byte) (memory : Memory) : ℕ → Except Stop (List Byte)
  | 0 => .error (.pointer uint16Max)
  | left + 1 =>
    let word := memory ⟨uint16Max - (left + 1), Nat.sub_lt (by decide) (Nat.succ_pos left)⟩
    if word = 0 then .ok []
    else (stringLoop bytesOf memory left).map fun out => bytesOf word ++ out

/-- `fputc((char) *ptr, stdout)`. -/
def putsBytes (word : Word) : List Byte :=
  [lowByte word]

/-- The loop of `trapPuts`. -/
def putsLoop : Memory → ℕ → Except Stop (List Byte) :=
  stringLoop putsBytes

def trapPuts (s : State) : Except Stop State :=
  (putsLoop s.memory (uint16Max - (s.registers .r0).toNat)).map fun out => s.print out

def trapGetc (s : State) : Except Stop State := do
  let (c, s) ← getchar s
  return s.setReg .r0 (charCode c)

def trapOut (s : State) : State :=
  s.print [lowByte (s.registers .r0)]

/-- `trapIn` echoes the byte and leaves the registers alone. -/
def trapIn (s : State) : Except Stop State := do
  let s := s.print (ascii "Type in a character")
  let (c, s) ← getchar s
  return s.print [lowByte (charCode c)]

/-- The low byte first, and the high byte only when it is not zero. -/
def putspBytes (word : Word) : List Byte :=
  let c1 := lowByte (word &&& 0xFF)
  let c2 := lowByte (word >>> 8)
  c1 :: if c2 ≠ 0 then [c2] else []

/-- The loop of `trapPutsp`. -/
def putspLoop : Memory → ℕ → Except Stop (List Byte) :=
  stringLoop putspBytes

def trapPutsp (s : State) : Except Stop State :=
  (putspLoop s.memory (uint16Max - (s.registers .r0).toNat)).map fun out => s.print out

def trapHalt (s : State) : State :=
  { s.print (ascii "Halting...\n") with running := false }

def trap (instruction : Word) (s : State) : Except Stop State :=
  match TrapCode.decode instruction with
  | some .getc => trapGetc s
  | some .in => trapIn s
  | some .out => .ok (trapOut s)
  | some .putsp => trapPutsp s
  | some .puts => trapPuts s
  | some .halt => .ok (trapHalt s)
  | none => .ok s

/-! ## The loop of `emulate` -/

/-- The `switch` of `emulate`: `OP_RTI` and `OP_RES` have no case. -/
def dispatch (instruction : Word) (s : State) : Except Stop State :=
  match Op.decode instruction with
  | .add => .ok (add instruction s)
  | .and => .ok (and instruction s)
  | .br => .ok (br instruction s)
  | .jmp => .ok (jmp instruction s)
  | .jsr => .ok (jsr instruction s)
  | .ld => ld instruction s
  | .ldi => ldi instruction s
  | .ldr => ldr instruction s
  | .lea => .ok (lea instruction s)
  | .not => .ok (not instruction s)
  | .st => st instruction s
  | .sti => sti instruction s
  | .str => str instruction s
  | .trap => trap instruction s
  | .rti => .ok s
  | .res => .ok s

/-- `memoryRead(registers[R_PC]++)`: the increment takes effect before the call. -/
def fetch (s : State) : Except Stop (Word × State) :=
  memoryRead (s.registers .pc) (s.setReg .pc (s.registers .pc + 1))

/-- The body of the loop of `emulate`. -/
def iteration (s : State) : Except Stop State := do
  let (instruction, s) ← fetch s
  dispatch instruction s

/-- One trip round `while (running)`. -/
def emulateStep (s : State) : Except Stop State :=
  if s.running then iteration s else .error .halted

/-- `emulate` up to the loop: `registers[R_PC] = startAddr; running = 1;`. -/
def emulateStart (s : State) : State :=
  { s.setReg .pc 0x3000 with running := true }

end Yavm.Lc3
