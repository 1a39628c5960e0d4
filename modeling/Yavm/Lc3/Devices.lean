import Yavm.Isa.Machine
import Yavm.Lc3.Bounds

set_option autoImplicit false

/-! # What the processor is connected to

`Devices` is the part of the state that is not a register: memory, keyboard, display and the running
flag. Reads, writes and trap procedures use nothing else but `R0`, so they make the devices a
`Platform` for the processor of the instruction set (`platform`). The instruction set says nothing
about a platform: the device registers and the services `GETC`, `OUT`, `PUTS`, `PUTSP` and `HALT`
are the machine's own procedures, and the processor is compared on them. The service behind
`TRAP_IN` is that of the instruction set, which hands its byte to the program. -/

namespace Yavm.Lc3

open Basis

/-! ## Reads depend on memory and standard input -/

/-- Reads from states with the same memory and the same standard input. -/
theorem memoryRead_alike {s s' : State} (a : Word) (hmem : s'.memory = s.memory)
    (hin : s'.stdin = s.stdin) :
    Alike (fun p p' => p'.1 = p.1 ∧ p'.2.stdin = p.2.stdin) (memoryRead a s) (memoryRead a s') := by
  cases hread : memoryRead a s with
  | error e =>
      rw [memoryRead_eq_error.2 (memoryRead_eq_error.1 hread)]
      rfl
  | ok p =>
      obtain ⟨t, ht, -, hstdin⟩ := memoryRead_congr hmem hin hread
      rw [ht]
      exact ⟨rfl, hstdin⟩

theorem getchar_alike {s s' : State} (hin : s'.stdin = s.stdin) :
    Alike (fun p p' => p'.1 = p.1 ∧ p'.2.stdin = p.2.stdin) (getchar s) (getchar s') := by
  unfold getchar
  rw [hin]
  cases s.stdin.getchar with
  | none => rfl
  | some p => exact ⟨rfl, rfl⟩

/-! ## Devices -/

/-- The state without the registers. -/
@[ext]
structure Devices where
  memory : Memory
  running : Bool
  stdin : Input Byte
  stdout : List Byte

def State.devices (s : State) : Devices where
  memory := s.memory
  running := s.running
  stdin := s.stdin
  stdout := s.stdout

/-- The devices with `R0`, as a trap procedure finds them. -/
def Devices.state (d : Devices) (r0 : Word) : State where
  memory := d.memory
  registers := Function.update (fun _ => 0) .r0 r0
  running := d.running
  stdin := d.stdin
  stdout := d.stdout
  events := []

@[simp] theorem devices_state (d : Devices) (r0 : Word) : (d.state r0).devices = d := rfl

@[simp] theorem state_r0 (d : Devices) (r0 : Word) : (d.state r0).registers .r0 = r0 := by
  simp [Devices.state]

@[simp] theorem devices_setReg (s : State) (r : Reg) (v : Word) :
    (s.setReg r v).devices = s.devices := rfl

@[simp] theorem devices_record (s : State) (e : Event) : (s.record e).devices = s.devices := rfl

/-- After a read the devices are those before it, the input aside. -/
theorem ReadOnly.devices {s t : State} (h : ReadOnly s t) :
    t.devices = { s.devices with stdin := t.stdin } :=
  Devices.ext h.memory h.running rfl h.stdout

/-- The results of two reads from states with the same devices. -/
theorem ReadOnly.devices_eq {s s' t t' : State} (h : ReadOnly s t) (h' : ReadOnly s' t')
    (hdev : s'.devices = s.devices) (hin : t'.stdin = t.stdin) : t'.devices = t.devices := by
  rw [h.devices, h'.devices, hdev, hin]

/-- The next byte depends on the devices only. -/
theorem getchar_devices {s s' : State} (h : s'.devices = s.devices) :
    Alike (fun p p' => p'.1 = p.1 ∧ p'.2.devices = p.2.devices ∧ ReadOnly s p.2) (getchar s)
      (getchar s') := by
  have hin : s'.stdin = s.stdin := congrArg Devices.stdin h
  refine (getchar_alike hin).mono fun p p' hp hp' heq => ⟨heq.1, ?_, getchar_readOnly hp⟩
  exact (getchar_readOnly hp).devices_eq (getchar_readOnly hp') h heq.2

theorem devices_print {s s' : State} (h : s'.devices = s.devices) (out : List Byte) :
    (s'.print out).devices = (s.print out).devices := by
  obtain ⟨hmem, hrun, hin, hout⟩ := Devices.mk.inj h
  simp only [State.devices, State.print, hmem, hrun, hin, hout]

/-! ## The platform -/

/-- The service behind a trap vector. -/
def service (vector : BitVec 8) (r0 : Word) (d : Devices) : Except Stop (Word × Devices) :=
  let s := d.state r0
  match TrapCode.decode (vector.setWidth 16) with
  | some .getc => (getchar s).map fun (c, s) => (charCode c, s.devices)
  | some .in =>
    -- the byte goes to the program, as that of `TRAP_GETC` does
    (getchar (s.print (ascii "Type in a character"))).map fun (c, s) =>
      (charCode c, (s.print [lowByte (charCode c)]).devices)
  | some .out => .ok (r0, (trapOut s).devices)
  | some .puts => (trapPuts s).map fun s => (r0, s.devices)
  | some .putsp => (trapPutsp s).map fun s => (r0, s.devices)
  | some .halt => .ok (r0, (trapHalt s).devices)
  | none => .ok (r0, d)

/-- The devices as the platform of a processor: reads and writes go to memory and the device
    registers as `memoryRead` and `memoryWrite` have it, and the services are those of `service`,
    which for `OUT`, `PUTS`, `PUTSP` and `HALT` are the procedures of the machine itself. -/
def platform : Isa.Platform Devices Stop where
  read a d := (memoryRead a (d.state 0)).map fun (v, s) => (v, s.devices)
  write a v d := (memoryWrite a v (d.state 0)).map State.devices
  service := service
  stopped d := if d.running then none else some .halted

theorem platform_read {s : State} {d : Devices} (a : Word) (h : s.devices = d) :
    Alike (fun p p' => p'.1 = p.1 ∧ p.2.devices = p'.2 ∧ ReadOnly s p.2) (memoryRead a s)
      (platform.read a d) := by
  subst h
  have hread : Alike _ (memoryRead a s) (memoryRead a (s.devices.state 0)) :=
    memoryRead_alike a rfl rfl
  have hmap : memoryRead a s = (memoryRead a s).map id := by
    cases memoryRead a s <;> rfl
  rw [hmap]
  refine hread.map fun p p' hp hp' heq => ⟨heq.1, ?_, memoryRead_readOnly hp⟩
  exact ((memoryRead_readOnly hp).devices_eq (memoryRead_readOnly hp') rfl heq.2).symm

theorem platform_write {s : State} {d : Devices} (a v : Word) (h : s.devices = d) :
    Alike (fun t d' => t.devices = d' ∧ t.registers = s.registers) (memoryWrite a v s)
      (platform.write a v d) := by
  subst h
  change Alike _ _ ((memoryWrite a v (s.devices.state 0)).map _)
  unfold memoryWrite
  split
  · exact ⟨rfl, rfl⟩
  · rfl

/-- An ordinary cell is read in place. -/
theorem platform_read_cell {a : Word} {d : Devices} (hdev : ¬ IsDevice a)
    (h : a.toNat < uint16Max) : platform.read a d = .ok (d.memory ⟨a.toNat, h⟩, d) := by
  change (memoryRead a (d.state 0)).map _ = _
  rw [memoryRead_cell _ hdev h]
  rfl

/-- Reads leave memory alone. -/
theorem platform_read_memory {a v : Word} {d d' : Devices} (h : platform.read a d = .ok (v, d')) :
    d'.memory = d.memory := by
  obtain ⟨⟨v, s⟩, hread, heq⟩ := map_eq_ok.1 h
  obtain ⟨rfl, rfl⟩ := Prod.mk.inj heq
  exact (memoryRead_readOnly hread).memory

end Yavm.Lc3
