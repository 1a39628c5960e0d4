import Mathlib.Logic.Function.Basic
import Yavm.Basis.Simulation
import Yavm.Isa.Instr

set_option autoImplicit false

/-! # The LC-3 processor

What each instruction means, for a processor connected to any `Platform`: the words behind its
addresses, device registers among them, and the services behind its trap vectors. The condition
codes are the sign of the last result, and a branch tests them.

`step` fetches its instruction through the platform. `stepCode` takes it from a given program; the
two agree as long as the words of the program stay where they are (`steps_eq_stepsCode`). -/

namespace Isa

open Basis

universe u

/-- What the condition codes say of the last result. -/
inductive Sign
  | neg | zero | pos
  deriving DecidableEq, Repr

namespace Sign

def of (v : Word) : Sign :=
  if v = 0 then zero else if v.toInt < 0 then neg else pos

/-- One of the conditions n, z and p holds. -/
def meets (conditions : BitVec 3) : Sign → Bool
  | neg => conditions.getLsbD 2
  | zero => conditions.getLsbD 1
  | pos => conditions.getLsbD 0

end Sign

/-- What a processor is connected to. -/
structure Platform (σ : Type u) (ε : Type*) where
  read : Word → σ → Except ε (Word × σ)
  write : Word → Word → σ → Except ε σ
  /-- The service behind a trap vector is given `R0` and leaves a new one. -/
  service : BitVec 8 → Word → σ → Except ε (Word × σ)
  /-- Why the processor makes no step, if it does not. -/
  stopped : σ → Option ε

structure Machine (σ : Type u) where
  regs : RegId → Word
  pc : Word
  sign : Sign
  bus : σ

variable {σ : Type u} {ε : Type*}

namespace Machine

def setReg (r : RegId) (v : Word) (m : Machine σ) : Machine σ :=
  { m with regs := Function.update m.regs r v }

/-- Write a result to a register and set the condition codes from it. -/
def result (r : RegId) (v : Word) (m : Machine σ) : Machine σ :=
  { m.setReg r v with sign := .of v }

/-- An address relative to the program counter. -/
def near {n : ℕ} (offset : BitVec n) (m : Machine σ) : Word :=
  m.pc + offset.signExtend 16

/-- An address relative to a base register. -/
def based (base : RegId) (offset : BitVec 6) (m : Machine σ) : Word :=
  m.regs base + offset.signExtend 16

@[simp] theorem setReg_regs (r : RegId) (v : Word) (m : Machine σ) :
    (m.setReg r v).regs = Function.update m.regs r v := rfl

end Machine

def Operand.value (m : Machine σ) : Operand → Word
  | .reg r => m.regs r
  | .imm v => v.signExtend 16

section

variable (P : Platform σ ε)

/-- Load a register from an address. -/
def load (r : RegId) (a : Word) (m : Machine σ) : Except ε (Machine σ) :=
  (P.read a m.bus).map fun (v, bus) => { m with bus }.result r v

/-- Store a word at an address. -/
def store (a v : Word) (m : Machine σ) : Except ε (Machine σ) :=
  (P.write a v m.bus).map fun bus => { m with bus }

/-- The word at an address, as an address. -/
def pointer (a : Word) (m : Machine σ) : Except ε (Word × Machine σ) :=
  (P.read a m.bus).map fun (p, bus) => (p, { m with bus })

/-- The meaning of an instruction, with the program counter behind it. -/
def exec : Instr → Machine σ → Except ε (Machine σ)
  | .add dr sr1 op2, m => .ok (m.result dr (m.regs sr1 + op2.value m))
  | .and dr sr1 op2, m => .ok (m.result dr (m.regs sr1 &&& op2.value m))
  | .not dr sr, m => .ok (m.result dr (~~~m.regs sr))
  | .br conditions offset, m =>
    .ok (if m.sign.meets conditions then { m with pc := m.near offset } else m)
  | .jmp base, m => .ok { m with pc := m.regs base }
  | .jsr offset, m => .ok { m.setReg 7 m.pc with pc := m.near offset }
  | .jsrr base, m => .ok { m.setReg 7 m.pc with pc := m.regs base }
  | .ld dr offset, m => load P dr (m.near offset) m
  | .ldi dr offset, m => do
    let (a, m) ← pointer P (m.near offset) m
    load P dr a m
  | .ldr dr base offset, m => load P dr (m.based base offset) m
  | .lea dr offset, m => .ok (m.result dr (m.near offset))
  | .st sr offset, m => store P (m.near offset) (m.regs sr) m
  | .sti sr offset, m => do
    let (a, m) ← pointer P (m.near offset) m
    store P a (m.regs sr) m
  | .str sr base offset, m => store P (m.based base offset) (m.regs sr) m
  | .trap vector, m =>
    (P.service vector (m.regs 0) m.bus).map fun (r0, bus) => { m with bus }.setReg 0 r0
  -- there is no privilege mode to return from, and nothing behind the reserved opcode
  | .rti, m => .ok m
  | .res, m => .ok m

/-- The register an instruction leaves its result in, by whose sign it sets the condition codes. -/
def Instr.result : Instr → Option RegId
  | .add dr .. | .and dr .. | .not dr _ | .ld dr _ | .ldi dr _ | .ldr dr .. | .lea dr _ => some dr
  | _ => none

/-- The word at the program counter, which moves on. -/
def fetch (m : Machine σ) : Except ε (Word × Machine σ) :=
  (P.read m.pc m.bus).map fun (w, bus) => (w, { m with pc := m.pc + 1, bus })

/-- One step of the processor. -/
def step (m : Machine σ) : Except ε (Machine σ) :=
  match P.stopped m.bus with
  | some e => .error e
  | none => do
    let (w, m) ← fetch P m
    exec P (Instr.decode w) m

/-! ## Programs -/

/-- One step of a processor that takes its instruction from `code` where there is one. -/
def stepCode (code : Word → Option Instr) (m : Machine σ) : Except ε (Machine σ) :=
  match code m.pc with
  | none => step P m
  | some i =>
    match P.stopped m.bus with
    | some e => .error e
    | none => exec P i { m with pc := m.pc + 1 }

/-- The address an instruction is about to store to is `a`. -/
def StoresTo (i : Instr) (m : Machine σ) (a : Word) : Prop :=
  match i with
  | .st _ offset => a = m.near offset
  | .sti _ offset => ∃ bus, P.read (m.near offset) m.bus = .ok (a, bus)
  | .str _ base offset => a = m.based base offset
  | _ => False

/-- The next instruction does not store into the program. -/
def Spares (code : Word → Option Instr) (m : Machine σ) : Prop :=
  ∀ w m', fetch P m = .ok (w, m') → ∀ a, StoresTo P (Instr.decode w) m' a → code a = none

/-- `I` says that the words of the program are in place: reading one finds it and does nothing
    else, and nothing but a store to one of them disturbs `I`. -/
structure Keeps (code : Word → Option Instr) (I : σ → Prop) : Prop where
  here : ∀ {b a i}, I b → code a = some i → ∃ w, P.read a b = .ok (w, b) ∧ Instr.decode w = i
  read : ∀ {b a v b'}, I b → P.read a b = .ok (v, b') → I b'
  write : ∀ {b a v b'}, I b → code a = none → P.write a v b = .ok b' → I b'
  service : ∀ {b vector r r' b'}, I b → P.service vector r b = .ok (r', b') → I b'

end

variable {P : Platform σ ε} {code : Word → Option Instr} {I : σ → Prop}

theorem load_sign {r : RegId} {a : Word} {m m' : Machine σ} (h : load P r a m = .ok m') :
    m'.sign = .of (m'.regs r) := by
  obtain ⟨⟨v, bus⟩, -, rfl⟩ := map_eq_ok.1 h
  simp [Machine.result]

/-- One case per instruction: the condition codes are the sign of the result, or those before. -/
theorem exec_sign {i : Instr} {m m' : Machine σ} (h : exec P i m = .ok m') :
    m'.sign = match i.result with
      | none => m.sign
      | some r => .of (m'.regs r) := by
  cases i with
  | ld | ldr => exact load_sign h
  | ldi dr offset =>
      obtain ⟨⟨a, t⟩, -, hload⟩ := bind_eq_ok.1 h
      exact load_sign hload
  | add | and | not | lea =>
      obtain rfl := Except.ok.inj h
      simp [Instr.result, Machine.result]
  | br conditions offset =>
      obtain rfl := Except.ok.inj h
      split <;> rfl
  | st | str =>
      obtain ⟨bus, -, rfl⟩ := map_eq_ok.1 h
      rfl
  | sti sr offset =>
      obtain ⟨⟨a, t⟩, hpointer, hstore⟩ := bind_eq_ok.1 h
      obtain ⟨⟨v, bus⟩, -, heq⟩ := map_eq_ok.1 hpointer
      obtain ⟨rfl, rfl⟩ := Prod.mk.inj heq
      obtain ⟨bus', -, rfl⟩ := map_eq_ok.1 hstore
      rfl
  | trap vector =>
      obtain ⟨⟨r, bus⟩, -, rfl⟩ := map_eq_ok.1 h
      rfl
  | jmp | jsr | jsrr | rti | res =>
      obtain rfl := Except.ok.inj h
      rfl

namespace Keeps

variable (h : Keeps P code I)
include h

theorem fetch {m m' : Machine σ} {w : Word} (hI : I m.bus) (hfetch : fetch P m = .ok (w, m')) :
    I m'.bus := by
  obtain ⟨⟨v, bus⟩, hread, heq⟩ := map_eq_ok.1 hfetch
  obtain ⟨rfl, rfl⟩ := Prod.mk.inj heq
  exact h.read hI hread

theorem load {m m' : Machine σ} {r : RegId} {a : Word} (hI : I m.bus)
    (hload : load P r a m = .ok m') : I m'.bus := by
  obtain ⟨⟨v, bus⟩, hread, rfl⟩ := map_eq_ok.1 hload
  exact h.read hI hread

theorem store {m m' : Machine σ} {a v : Word} (hI : I m.bus) (ha : code a = none)
    (hstore : store P a v m = .ok m') : I m'.bus := by
  obtain ⟨bus, hwrite, rfl⟩ := map_eq_ok.1 hstore
  exact h.write hI ha hwrite

theorem pointer {m m' : Machine σ} {a p : Word} (hI : I m.bus)
    (hpointer : pointer P a m = .ok (p, m')) :
    I m'.bus ∧ P.read a m.bus = .ok (p, m'.bus) := by
  obtain ⟨⟨v, bus⟩, hread, heq⟩ := map_eq_ok.1 hpointer
  obtain ⟨rfl, rfl⟩ := Prod.mk.inj heq
  exact ⟨h.read hI hread, hread⟩

/-- One case per instruction: the program stays in place unless it is stored to. -/
theorem exec {i : Instr} {m m' : Machine σ} (hI : I m.bus)
    (hspares : ∀ a, StoresTo P i m a → code a = none) (hexec : exec P i m = .ok m') :
    I m'.bus := by
  cases i with
  | ld | ldr => exact h.load hI hexec
  | ldi dr offset =>
      obtain ⟨⟨a, t⟩, hpointer, hload⟩ := bind_eq_ok.1 hexec
      exact h.load (h.pointer hI hpointer).1 hload
  | st sr offset => exact h.store hI (hspares _ rfl) hexec
  | str sr base offset => exact h.store hI (hspares _ rfl) hexec
  | sti sr offset =>
      obtain ⟨⟨a, t⟩, hpointer, hstore⟩ := bind_eq_ok.1 hexec
      obtain ⟨hI', hread⟩ := h.pointer hI hpointer
      exact h.store hI' (hspares a ⟨_, hread⟩) hstore
  | trap vector =>
      obtain ⟨⟨r, bus⟩, hservice, rfl⟩ := map_eq_ok.1 hexec
      exact h.service hI hservice
  | br conditions offset =>
      obtain rfl := Except.ok.inj hexec
      split <;> exact hI
  | _ =>
      obtain rfl := Except.ok.inj hexec
      exact hI

/-- A step that spares the program keeps it in place. -/
theorem step {m m' : Machine σ} (hI : I m.bus) (hspares : Spares P code m)
    (hstep : step P m = .ok m') : I m'.bus := by
  unfold Isa.step at hstep
  split at hstep
  · simp at hstep
  · obtain ⟨⟨w, t⟩, hfetch, hexec⟩ := bind_eq_ok.1 hstep
    exact h.exec (h.fetch hI hfetch) (hspares w t hfetch) hexec

/-- With the program in place, it makes no difference where the instruction is taken from. -/
theorem stepCode_eq {m : Machine σ} (hI : I m.bus) : stepCode P code m = Isa.step P m := by
  unfold stepCode
  cases hcode : code m.pc with
  | none => rfl
  | some i =>
      obtain ⟨w, hread, hdecode⟩ := h.here hI hcode
      have hfetch : Isa.fetch P m = .ok (w, { m with pc := m.pc + 1 }) := by
        rw [Isa.fetch, hread]
        rfl
      unfold Isa.step
      cases P.stopped m.bus with
      | some e => rfl
      | none =>
          rw [← hdecode]
          simp only [hfetch]
          rfl

end Keeps

section

variable (h : Keeps P code I) {m : Machine σ} (hI : I m.bus) {n : ℕ}
  (hspares : ∀ k < n, ∀ t, steps (stepCode P code) k m = .ok t → Spares P code t)
include h hI hspares

/-- Wherever the instructions are taken from, the runs are the same and keep the program in
    place. -/
theorem steps_alike_stepsCode :
    Alike (fun s t => s = t ∧ I t.bus) (steps (step P) n m) (steps (stepCode P code) n m) := by
  refine alike_steps_along (Spares P code) ?_ ⟨rfl, hI⟩ hspares
  rintro s t ⟨rfl, hI⟩ hspares
  rw [h.stepCode_eq hI]
  cases hstep : step P s with
  | error e => rfl
  | ok t => exact ⟨rfl, h.step hI hspares hstep⟩

/-- **A program in memory.** Runs of the processor are runs of the program, as long as no
    instruction stores into it. -/
theorem steps_eq_stepsCode : steps (step P) n m = steps (stepCode P code) n m := by
  have hrun := steps_alike_stepsCode h hI hspares
  cases hleft : steps (step P) n m with
  | error e =>
      rw [hleft] at hrun
      exact hrun.error_right.symm
  | ok a =>
      rw [hleft] at hrun
      obtain ⟨b, hb, rfl, -⟩ := hrun.exists_right
      exact hb.symm

theorem keeps_steps {t : Machine σ} (ht : steps (stepCode P code) n m = .ok t) : I t.bus := by
  have hrun := steps_alike_stepsCode h hI hspares
  rw [ht] at hrun
  obtain ⟨s, -, -, hI'⟩ := hrun.exists_left
  exact hI'

end

end Isa
