import Mathlib.Tactic.IntervalCases
import Yavm.Basis.Simulation
import Yavm.Lc3.Bounds
import Yavm.Lc3.Linkage
import Yavm.Lc3.Strings

set_option autoImplicit false

/-! # What a run depends on

Two states are `Similar` when they differ only in what a run of the machine does not look at:
`R_COND`, the bytes printed so far, the record of calls, the cells and the parts of the input
stream that a `View` leaves out. From similar states every step that stays within the view ends
alike (`step_similar`), and so do runs.

Four results are read off: `unread` (nothing ever reads `R_COND` or what has been printed),
`schedule` (when input arrives makes no difference to a run that does not poll the keyboard),
`causality` (nor does input it has not taken yet) and `footprint` (nor do the cells a run does not
read). -/

namespace Yavm.Lc3

open Basis

/-- What a run may look at, and the input streams it cannot tell apart. -/
structure View where
  /-- Addresses that may be read. -/
  reads : Word → Prop
  /-- Cells that may be read, through an address or by a string trap. -/
  cells : Fin uint16Max → Prop
  input : Input Byte → Input Byte → Prop
  /-- Streams that a key may be taken from. -/
  takes : Input Byte → Prop
  cell : ∀ a, reads a → ¬ IsDevice a → ∀ h : a.toNat < uint16Max, cells ⟨a.toNat, h⟩
  getchar : ∀ i j, input i j → takes j →
    Option.Rel (fun p q => p.1 = q.1 ∧ input p.2 q.2) i.getchar j.getchar
  /-- Where the keyboard may be polled, the streams answer alike, and a key may be taken. -/
  poll : reads mrKbsr ∨ reads mrKbdr →
    ∀ i j, input i j → i.ready = j.ready ∧ input i.receive j.receive ∧ takes j.receive

/-- The states differ only in what is not looked at. -/
structure Agree (V : View) (s s' : State) : Prop where
  memory : ∀ j, V.cells j → s.memory j = s'.memory j
  registers : ∀ r, r ≠ .cond → s.registers r = s'.registers r
  running : s.running = s'.running
  stdin : V.input s.stdin s'.stdin

/-- The states agree, the runs that led to them from `o` and `o'` have printed the same, and a cell
    outside the view holds the same in both or has not changed in either. -/
structure Similar (V : View) (o o' s s' : State) : Prop extends Agree V s s' where
  rest : ∀ j, s.memory j = s'.memory j ∨ (s.memory j = o.memory j ∧ s'.memory j = o'.memory j)
  stdout : ∃ more, s.stdout = o.stdout ++ more ∧ s'.stdout = o'.stdout ++ more

variable {V : View} {o o' s s' : State}

theorem Agree.similar (h : Agree V o o') : Similar V o o' o o' :=
  ⟨h, fun _ => Or.inr ⟨rfl, rfl⟩, [], by simp, by simp⟩

/-- Results of two computations, and the states after them. -/
def SameResult (V : View) (o o' : State) {α : Type} (p p' : α × State) : Prop :=
  p.1 = p'.1 ∧ Similar V o o' p.2 p'.2

namespace Similar

section

variable (h : Similar V o o' s s')
include h

theorem withStdin {i j : Input Byte} (hin : V.input i j) :
    Similar V o o' { s with stdin := i } { s' with stdin := j } :=
  ⟨⟨h.memory, h.registers, h.running, hin⟩, h.rest, h.stdout⟩

theorem record (e e' : Event) : Similar V o o' (s.record e) (s'.record e') :=
  ⟨⟨h.memory, h.registers, h.running, h.stdin⟩, h.rest, h.stdout⟩

theorem setReg (r : Reg) (v : Word) : Similar V o o' (s.setReg r v) (s'.setReg r v) := by
  refine ⟨⟨h.memory, fun x hx => ?_, h.running, h.stdin⟩, h.rest, h.stdout⟩
  by_cases hxr : x = r
  · subst hxr
    simp
  · simp [hxr, h.registers x hx]

theorem general {r : Reg} (hr : r.General) : s.registers r = s'.registers r :=
  h.registers r hr.ne_cond

theorem pc : s.registers .pc = s'.registers .pc :=
  h.registers .pc Reg.pc_ne_cond

/-! ## Reading -/

theorem getchar (htakes : V.takes s'.stdin) :
    Alike (SameResult V o o') (getchar s) (getchar s') := by
  unfold Lc3.getchar
  have hget := V.getchar _ _ h.stdin htakes
  cases hs : s.stdin.getchar <;> cases hs' : s'.stdin.getchar
  all_goals rw [hs, hs'] at hget
  case none.none => rfl
  case some.some p q =>
    obtain ⟨hc, hin⟩ := Option.rel_some_some.1 hget
    exact ⟨hc, (h.withStdin hin).record _ _⟩
  all_goals cases hget

theorem pollKeyboard (hpoll : V.reads mrKbsr ∨ V.reads mrKbdr) :
    SameResult V o o' (pollKeyboard s) (pollKeyboard s') ∧
      V.takes (Lc3.pollKeyboard s').2.stdin := by
  obtain ⟨hready, hin, htakes⟩ := V.poll hpoll _ _ h.stdin
  refine ⟨⟨?_, h.withStdin hin⟩, htakes⟩
  change (if s.stdin.ready = true then _ else _) = (if s'.stdin.ready = true then _ else _)
  rw [hready]

theorem memoryRead {a : Word} (ha : V.reads a) :
    Alike (SameResult V o o') (memoryRead a s) (memoryRead a s') := by
  have hrecord : ∀ p p' : Word × State, SameResult V o o' p p' →
      SameResult V o o' (p.1, p.2.record (.read a p.1)) (p'.1, p'.2.record (.read a p'.1)) :=
    fun p p' hp => ⟨hp.1, hp.2.record _ _⟩
  unfold Lc3.memoryRead
  refine Alike.map (R := SameResult V o o') ?_ fun p p' _ _ hp => hrecord p p' hp
  unfold readAt
  by_cases hkbsr : a = mrKbsr
  · rw [if_pos hkbsr, if_pos hkbsr]
    exact (h.pollKeyboard (Or.inl (hkbsr ▸ ha))).1
  rw [if_neg hkbsr, if_neg hkbsr]
  by_cases hkbdr : a = mrKbdr
  · rw [if_pos hkbdr, if_pos hkbdr]
    obtain ⟨⟨hstatus, hpolled⟩, htakes⟩ := h.pollKeyboard (Or.inr (hkbdr ▸ ha))
    simp only [hstatus]
    split
    · exact (hpolled.getchar htakes).map fun p p' _ _ hp => ⟨congrArg charCode hp.1, hp.2⟩
    · exact ⟨rfl, hpolled⟩
  rw [if_neg hkbdr, if_neg hkbdr]
  by_cases hdsr : a = mrDsr
  · rw [if_pos hdsr, if_pos hdsr]
    exact ⟨rfl, h⟩
  rw [if_neg hdsr, if_neg hdsr]
  by_cases hddr : a = mrDdr
  · rw [if_pos hddr, if_pos hddr]
    exact ⟨rfl, h⟩
  rw [if_neg hddr, if_neg hddr]
  split
  · next hlt =>
      have hdev : ¬ IsDevice a := by
        rintro (heq | heq | heq | heq)
        exacts [hkbsr heq, hkbdr heq, hdsr heq, hddr heq]
      exact ⟨h.memory _ (V.cell a ha hdev hlt), h⟩
  · rfl

/-! ## Operands -/

theorem operand2 (w : Word) : operand2 w s = operand2 w s' := by
  unfold Lc3.operand2
  rw [h.general (Reg.low3_general w)]

theorem pcRelative (w : Word) : pcRelative w s = pcRelative w s' := by
  rw [Lc3.pcRelative, Lc3.pcRelative, h.pc]

theorem baseOffset (w : Word) : baseOffset w s = baseOffset w s' := by
  rw [Lc3.baseOffset, Lc3.baseOffset, h.general (baseOf_general w)]

theorem jsrEffect (w : Word) : jsrEffect w s = jsrEffect w s' := by
  have hbase : Function.update s.registers .r7 (s'.registers .pc) (baseOf w)
      = Function.update s'.registers .r7 (s'.registers .pc) (baseOf w) := by
    rw [Function.update_apply, Function.update_apply, h.general (baseOf_general w)]
  unfold Lc3.jsrEffect
  rw [h.pc, hbase]

end

end Similar

/-! ## The string traps -/

/-- The walk from index `a` reaches the cell. -/
def Walks (m : Memory) (a : ℕ) (j : Fin uint16Max) : Prop :=
  a ≤ j.val ∧ ∀ i : Fin uint16Max, a ≤ i.val → i < j → m i ≠ 0

/-- The walk does not depend on the cells it does not reach. -/
theorem stringLoop_congr (bytesOf : Word → List Byte) {m m' : Memory} (a : ℕ)
    (h : ∀ j, Walks m' a j → m j = m' j) :
    stringLoop bytesOf m (uint16Max - a) = stringLoop bytesOf m' (uint16Max - a) := by
  induction hleft : uint16Max - a generalizing a with
  | zero => rfl
  | succ left ih =>
      have hlt : a < uint16Max := by omega
      have hnext : uint16Max - (a + 1) = left := by omega
      have hhere : m ⟨a, hlt⟩ = m' ⟨a, hlt⟩ := by
        refine h _ ⟨Nat.le_refl a, fun i hi hij => ?_⟩
        exact absurd hij (Nat.not_lt.2 hi)
      rw [← hleft, stringLoop_step bytesOf m hlt, stringLoop_step bytesOf m' hlt, hhere]
      split
      · rfl
      · next hne =>
          -- a nonzero word lets the walk on
          have htail := ih (a + 1) (fun j hj => h j ⟨by have := hj.1; omega, fun i hi hij => ?_⟩) hnext
          · rw [hnext, htail]
          · rcases Nat.eq_or_lt_of_le hi with heq | hgt
            · obtain rfl : i = ⟨a, hlt⟩ := Fin.ext heq.symm
              exact hne
            · exact hj.2 i hgt hij

/-! ## One step -/

/-- The addresses an instruction reads through `memoryRead`. -/
def readAddresses (instruction : Word) (s : State) : List Word :=
  match Op.decode instruction with
  | .ld | .sti => [pcRelative instruction s]
  | .ldi => [pcRelative instruction s, peek (pcRelative instruction s) s]
  | .ldr => [baseOffset instruction s]
  | _ => []

/-- The instruction walks over the cell. -/
def WalksOver (instruction : Word) (s : State) (j : Fin uint16Max) : Prop :=
  (trapOf instruction = some .puts ∨ trapOf instruction = some .putsp) ∧
    Walks s.memory (s.registers .r0).toNat j

/-- The instruction calls `getchar`. -/
def TakesKey (instruction : Word) : Prop :=
  trapOf instruction = some .getc ∨ trapOf instruction = some .in

/-- The next step reads nothing outside the view. -/
structure Within (V : View) (s : State) : Prop where
  here : V.reads (s.registers .pc)
  data : ∀ w s₁, fetch s = .ok (w, s₁) →
    (∀ a ∈ readAddresses w s₁, V.reads a) ∧ (∀ j, WalksOver w s₁ j → V.cells j) ∧
      (TakesKey w → V.takes s₁.stdin)

/-- An instruction that reads no data and walks over no string. -/
theorem Within.of_fetch {w : Word} {s₁ : State} (hpc : V.reads (s.registers .pc))
    (hfetch : fetch s = .ok (w, s₁)) (hreads : readAddresses w s₁ = [])
    (hwalks : trapOf w ≠ some .puts ∧ trapOf w ≠ some .putsp)
    (htakes : TakesKey w → V.takes s₁.stdin) : Within V s := by
  refine ⟨hpc, (forall_ok hfetch).2 ⟨fun a ha => ?_, fun j hj => ?_, htakes⟩⟩
  · rw [hreads] at ha
    exact absurd ha List.not_mem_nil
  · exact hj.1.elim (fun hputs => absurd hputs hwalks.1) fun hputsp => absurd hputsp hwalks.2

section

variable (h : Similar V o o' s s')
include h

/-- What a key or a string trap plans. -/
theorem planTrap_similar {w : Word} (hop : Op.decode w = .trap)
    (hwalks : ∀ j, WalksOver w s' j → V.cells j) (hkeys : TakesKey w → V.takes s'.stdin) :
    Alike (SameResult V o o') (planTrap w s) (planTrap w s') := by
  have hr0 : s.registers .r0 = s'.registers .r0 := h.general (by decide)
  have hstring : ∀ bytesOf : Word → List Byte,
      trapOf w = some .puts ∨ trapOf w = some .putsp →
      stringLoop bytesOf s.memory (uint16Max - (s'.registers .r0).toNat)
        = stringLoop bytesOf s'.memory (uint16Max - (s'.registers .r0).toNat) :=
    fun bytesOf htrap => stringLoop_congr bytesOf _ fun j hj => h.memory j (hwalks j ⟨htrap, hj⟩)
  have hprint : ∀ x : Except Stop (List Byte),
      Alike (SameResult V o o') (x.map fun printed => (({ output := printed } : Effect), s))
        (x.map fun printed => (({ output := printed } : Effect), s')) := fun x => by
    cases x with
    | error e => rfl
    | ok printed => exact ⟨rfl, h⟩
  rw [TakesKey, trapOf_eq hop] at hkeys
  rw [trapOf_eq hop] at hstring
  unfold planTrap
  cases hcode : TrapCode.decode w with
  | none => exact ⟨rfl, h⟩
  | some code =>
      rw [hcode] at hstring hkeys
      cases code with
      | getc =>
          refine (h.getchar (hkeys (Or.inl rfl))).map fun p p' _ _ hp => ⟨?_, hp.2⟩
          simp only [hp.1]
      | «in» =>
          refine (h.getchar (hkeys (Or.inr rfl))).map fun p p' _ _ hp => ⟨?_, hp.2⟩
          simp only [hp.1]
      | out =>
          simp only [hr0]
          exact ⟨rfl, h⟩
      | puts =>
          have hloop := hstring putsBytes (Or.inl rfl)
          simp only [hr0, putsLoop, hloop]
          exact hprint _
      | putsp =>
          have hloop := hstring putspBytes (Or.inr rfl)
          simp only [hr0, putspLoop, hloop]
          exact hprint _
      | halt => exact ⟨rfl, h⟩

/-- One case per opcode: what an instruction plans depends on what it reads. -/
theorem plan_similar {w : Word} (hreads : ∀ a ∈ readAddresses w s', V.reads a)
    (hwalks : ∀ j, WalksOver w s' j → V.cells j) (hkeys : TakesKey w → V.takes s'.stdin) :
    Alike (SameResult V o o') (plan w s) (plan w s') := by
  unfold plan
  unfold readAddresses at hreads
  cases hop : Op.decode w
  all_goals
    rw [hop] at hreads
    simp only
  case trap => exact planTrap_similar h hop hwalks hkeys
  case ld =>
    rw [h.pcRelative]
    refine (h.memoryRead (hreads _ (List.mem_singleton_self _))).map fun p p' _ _ hp => ⟨?_, hp.2⟩
    rw [hp.1]
  case ldr =>
    rw [h.baseOffset]
    refine (h.memoryRead (hreads _ (List.mem_singleton_self _))).map fun p p' _ _ hp => ⟨?_, hp.2⟩
    rw [hp.1]
  case sti =>
    rw [h.pcRelative, h.general (destOf_general w)]
    refine (h.memoryRead (hreads _ (List.mem_singleton_self _))).map fun p p' _ _ hp => ⟨?_, hp.2⟩
    rw [hp.1]
  case ldi =>
    rw [h.pcRelative]
    refine (h.memoryRead (hreads _ (by simp))).bind fun p p' _ hp' hp => ?_
    obtain ⟨pointer, t⟩ := p
    obtain ⟨pointer', t'⟩ := p'
    obtain ⟨rfl, hp⟩ := hp
    have hpeek : V.reads pointer := hreads pointer (by simp [peek_eq hp'])
    refine (hp.memoryRead hpeek).map fun q q' _ _ hq => ⟨?_, hq.2⟩
    rw [hq.1]
  case br =>
    have hbr : brEffect w s = brEffect w s' := by
      unfold brEffect
      rw [h.pcRelative]
    rw [hbr]
    exact ⟨rfl, h⟩
  case jmp =>
    rw [jmpBase_eq hop, h.general (by decide)]
    exact ⟨rfl, h⟩
  case jsr =>
    rw [h.jsrEffect]
    exact ⟨rfl, h⟩
  case add =>
    rw [h.operand2, h.general (baseOf_general w)]
    exact ⟨rfl, h⟩
  case and =>
    rw [h.operand2, h.general (baseOf_general w)]
    exact ⟨rfl, h⟩
  case not =>
    rw [h.general (baseOf_general w)]
    exact ⟨rfl, h⟩
  case lea =>
    rw [h.pcRelative]
    exact ⟨rfl, h⟩
  case st =>
    rw [h.pcRelative, h.general (destOf_general w)]
    exact ⟨rfl, h⟩
  case str =>
    rw [h.baseOffset, h.general (destOf_general w)]
    exact ⟨rfl, h⟩
  all_goals exact ⟨rfl, h⟩

/-- Committing an effect does not look at the state. -/
theorem commit_similar (e : Effect) :
    Alike (Similar V o o') (e.commit s) (e.commit s') := by
  have hregs : ∀ r, r ≠ .cond → e.registers s.registers r = e.registers s'.registers r := by
    intro r hr
    have hsame := h.registers r hr
    unfold Effect.registers Effect.setIf
    cases e.dest <;> cases e.cond <;> cases e.pc <;>
      simp [Function.update_apply, hr, hsame]
  obtain ⟨more, hout, hout'⟩ := h.stdout
  have hbefore : Similar V o o'
      { s with registers := e.registers s.registers, running := s.running && !e.halt,
               stdout := s.stdout ++ e.output }
      { s' with registers := e.registers s'.registers, running := s'.running && !e.halt,
                stdout := s'.stdout ++ e.output } := by
    refine ⟨⟨h.memory, hregs, by rw [h.running], h.stdin⟩, h.rest, more ++ e.output, ?_, ?_⟩
    · rw [hout, List.append_assoc]
    · rw [hout', List.append_assoc]
  unfold Effect.commit
  cases e.store with
  | none => exact hbefore
  | some p =>
      obtain ⟨a, v⟩ := p
      simp only [memoryWrite]
      split
      · next hlt =>
          refine ⟨⟨fun j hj => ?_, hbefore.registers, hbefore.running, hbefore.stdin⟩, fun j => ?_,
            hbefore.stdout⟩
          · change Function.update s.memory _ v j = Function.update s'.memory _ v j
            rw [Function.update_apply, Function.update_apply, h.memory j hj]
          · change Function.update s.memory _ v j = Function.update s'.memory _ v j ∨
              Function.update s.memory _ v j = _ ∧ Function.update s'.memory _ v j = _
            -- the cell stored to holds the same in both
            by_cases hj : j = ⟨a.toNat, hlt⟩
            · subst hj
              simp
            · simp only [Function.update_of_ne hj]
              exact h.rest j
      · rfl

theorem fetch_similar (hpc : V.reads (s'.registers .pc)) :
    Alike (SameResult V o o') (fetch s) (fetch s') := by
  unfold fetch
  rw [h.pc]
  exact (h.setReg .pc _).memoryRead hpc

/-- **Step lemma.** From similar states, a step that stays within the view ends alike. -/
theorem step_similar (hwithin : Within V s') :
    Alike (Similar V o o') (emulateStep s) (emulateStep s') := by
  unfold emulateStep
  rw [h.running]
  split
  · refine (fetch_similar h hwithin.here).bind ?_
    rintro ⟨w, s₁⟩ ⟨w', s₁'⟩ - hfetch ⟨hw, hsim⟩
    obtain rfl : w = w' := hw
    obtain ⟨hreads, hwalks, hkeys⟩ := hwithin.data w s₁' hfetch
    simp only [dispatch_eq_plan]
    refine (plan_similar hsim hreads hwalks hkeys).bind ?_
    rintro ⟨e, t⟩ ⟨e', t'⟩ - - ⟨he, hsim'⟩
    obtain rfl : e = e' := he
    exact commit_similar hsim' e
  · rfl

/-- **Run lemma.** So do runs. -/
theorem steps_similar {n : ℕ}
    (hwithin : ∀ k < n, ∀ t, steps emulateStep k s' = .ok t → Within V t) :
    Alike (Similar V o o') (steps emulateStep n s) (steps emulateStep n s') :=
  alike_steps_along (Within V) (fun _ _ => step_similar) h hwithin

end

/-! ## Four views -/

namespace View

/-- Everything but `R_COND`, what has been printed and the record of calls. -/
def everything : View where
  reads _ := True
  cells _ := True
  input := Eq
  takes _ := True
  cell _ _ _ _ := trivial
  getchar i j h _ := by
    subst h
    cases i.getchar with
    | none => exact .none
    | some p => exact .some ⟨rfl, rfl⟩
  poll _ _ _ h := h ▸ ⟨rfl, rfl, trivial⟩

/-- Everything but the keyboard registers: of standard input the bytes, and whether it ends. -/
def unpolled : View where
  reads a := a ≠ mrKbsr ∧ a ≠ mrKbdr
  cells _ := True
  input := Input.SameStream
  takes _ := True
  cell _ _ _ _ := trivial
  getchar _ _ h _ := h.getchar
  poll h := by
    rcases h with h | h
    · exact absurd rfl h.1
    · exact absurd rfl h.2

/-- Everything but the keyboard registers and the bytes of standard input from `more` on. -/
def upTo (more : List Byte) : View where
  reads a := a ≠ mrKbsr ∧ a ≠ mrKbdr
  cells _ := True
  input i j := i.pending = j.pending ++ more
  takes j := j.pending ≠ []
  cell _ _ _ _ := trivial
  getchar _ _ h hpending := Input.getchar_of_pending_append h hpending
  poll h := by
    rcases h with h | h
    · exact absurd rfl h.1
    · exact absurd rfl h.2

/-- Everything but the cells outside `used`. -/
def only (used : Fin uint16Max → Prop) : View where
  reads a := ¬ IsDevice a → ∀ h : a.toNat < uint16Max, used ⟨a.toNat, h⟩
  cells := used
  input := Eq
  takes _ := True
  cell _ h := h
  getchar := everything.getchar
  poll := fun _ => everything.poll (Or.inl trivial)

end View

/-- For all states that differ in `R_COND`, in what has been printed and in the record of calls
    only, and every number of steps: the runs end alike, with the same error or in states that
    again differ in nothing else, and have printed the same bytes in the meantime. -/
theorem unread (h : Agree .everything o o') (n : ℕ) :
    Alike (Similar .everything o o') (steps emulateStep n o) (steps emulateStep n o') :=
  steps_similar h.similar fun _ _ _ _ =>
    ⟨trivial, fun _ _ _ => ⟨fun _ _ => trivial, fun _ _ => trivial, fun _ => trivial⟩⟩

/-- Another condition code and some earlier output, before `ADD R0, R0, #0` and `BRz #1`. -/
theorem unread_flags :
    ∃ s s', Booted s ∧ s'.registers .cond ≠ s.registers .cond ∧ s'.stdout ≠ s.stdout ∧
      Alike (Similar .everything s s') (steps emulateStep 2 s) (steps emulateStep 2 s') := by
  have hstart : ∃ s, Booted s ∧ s.registers .cond = 0 ∧ s.stdout = [] :=
    ⟨_, ⟨some (imageFile 0x3000 [0x1020, 0x0401]), 0, noInput, rfl⟩, rfl, rfl⟩
  obtain ⟨s, hboot, hcond, hout⟩ := hstart
  refine ⟨s, (s.setReg .cond 1).print [0x41], hboot, ?_, ?_, unread ?_ 2⟩
  · simp [State.print, hcond]
  · simp [State.print, hout]
  · refine ⟨fun _ _ => rfl, fun r hr => ?_, rfl, rfl⟩
    exact (Function.update_of_ne hr ..).symm

/-- For all states whose standard inputs carry the same bytes, whatever of them has arrived, been
    buffered or is still to arrive, and every number of steps: if no step of one run reads `MR_KBSR`
    or `MR_KBDR`, the runs end alike, with the same error or with the same registers other than
    `R_COND`, memory and output, and the same bytes still to come. -/
theorem schedule {n : ℕ} (h : Agree .unpolled o o')
    (hunpolled : ∀ k < n, ∀ t, steps emulateStep k o' = .ok t → Within .unpolled t) :
    Alike (Similar .unpolled o o') (steps emulateStep n o) (steps emulateStep n o') :=
  steps_similar h.similar hunpolled

/-- `GETC`, `OUT`, `HALT`, with the byte in the buffer or still to arrive. -/
theorem schedule_echo :
    ∃ s s', Booted s ∧ Booted s' ∧ s.stdin.buffered ≠ s'.stdin.buffered ∧
      Alike (Similar .unpolled s s') (steps emulateStep 3 s) (steps emulateStep 3 s') := by
  have hstart : ∃ s s', Booted s ∧ Booted s' ∧ s.stdin.buffered ≠ s'.stdin.buffered ∧
      Agree .unpolled s s' ∧
      ∀ k < 3, ∀ t, steps emulateStep k s' = .ok t → Within .unpolled t := by
    refine ⟨_, _, ⟨some (imageFile 0x3000 [0xF020, 0xF021, 0xF025]), 0,
        { noInput with buffered := [0x61] }, rfl⟩,
      ⟨some (imageFile 0x3000 [0xF020, 0xF021, 0xF025]), 0,
        { noInput with arrivals := [[], [0x61]] }, rfl⟩,
      by decide, ⟨fun _ _ => rfl, fun _ _ => rfl, rfl, ⟨rfl, rfl⟩⟩, ?_⟩
    intro k hk t ht
    interval_cases k
    all_goals
      obtain rfl := Except.ok.inj ht
      exact .of_fetch ⟨by decide, by decide⟩ rfl rfl ⟨by decide, by decide⟩ fun _ => trivial
  obtain ⟨s, s', hboot, hboot', hbuffered, hagree, hwithin⟩ := hstart
  exact ⟨s, s', hboot, hboot', hbuffered, schedule hagree hwithin⟩

/-- For all states of which one has more bytes behind its standard input than the other, and every
    number of steps: if no step of the run with the shorter input reads `MR_KBSR` or `MR_KBDR` or
    takes a key when no byte is left, the runs end alike, with the same error or with the same
    registers other than `R_COND`, memory and output, and the longer input again has those bytes
    behind the other. So what a program has not read yet has made no difference. -/
theorem causality {n : ℕ} {more : List Byte} (h : Agree (.upTo more) o o')
    (hshorter : ∀ k < n, ∀ t, steps emulateStep k o' = .ok t → Within (.upTo more) t) :
    Alike (Similar (.upTo more) o o') (steps emulateStep n o) (steps emulateStep n o') :=
  steps_similar h.similar hshorter

/-- `GETC`, `OUT`, `HALT`, with another byte behind the one that is taken, or without. -/
theorem causality_echo :
    ∃ s s', Booted s ∧ Booted s' ∧ s.stdin.pending = [0x61, 0x62] ∧ s'.stdin.pending = [0x61] ∧
      Alike (Similar (.upTo [0x62]) s s') (steps emulateStep 3 s) (steps emulateStep 3 s') := by
  have hstart : ∃ s s', Booted s ∧ Booted s' ∧ s.stdin.pending = [0x61, 0x62] ∧
      s'.stdin.pending = [0x61] ∧ Agree (.upTo [0x62]) s s' ∧
      ∀ k < 3, ∀ t, steps emulateStep k s' = .ok t → Within (.upTo [0x62]) t := by
    refine ⟨_, _, ⟨some (imageFile 0x3000 [0xF020, 0xF021, 0xF025]), 0,
        { noInput with buffered := [0x61, 0x62] }, rfl⟩,
      ⟨some (imageFile 0x3000 [0xF020, 0xF021, 0xF025]), 0,
        { noInput with buffered := [0x61] }, rfl⟩,
      rfl, rfl, ⟨fun _ _ => rfl, fun _ _ => rfl, rfl, rfl⟩, ?_⟩
    intro k hk t ht
    interval_cases k
    all_goals obtain rfl := Except.ok.inj ht
    · exact .of_fetch ⟨by decide, by decide⟩ rfl rfl ⟨by decide, by decide⟩ fun _ =>
        List.cons_ne_nil 0x61 []
    all_goals
      exact .of_fetch ⟨by decide, by decide⟩ rfl rfl ⟨by decide, by decide⟩ fun htakes =>
        absurd htakes (by simp only [TakesKey]; decide)
  obtain ⟨s, s', hboot, hboot', hlonger, hshorter, hagree, hwithin⟩ := hstart
  exact ⟨s, s', hboot, hboot', hlonger, hshorter, causality hagree hwithin⟩

/-- For all states that agree on a set of cells and every number of steps: if no step of one run
    reads a cell outside the set, by a fetch, a load, a pointer or a string trap, the runs end
    alike, with the same error or with the same registers other than `R_COND` and the same output.
    A cell then holds the same in both, or is outside the set and unchanged in both. -/
theorem footprint {n : ℕ} {used : Fin uint16Max → Prop} (h : Agree (.only used) o o')
    (hused : ∀ k < n, ∀ t, steps emulateStep k o' = .ok t → Within (.only used) t) :
    Alike (Similar (.only used) o o') (steps emulateStep n o) (steps emulateStep n o') :=
  steps_similar h.similar hused

/-- A count, a branch over the next word, `HALT`, and the same with another word in the middle. -/
theorem footprint_skip :
    ∃ s, Booted s ∧ s.memory ⟨0x3002, by decide⟩ = 0 ∧
      Alike (Similar (.only fun j => j.val ≠ 0x3002)
          { s with memory := Function.update s.memory ⟨0x3002, by decide⟩ 0x1234 } s)
        (steps emulateStep 3
          { s with memory := Function.update s.memory ⟨0x3002, by decide⟩ 0x1234 })
        (steps emulateStep 3 s) := by
  have hstart : ∃ s, Booted s ∧ s.memory ⟨0x3002, by decide⟩ = 0 ∧
      ∀ k < 3, ∀ t, steps emulateStep k s = .ok t → Within (.only fun j => j.val ≠ 0x3002) t := by
    refine ⟨_, ⟨some (imageFile 0x3000 [0x1021, 0x0E01, 0, 0xF025]), 0, noInput, rfl⟩, rfl, ?_⟩
    intro k hk t ht
    interval_cases k
    all_goals
      obtain rfl := Except.ok.inj ht
      exact .of_fetch (fun _ _ => Nat.ne_of_beq_eq_false rfl) rfl rfl ⟨by decide, by decide⟩
        fun _ => trivial
  obtain ⟨s, hboot, hzero, hwithin⟩ := hstart
  refine ⟨s, hboot, hzero, footprint ⟨fun j hj => ?_, fun _ _ => rfl, rfl, rfl⟩ hwithin⟩
  exact Function.update_of_ne (fun heq => hj (congrArg Fin.val heq)) ..

end Yavm.Lc3
