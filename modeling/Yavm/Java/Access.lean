import Yavm.Java.Agreement
import Yavm.Java.Handlers

set_option autoImplicit false

/-! # Loads and stores on both machines

A load or store has one data cell: at the base plus the offset, or where that cell points. Each
machine finds its cell (`Access.cCell`, `Access.javaCell`) and then moves one word between the cell
and a register (`Moved`), so the machines agree exactly when they find the same cell
(`accessLaw_iff_cell`). Where the offset is not negative and nothing wraps, `LD`, `LDI` and `ST`
always do; the Java machine adds the number of the base register in `LDR` and `STR`, takes five of
the six bits of the offset in `STR`, and adds the constant `R_PC` in `STI` (`accessLaw_iff`). -/

namespace Yavm.Java

open Basis
open Lc3 (Reg Word Flag IsDevice)

/-! ## The instructions -/

inductive AccessOp
  | ld | ldi | ldr | st | sti | str
  deriving DecidableEq, Repr

namespace AccessOp

def opcode : AccessOp → Lc3.Op
  | .ld => .ld
  | .ldi => .ldi
  | .ldr => .ldr
  | .st => .st
  | .sti => .sti
  | .str => .str

def isStore : AccessOp → Bool
  | .st | .sti | .str => true
  | _ => false

/-- The data cell is where the addressed cell points. -/
def isIndirect : AccessOp → Bool
  | .ldi | .sti => true
  | _ => false

/-- The width of the offset field. -/
def offsetBits : AccessOp → ℕ
  | .ldr | .str => 6
  | _ => 9

theorem offsetBits_pos (op : AccessOp) : 0 < op.offsetBits := by
  cases op <;> decide

theorem offsetBits_le (op : AccessOp) : op.offsetBits ≤ 16 := by
  cases op <;> decide

end AccessOp

/-- An `LD`, `LDI`, `LDR`, `ST`, `STI` or `STR` word. -/
structure Access where
  word : Word
  op : AccessOp
  decodes : Lc3.Op.decode word = op.opcode

/-- The word at an address. The C machine has no cell at `0xFFFF`. -/
def cellAt (c : Lc3.State) (a : Word) : Word :=
  if h : a.toNat < Lc3.uint16Max then c.memory ⟨a.toNat, h⟩ else 0

/-- Neither a device register nor the address without a cell. -/
def Ordinary (a : Word) : Prop := ¬ IsDevice a ∧ a ≠ 0xFFFF

instance : DecidablePred Ordinary := fun a =>
  inferInstanceAs (Decidable (¬ IsDevice a ∧ a ≠ 0xFFFF))

namespace Access

/-- The Java handler of the word. -/
def runJava (i : Access) (s : State) : Except Stop State :=
  match i.op with
  | .ld => load (i.word.setWidth 32) s
  | .ldi => loadIndirect (i.word.setWidth 32) s
  | .ldr => loadRegister (i.word.setWidth 32) s
  | .st => store (i.word.setWidth 32) s
  | .sti => storeIndirect (i.word.setWidth 32) s
  | .str => storeRegister (i.word.setWidth 32) s

/-- The C handler of the word. -/
def runC (i : Access) (s : Lc3.State) : Except Lc3.Stop Lc3.State :=
  match i.op with
  | .ld => Lc3.ld i.word s
  | .ldi => Lc3.ldi i.word s
  | .ldr => Lc3.ldr i.word s
  | .st => Lc3.st i.word s
  | .sti => Lc3.sti i.word s
  | .str => Lc3.str i.word s

/-- The register the offset is added to. -/
def base (i : Access) : Reg :=
  match i.op with
  | .ldr | .str => Lc3.baseOf i.word
  | _ => .pc

/-- The base and the sign-extended offset. -/
def address (i : Access) (c : Lc3.State) : Word :=
  c.registers i.base + Lc3.sext i.op.offsetBits i.word

/-- The data cell of the C handler. -/
def cCell (i : Access) (c : Lc3.State) : Word :=
  if i.op.isIndirect then cellAt c (i.address c) else i.address c

/-- What the Java handler adds the offset to, and the offset. -/
def javaAddress (i : Access) (s : State) : JavaInt :=
  match i.op with
  | .ld | .ldi | .st => s.registers .pc + offset 9 i.word
  | .ldr => number (Lc3.baseOf i.word) + offset 6 i.word
  | .sti => number .pc + offset 9 i.word
  | .str => number (Lc3.baseOf i.word) + offset 5 i.word

/-- The data cell of the Java handler. -/
def javaCell (i : Access) (s : State) : Except Stop JavaInt :=
  if i.op.isIndirect then memoryRead (i.javaAddress s) s else .ok (i.javaAddress s)

/-- The instructions in question: the offset is not negative, the address does not wrap, and neither
    the address nor the data cell is a device register or `0xFFFF`. -/
structure Plain (i : Access) (c : Lc3.State) : Prop where
  sign : i.word.getLsbD (i.op.offsetBits - 1) = false
  noWrap : (c.registers i.base).toNat + i.word.toNat % 2 ^ i.op.offsetBits < 65536
  address : Ordinary (i.address c)
  cell : Ordinary (i.cCell c)

/-- The word the Java handler has moved, where it has moved it to. -/
def javaValue (i : Access) (a : Word) (s : State) : JavaInt :=
  if i.op.isStore then s.memory ⟨a.toNat, a.isLt⟩ else s.registers (Lc3.destOf i.word)

/-- What makes the address of the Java handler that of the C handler. -/
def SameAddress (i : Access) (s : State) : Prop :=
  match i.op with
  | .ld | .ldi | .st => True
  | .ldr => s.registers (Lc3.baseOf i.word) = number (Lc3.baseOf i.word)
  | .sti => s.registers .pc = number .pc
  | .str => i.word.getLsbD 4 = false ∧
      s.registers (Lc3.baseOf i.word) = number (Lc3.baseOf i.word)

/-- What makes the data cell of the Java handler that of the C handler: the same address, or for
    `STI` the same pointer at the two addresses. -/
def SameCell (i : Access) (s : State) : Prop :=
  if i.op = .sti then
    memoryRead (number .pc + offset 9 i.word) s = memoryRead (s.registers .pc + offset 9 i.word) s
  else i.SameAddress s

end Access

/-- The C machine's record of an access. -/
def accessEvent (isStore : Bool) (a v : Word) : Lc3.Event :=
  if isStore then .write a v else .read a v

/-- `R0` … `R7` and `memory` are equal. -/
structure SameData (c : Lc3.State) (j : State) : Prop where
  general : ∀ r : Reg, r.General → j.registers r = (c.registers r).setWidth 32
  memory : ∀ k : Fin Lc3.uint16Max, j.memory k.castSucc = (c.memory k).setWidth 32

/-- Both handlers complete, at one data cell `a` and with one word `v` moved, and leave `R0` … `R7`
    and `memory` equal. -/
def AccessLaw (i : Access) (c : Lc3.State) (j : State) : Prop :=
  ∃ c' j' a v, i.runC c = .ok c' ∧ i.runJava j = .ok j' ∧
    c'.events.getLast? = some (accessEvent i.op.isStore a v) ∧ i.javaCell j = .ok (a.setWidth 32) ∧
    i.javaValue a j' = v.setWidth 32 ∧ SameData c' j'

/-! ## Moving a word -/

/-- One word moves between a register and a cell: up to the registers that are no general-purpose
    ones, nothing else changes. -/
structure Moved {n : ℕ} {α : Type} (isStore : Bool) (r : Reg) (a : ℕ) (v : α)
    (regs regs' : Reg → α) (mem mem' : Fin n → α) : Prop where
  general : ∀ r' : Reg, r'.General → regs' r' = if isStore = false ∧ r' = r then v else regs r'
  memory : ∀ k, mem' k = if isStore = true ∧ k.val = a then v else mem k

section

variable {n : ℕ} {α : Type}

theorem moved_load {r : Reg} {v : α} {regs regs' : Reg → α} (mem : Fin n → α) (a : ℕ)
    (h : ∀ r' : Reg, r'.General → regs' r' = Function.update regs r v r') :
    Moved false r a v regs regs' mem mem where
  general := fun r' hr' => by
    rw [h r' hr', Function.update_apply]
    simp
  memory := fun k => by simp

theorem moved_store (r : Reg) (a : Fin n) (v : α) (regs : Reg → α) (mem : Fin n → α) :
    Moved true r a.val v regs regs mem (Function.update mem a v) where
  general := fun r' _ => by simp
  memory := fun k => by
    rw [Function.update_apply]
    simp [Fin.ext_iff]

end

/-- The same move from equal states ends in equal states. -/
theorem SameData.moved {c c' : Lc3.State} {j j' : State} (h : SameData c j) {isStore : Bool}
    {r : Reg} {a : ℕ} {v : Word}
    (hc : Moved isStore r a v c.registers c'.registers c.memory c'.memory)
    (hj : Moved isStore r a (v.setWidth 32) j.registers j'.registers j.memory j'.memory) :
    SameData c' j' where
  general := fun r' hr' => by
    rw [hc.general r' hr', hj.general r' hr']
    split
    · rfl
    · exact h.general r' hr'
  memory := fun k => by
    rw [hc.memory k, hj.memory k.castSucc, Fin.val_castSucc]
    split
    · rfl
    · exact h.memory k

/-! ## The C handlers -/

theorem Ordinary.read {a : Word} (h : Ordinary a) (c : Lc3.State) :
    Lc3.memoryRead a c = .ok (cellAt c a, c.record (.read a (cellAt c a))) := by
  have hlt := Lc3.lt_uint16Max_iff.2 h.2
  rw [Lc3.memoryRead_cell c h.1 hlt, cellAt, dif_pos hlt]

theorem Ordinary.write {a : Word} (h : Ordinary a) (v : Word) (c : Lc3.State) :
    Lc3.memoryWrite a v c = .ok ({ c with
      memory := Function.update c.memory ⟨a.toNat, Lc3.lt_uint16Max_iff.2 h.2⟩ v }.record
        (.write a v)) :=
  Lc3.memoryWrite_eq_ok.2 ⟨Lc3.lt_uint16Max_iff.2 h.2, rfl⟩

/-- One word moved on the C machine, with the access to its cell recorded last. -/
structure CAccess (isStore : Bool) (r : Reg) (a v : Word) (c c' : Lc3.State) : Prop where
  event : c'.events.getLast? = some (accessEvent isStore a v)
  moved : Moved isStore r a.toNat v c.registers c'.registers c.memory c'.memory

/-- An access recorded before the move makes no difference to it. -/
theorem CAccess.of_record {isStore : Bool} {r : Reg} {a v : Word} {c c' : Lc3.State}
    {e : Lc3.Event} (h : CAccess isStore r a v (c.record e) c') : CAccess isStore r a v c c' :=
  ⟨h.event, h.moved⟩

/-- The end of a load: `f` puts the word in the register, and may set the condition codes. -/
theorem load_access {a : Word} (ha : Ordinary a) {r : Reg} (c : Lc3.State)
    {f : Word → Lc3.State → Lc3.State} (hmemory : ∀ v t, (f v t).memory = t.memory)
    (hevents : ∀ v t, (f v t).events = t.events)
    (hregisters : ∀ v t, ∀ r' : Reg, r'.General →
      (f v t).registers r' = Function.update t.registers r v r') :
    ∃ c', (Lc3.memoryRead a c >>= fun p => .ok (f p.1 p.2)) = .ok c' ∧
      CAccess false r a (cellAt c a) c c' := by
  rw [ha.read c]
  refine ⟨_, rfl, ?_, ?_⟩
  · rw [hevents]
    exact List.getLast?_concat
  · rw [hmemory]
    exact moved_load c.memory _ (hregisters _ _)

theorem store_access {a : Word} (ha : Ordinary a) (r : Reg) (c : Lc3.State) :
    ∃ c', Lc3.memoryWrite a (c.registers r) c = .ok c' ∧
      CAccess true r a (c.registers r) c c' := by
  rw [ha.write]
  exact ⟨_, rfl, List.getLast?_concat, moved_store r ⟨a.toNat, _⟩ _ c.registers c.memory⟩

theorem updateFlags_general (r : Reg) (v : Word) (c : Lc3.State) {r' : Reg} (hr' : r'.General) :
    (Lc3.updateFlags r (c.setReg r v)).registers r' = Function.update c.registers r v r' := by
  rw [Lc3.updateFlags_eq, Lc3.State.setReg_registers, Function.update_of_ne hr'.ne_cond,
    Lc3.State.setReg_registers]

theorem load_updateFlags_access {a : Word} (ha : Ordinary a) (r : Reg) (c : Lc3.State) :
    ∃ c', (Lc3.memoryRead a c >>= fun p => .ok (Lc3.updateFlags r (p.2.setReg r p.1))) = .ok c' ∧
      CAccess false r a (cellAt c a) c c' :=
  load_access ha c (fun v t => by rw [Lc3.updateFlags_eq]; rfl)
    (fun v t => by rw [Lc3.updateFlags_eq]; rfl) fun v t _ hr' => updateFlags_general r v t hr'

/-- The word an access moves. -/
def Access.value (i : Access) (c : Lc3.State) : Word :=
  if i.op.isStore then c.registers (Lc3.destOf i.word) else cellAt c (i.cCell c)

/-- The C handler moves one word at its data cell. -/
theorem c_access {i : Access} {c : Lc3.State} (h : i.Plain c) :
    ∃ c', i.runC c = .ok c' ∧
      CAccess i.op.isStore (Lc3.destOf i.word) (i.cCell c) (i.value c) c c' := by
  have haddress := h.address
  have hcell := h.cell
  clear h
  obtain ⟨w, op, hop⟩ := i
  cases op
  case ld =>
    change ∃ c', Lc3.ld w c = .ok c' ∧ _
    simp only [Lc3.ld, Lc3.signExtend_9]
    exact load_updateFlags_access hcell _ c
  case ldr =>
    change ∃ c', Lc3.ldr w c = .ok c' ∧ _
    simp only [Lc3.ldr, Lc3.signExtend_6]
    exact load_updateFlags_access hcell _ c
  case ldi =>
    change ∃ c', Lc3.ldi w c = .ok c' ∧ _
    simp only [Lc3.ldi, Lc3.signExtend_9]
    change ∃ c', (Lc3.memoryRead (Access.address ⟨w, .ldi, hop⟩ c) c >>= _) = .ok c' ∧ _
    -- reading the pointer changes nothing but the record
    rw [haddress.read c]
    obtain ⟨c', hc', haccess⟩ := load_access hcell (c.record (.read _ (cellAt c _)))
      (f := fun v t => t.setReg (Lc3.destOf w) v) (fun _ _ => rfl) (fun _ _ => rfl)
      fun _ _ _ _ => rfl
    exact ⟨c', hc', haccess.of_record⟩
  case st =>
    change ∃ c', Lc3.st w c = .ok c' ∧ _
    simp only [Lc3.st, Lc3.signExtend_9]
    exact store_access hcell _ c
  case str =>
    change ∃ c', Lc3.str w c = .ok c' ∧ _
    simp only [Lc3.str, Lc3.signExtend_6]
    exact store_access hcell _ c
  case sti =>
    change ∃ c', Lc3.sti w c = .ok c' ∧ _
    simp only [Lc3.sti, Lc3.signExtend_9]
    change ∃ c', (Lc3.memoryRead (Access.address ⟨w, .sti, hop⟩ c) c >>= _) = .ok c' ∧ _
    rw [haddress.read c]
    obtain ⟨c', hc', haccess⟩ := store_access hcell (Lc3.destOf w) (c.record (.read _ (cellAt c _)))
    exact ⟨c', hc', haccess.of_record⟩

/-! ## The Java handlers -/

/-- What a Java handler does once it has its data cell. -/
def Access.transfer (i : Access) (a : JavaInt) (s : State) : Except Stop State :=
  if i.op.isStore then memoryWrite a (s.registers (Lc3.destOf i.word)) s
  else (memoryRead a s).map fun v => s.result (Lc3.destOf i.word) v

/-- The Java handler finds its data cell, and then moves a word there. -/
theorem runJava_eq_transfer (i : Access) (s : State) :
    i.runJava s = i.javaCell s >>= fun a => i.transfer a s := by
  obtain ⟨w, op, hop⟩ := i
  cases op with
  | ld => exact load_eq w s
  | ldi => exact loadIndirect_eq w s
  | ldr => exact loadRegister_eq w s
  | st => exact store_eq w s
  | sti => exact storeIndirect_eq w s
  | str => exact storeRegister_eq w s

/-- The cell at an address other than `0xFFFF`. -/
theorem SameData.cell {c : Lc3.State} {j : State} (h : SameData c j) {a : Word} (ha : Ordinary a) :
    memoryRead (a.setWidth 32) j = .ok ((cellAt c a).setWidth 32) := by
  have hlt := Lc3.lt_uint16Max_iff.2 ha.2
  rw [memoryRead_word, cellAt, dif_pos hlt, ← h.memory]
  rfl

/-- At the data cell of the C handler, the Java handler moves the word the C handler moves. -/
theorem java_access {i : Access} {c : Lc3.State} {j : State} (h : SameData c j)
    (hcell : Ordinary (i.cCell c)) :
    ∃ j', i.transfer ((i.cCell c).setWidth 32) j = .ok j' ∧
      i.javaValue (i.cCell c) j' = (i.value c).setWidth 32 ∧
      Moved i.op.isStore (Lc3.destOf i.word) (i.cCell c).toNat ((i.value c).setWidth 32) j.registers
        j'.registers j.memory j'.memory := by
  have hdest := Lc3.destOf_general i.word
  simp only [Access.transfer, Access.value, Access.javaValue]
  generalize i.cCell c = a at *
  cases i.op.isStore with
  | false =>
      simp only [Bool.false_eq_true, if_false, h.cell hcell, Except.map]
      refine ⟨_, rfl, State.result_self _ _ hdest.ne_cond, moved_load j.memory _ fun r' hr' => ?_⟩
      rw [State.result, State.setReg_other _ _ hr'.ne_cond]
      rfl
  | true =>
      have hlt := (toNat_setWidth_32 a).trans_lt a.isLt
      have hindex : (⟨(a.setWidth 32 : JavaInt).toNat, hlt⟩ : Fin uint16Max) = ⟨a.toNat, a.isLt⟩ :=
        Fin.ext (toNat_setWidth_32 a)
      simp only [if_true, ← h.general _ hdest]
      refine ⟨_, memoryWrite_eq_ok.2 ⟨hlt, rfl⟩, ?_, ?_⟩
      · simp only [hindex, Function.update_self]
      · simp only [hindex]
        exact moved_store _ ⟨a.toNat, a.isLt⟩ _ j.registers j.memory

/-- **The same cell is all it takes.** -/
theorem accessLaw_iff_cell {i : Access} {c : Lc3.State} {j : State} (h : SameData c j)
    (hplain : i.Plain c) :
    AccessLaw i c j ↔ i.javaCell j = .ok ((i.cCell c).setWidth 32) := by
  obtain ⟨c', hc', hc⟩ := c_access hplain
  constructor
  · intro hlaw
    obtain ⟨c'', j', a, v, hc'', -, hevent, hcell, -, -⟩ := hlaw
    obtain rfl : c' = c'' := Except.ok.inj (hc'.symm.trans hc'')
    have hsame := Option.some.inj (hevent.symm.trans hc.event)
    obtain rfl : a = i.cCell c := by
      unfold accessEvent at hsame
      split at hsame <;> injection hsame
    exact hcell
  · intro hcell
    obtain ⟨j', hj', hvalue, hj⟩ := java_access h hplain.cell
    refine ⟨c', j', _, _, hc', ?_, hc.event, hcell, hvalue, h.moved hc.moved hj⟩
    rw [runJava_eq_transfer, hcell]
    exact hj'

/-! ## Finding the cell -/

/-- An offset that is not negative, added without wrapping. -/
theorem address_java {i : Access} {c : Lc3.State} {j : State} (h : SameData c j)
    (hpc : j.registers .pc = (c.registers .pc).setWidth 32) (hplain : i.Plain c) :
    (i.address c).setWidth 32 = j.registers i.base + offset i.op.offsetBits i.word := by
  have hbase : j.registers i.base = (c.registers i.base).setWidth 32 := by
    rw [Access.base]
    cases i.op with
    | ldr => exact h.general _ (Lc3.baseOf_general _)
    | str => exact h.general _ (Lc3.baseOf_general _)
    | ld => exact hpc
    | ldi => exact hpc
    | st => exact hpc
    | sti => exact hpc
  have hwrap := hplain.noWrap
  rw [← offset_of_nonneg i.op.offsetBits_pos i.op.offsetBits_le hplain.sign] at hwrap
  apply BitVec.eq_of_toNat_eq
  rw [hbase, Access.address, toNat_setWidth_32, BitVec.toNat_add, BitVec.toNat_add,
    toNat_setWidth_32, ← offset_setWidth i.op.offsetBits_pos i.op.offsetBits_le,
    BitVec.toNat_setWidth]
  omega

/-- Where the sign bit of six bits is clear, five bits are the same offset when theirs is clear too,
    and otherwise reach outside the array. -/
theorem number_add_offset_iff {w : Word} (hsign : w.getLsbD 5 = false) (r : Reg) {x : JavaInt}
    {a : Word} (ha : a.setWidth 32 = x + offset 6 w) :
    number r + offset 5 w = x + offset 6 w ↔ w.getLsbD 4 = false ∧ x = number r := by
  cases hbit : w.getLsbD 4 with
  | false =>
      have hfield : w.toNat % 2 ^ 6 = w.toNat % 2 ^ 5 := by
        have hzero : ¬ w.toNat / 2 ^ 5 % 2 = 1 := by
          rw [BitVec.getLsbD, Nat.testBit_eq_decide_div_mod_eq] at hsign
          exact of_decide_eq_false hsign
        omega
      have hoffset : offset 5 w = offset 6 w := by
        apply BitVec.eq_of_toNat_eq
        have hfive : (offset 5 w).toNat = w.toNat % 2 ^ 5 :=
          offset_of_nonneg (by decide) (by decide) hbit
        have hsix : (offset 6 w).toNat = w.toNat % 2 ^ 6 :=
          offset_of_nonneg (by decide) (by decide) hsign
        rw [hfive, hsix, hfield]
      rw [hoffset, BitVec.add_left_inj]
      simp [eq_comm]
  | true =>
      have hfar := offset_of_neg (n := 5) (by decide) (by decide) hbit
      have hr := toNat_number r
      have hr10 := r.isLt
      have hlt := a.isLt
      -- the sum is at least `65535 * 32`, and `a` has 16 bits
      refine iff_of_false (fun heq => ?_) (fun hand => absurd hand.1 (by decide))
      rw [← ha] at heq
      have hnat := congrArg BitVec.toNat heq
      rw [BitVec.toNat_add, toNat_setWidth_32, hfar, hr] at hnat
      omega

/-- The instructions for which the Java handler computes the address of the C handler. -/
theorem javaAddress_eq_iff {i : Access} {c : Lc3.State} {j : State} (h : SameData c j)
    (hpc : j.registers .pc = (c.registers .pc).setWidth 32) (hplain : i.Plain c) :
    i.javaAddress j = (i.address c).setWidth 32 ↔ i.SameAddress j := by
  have haddress := address_java h hpc hplain
  rw [haddress]
  obtain ⟨w, op, hop⟩ := i
  cases op with
  | ld => exact iff_of_true rfl trivial
  | ldi => exact iff_of_true rfl trivial
  | st => exact iff_of_true rfl trivial
  | ldr => exact (BitVec.add_left_inj _).trans eq_comm
  | sti => exact (BitVec.add_left_inj _).trans eq_comm
  | str => exact number_add_offset_iff hplain.sign _ haddress

/-- Where the Java handler finds the data cell of the C handler. -/
theorem javaCell_eq_iff {i : Access} {c : Lc3.State} {j : State} (h : SameData c j)
    (hpc : j.registers .pc = (c.registers .pc).setWidth 32) (hplain : i.Plain c) :
    i.javaCell j = .ok ((i.cCell c).setWidth 32) ↔ i.SameCell j := by
  have hpointer := h.cell hplain.address
  have hdirect : i.op.isIndirect = false →
      (i.javaCell j = .ok ((i.cCell c).setWidth 32) ↔ i.SameCell j) := by
    intro hop
    have hsti : i.op ≠ .sti := by
      intro hsti
      rw [hsti] at hop
      exact absurd hop (by decide)
    rw [Access.javaCell, Access.cCell, Access.SameCell, hop, if_neg hsti]
    simp only [Bool.false_eq_true, if_false, Except.ok.injEq]
    exact javaAddress_eq_iff h hpc hplain
  rw [address_java h hpc hplain] at hpointer
  obtain ⟨w, op, hop⟩ := i
  cases op with
  | ldi => exact iff_of_true hpointer trivial
  | sti =>
      change _ = Except.ok ((cellAt c _).setWidth 32) ↔ _
      rw [← hpointer]
      rfl
  | ld => exact hdirect rfl
  | ldr => exact hdirect rfl
  | st => exact hdirect rfl
  | str => exact hdirect rfl

/-- For all states with equal registers and memory and every load or store whose offset is not
    negative, whose address does not wrap and which touches no device register and not `0xFFFF`: the
    Java handler moves the same word at the same cell as the C handler, so that `R0` … `R7` and
    memory are equal afterwards, if and only if the instruction is an `LD`, `LDI` or `ST`; or an
    `LDR` whose base register holds its own number; or an `STI` for which the cell at `R_PC` plus
    the offset holds the same pointer as the cell at the program counter plus the offset; or an
    `STR` whose base register holds its own number and whose offset is below 16. The address, where
    `LDI` and `STI` read the pointer, is the same under the same conditions, for `STI` if and only
    if the program counter is `R_PC`. -/
theorem accessLaw_iff {i : Access} {c : Lc3.State} {j : State} (h : SameData c j)
    (hpc : j.registers .pc = (c.registers .pc).setWidth 32) (hplain : i.Plain c) :
    (AccessLaw i c j ↔ i.SameCell j) ∧
      (i.javaAddress j = (i.address c).setWidth 32 ↔ i.SameAddress j) :=
  ⟨(accessLaw_iff_cell h hplain).trans (javaCell_eq_iff h hpc hplain),
    javaAddress_eq_iff h hpc hplain⟩

theorem sameData_ofLc3 (c : Lc3.State) (f : Flag) : SameData c (ofLc3 c f) where
  general := fun _ hr => if_neg hr.ne_cond
  memory := fun k => dif_pos k.isLt

/-- The C machine about to execute at `0x3000`, with 7 in its first cell and zeros elsewhere. -/
def sevenState : Lc3.State :=
  { Lc3.emulateStart (Lc3.initialState Lc3.noInput) with
    memory := fun k => if k.val = 0 then 7 else 0 }

/-- The equivalence on `LD R0, #1`. -/
theorem accessLaw_iff_ld :
    (AccessLaw ⟨0x2001, .ld, rfl⟩ sevenState (ofLc3 sevenState .zr) ↔
        Access.SameCell ⟨0x2001, .ld, rfl⟩ (ofLc3 sevenState .zr)) ∧
      (Access.javaAddress ⟨0x2001, .ld, rfl⟩ (ofLc3 sevenState .zr)
          = (Access.address ⟨0x2001, .ld, rfl⟩ sevenState).setWidth 32 ↔
        Access.SameAddress ⟨0x2001, .ld, rfl⟩ (ofLc3 sevenState .zr)) :=
  accessLaw_iff (sameData_ofLc3 _ _) rfl ⟨rfl, by decide, by decide, by decide⟩

/-- `LDR R0, R1, #0` with 0 in `R1`: the C machine loads the 7 at address 0, the Java machine the 0
    at address 1. -/
theorem accessLaw_broken_by_ldr :
    ∃ i c j, SameData c j ∧ j.registers .pc = (c.registers .pc).setWidth 32 ∧ i.Plain c ∧
      ¬ AccessLaw i c j ∧ ∃ c' j', i.runC c = .ok c' ∧ i.runJava j = .ok j' ∧ ¬ SameData c' j' := by
  have hplain : Access.Plain ⟨0x6040, .ldr, rfl⟩ sevenState :=
    ⟨rfl, by decide, by decide, by decide⟩
  refine ⟨⟨0x6040, .ldr, rfl⟩, _, _, sameData_ofLc3 sevenState .zr, rfl, hplain, fun hlaw => ?_,
    _, _, rfl, rfl, fun hsame => ?_⟩
  · have hcell := Except.ok.inj ((accessLaw_iff_cell (sameData_ofLc3 _ _) hplain).1 hlaw)
    exact absurd hcell (by decide)
  · exact absurd (hsame.general .r0 (by decide)) (by decide)

end Yavm.Java
