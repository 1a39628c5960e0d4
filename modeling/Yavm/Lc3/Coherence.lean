import Yavm.Lc3.Bounds

set_option autoImplicit false

/-! # Memory coherence

Fetches, loads and the pointer reads of `LDI` and `STI` all see one store. `recordStore` is a
history variable: the stores of the run so far, newest first, each with the effective address the
instruction set gives it. `Coherent` relates it to `memory`: every cell holds the value of the most
recent store to it, or the word the image put there. `coherent_step` preserves it, self-modifying
programs included, and `coherence` reads it off for every call of `memoryRead` in a run. -/

namespace Yavm.Lc3

open Basis

/-- The effective address of a store and the value of its source register. -/
def storeOf (instruction : Word) (s : State) : Option (Word × Word) :=
  match Op.decode instruction with
  | .st => some (pcRelative instruction s, s.registers (destOf instruction))
  | .sti => some (peek (pcRelative instruction s) s, s.registers (destOf instruction))
  | .str => some (baseOffset instruction s, s.registers (destOf instruction))
  | _ => none

/-- History variable: the stores executed so far, newest first. -/
def recordStore (s _t : State) (log : List (Word × Word)) : List (Word × Word) :=
  match fetch s with
  | .ok (w, s₁) => (storeOf w s₁).toList ++ log
  | .error _ => log

/-- The value most recently stored at `a`, or else its initial word. -/
def lastStored (initial : Word → Word) (log : List (Word × Word)) (a : Word) : Word :=
  (log.lookup a).getD (initial a)

/-- Every cell holds what was last stored there. -/
def Coherent (initial : Word → Word) (p : State × List (Word × Word)) : Prop :=
  ∀ (a : Word) (h : a.toNat < uint16Max), p.1.memory ⟨a.toNat, h⟩ = lastStored initial p.2 a

theorem lastStored_cons_self (initial : Word → Word) (log : List (Word × Word)) (a v : Word) :
    lastStored initial ((a, v) :: log) a = v := by
  simp [lastStored]

theorem lastStored_cons_of_ne (initial : Word → Word) (log : List (Word × Word)) {a b : Word}
    (v : Word) (h : b ≠ a) :
    lastStored initial ((a, v) :: log) b = lastStored initial log b := by
  have hbeq : (b == a) = false := beq_eq_false_iff_ne.2 h
  simp [lastStored, List.lookup_cons, hbeq]

/-! ## One step -/

/-- The three stores commit what the instruction set says, and nothing else stores. -/
theorem plan_store {w : Word} {s t : State} {e : Effect} (h : plan w s = .ok (e, t)) :
    e.store = storeOf w s := by
  have hfits := (plan_fits h).store
  unfold storeOf
  cases hop : Op.decode w
  case st =>
    simp only [plan, hop, Except.ok.injEq, Prod.mk.injEq] at h
    rw [← h.1]
  case str =>
    simp only [plan, hop, Except.ok.injEq, Prod.mk.injEq] at h
    rw [← h.1]
  case sti =>
    simp only [plan, hop, map_eq_ok, Prod.exists, Prod.mk.injEq] at h
    obtain ⟨pointer, u, hread, rfl, -⟩ := h
    rw [peek_eq hread]
  all_goals simpa [hop, Op.stores] using hfits

/-- **Step lemma.** A step keeps memory coherent with the log of stores. -/
theorem coherent_step {initial : Word → Word} {p q : State × List (Word × Word)}
    (hcoh : Coherent initial p) (hstep : withHistory emulateStep recordStore p = .ok q) :
    Coherent initial q := by
  obtain ⟨hrun, hlog⟩ := withHistory_eq_ok.1 hstep
  obtain ⟨-, w, hexec⟩ := emulateStep_eq_ok.1 hrun
  obtain ⟨s₁, e, s₂, hfetch, hplan, hread₁, hread₂, hfits, hcommit⟩ := hexec.cases
  have htrip := trip_of_commits hread₁ hread₂ hfits hcommit
  have hlog : q.2 = e.store.toList ++ p.2 := by
    rw [hlog, recordStore, hfetch, plan_store hplan]
  intro b hb
  rw [hlog, htrip.memory, Effect.memory]
  cases hstore : e.store with
  | none => exact hcoh b hb
  | some d =>
      obtain ⟨a, v⟩ := d
      have ha := hcommit.inBounds a v hstore
      simp only [Option.toList_some, List.singleton_append, dif_pos ha]
      -- the cell just written, or one that keeps its older entry in the log
      by_cases hba : b = a
      · subst hba
        rw [lastStored_cons_self, Function.update_self]
      · have hne : (⟨b.toNat, hb⟩ : Fin uint16Max) ≠ ⟨a.toNat, ha⟩ := fun heq =>
          hba (BitVec.eq_of_toNat_eq (Fin.mk.inj heq))
        rw [lastStored_cons_of_ne _ _ _ hba, Function.update_of_ne hne]
        exact hcoh b hb

/-! ## Whole runs -/

/-- What is read from an ordinary cell of a coherent memory. -/
theorem Coherent.read {initial : Word → Word} {p : State × List (Word × Word)}
    (hcoh : Coherent initial p) {u u' : State} {a v : Word} (hmem : u.memory = p.1.memory)
    (hread : memoryRead a u = .ok (v, u')) (hdev : ¬ IsDevice a) :
    v = lastStored initial p.2 a := by
  have hlt := lt_uint16Max_iff.2 (ne_top_of_memoryRead hread)
  rw [memoryRead_cell u hdev hlt, Except.ok.injEq, Prod.mk.injEq] at hread
  rw [← hcoh a hlt, ← hread.1, hmem]

/-- For every image, every input and every run of `emulate` of any length, with the log of its
    stores: in the state reached, - every call of `memoryRead` on an ordinary address returns the
    value most recently stored there, or else the word `readImageFile` left there; - so did every
    word the next iteration reads, as its instruction, as a pointer or as data; - what a call of
    `memoryRead` on a device register returns and does is the same for every contents of `memory`,
    whatever the program stored there. -/
theorem coherence {bytes : List Byte} {origin : Word} {stdin : Input Byte} {s₀ s : State}
    {log : List (Word × Word)} {n : ℕ} (hboot : boot (some bytes) origin stdin = .ok s₀)
    (hrun : steps (withHistory emulateStep recordStore) n (s₀, []) = .ok (s, log)) :
    (∀ u u' a v, u.memory = s.memory → memoryRead a u = .ok (v, u') → ¬ IsDevice a →
      v = lastStored (fun a => imageWord bytes origin 0 a.toNat) log a) ∧
    (∀ t, emulateStep s = .ok t → ∀ a v, Event.read a v ∈ newEvents s t → ¬ IsDevice a →
      v = lastStored (fun a => imageWord bytes origin 0 a.toNat) log a) ∧
    (∀ u a m, IsDevice a → memoryRead a { u with memory := m }
      = (memoryRead a u).map fun (v, u') => (v, { u' with memory := m })) := by
  obtain ⟨loaded, hload, rfl⟩ := map_eq_ok.1 hboot
  have hstart : Coherent (fun a => imageWord bytes origin 0 a.toNat) (emulateStart loaded, []) :=
    fun a h => readImageFile_memory hload ⟨a.toNat, h⟩
  have hcoh : Coherent (fun a => imageWord bytes origin 0 a.toNat) (s, log) :=
    steps_invariant _ (fun _ _ => coherent_step) hstart hrun
  refine ⟨fun u u' a v hmem hread hdev => hcoh.read hmem hread hdev, ?_,
    fun u a m hdev => memoryRead_device u m hdev⟩
  intro t hstep a v hmem hdev
  obtain ⟨-, w, hexec⟩ := emulateStep_eq_ok.1 hstep
  obtain ⟨hlt, rfl⟩ := hexec.cells hmem hdev
  exact hcoh a hlt

/-- Coherence on `ST R0, #2` at `0x3000`, which stores 0 over its third successor, and `LD R1, #1`,
    which reads it back. -/
theorem coherence_st_ld :
    ∃ s₀ s t log, boot (some (imageFile 0x3000 [0x3002, 0x2201, 0xF025, 0x1234])) 0 noInput
        = .ok s₀ ∧
      steps (withHistory emulateStep recordStore) 1 (s₀, []) = .ok (s, log) ∧
      emulateStep s = .ok t ∧ Event.read 0x3003 0 ∈ newEvents s t ∧
      (0 : Word) = lastStored (fun a =>
        imageWord (imageFile 0x3000 [0x3002, 0x2201, 0xF025, 0x1234]) 0 0 a.toNat) log 0x3003 := by
  have hrun : ∃ s₀ s t log,
      boot (some (imageFile 0x3000 [0x3002, 0x2201, 0xF025, 0x1234])) 0 noInput = .ok s₀ ∧
      steps (withHistory emulateStep recordStore) 1 (s₀, []) = .ok (s, log) ∧
      emulateStep s = .ok t ∧ Event.read 0x3003 0 ∈ newEvents s t :=
    ⟨_, _, _, _, rfl, rfl, rfl, by decide⟩
  obtain ⟨s₀, s, t, log, hboot, hstep, hnext, hread⟩ := hrun
  exact ⟨s₀, s, t, log, hboot, hstep, hnext, hread,
    (coherence hboot hstep).2.1 t hnext 0x3003 0 hread (by decide)⟩

end Yavm.Lc3
