import Yavm.Lc3.Execute

set_option autoImplicit false

/-! # The bounds of `memory`

`memory` is declared with `UINT16_MAX` elements, one short of the address space. The addresses an
instruction touches are computed modulo 2¹⁶ and reach every 16-bit value, so the array is left at
exactly one address: `emulateStep_index_iff` says which states step outside it, and
`inBounds_iff` that a whole run stays inside exactly when no fetch and no effective address of the
instruction set is `0xFFFF`. -/

namespace Yavm.Lc3

open Basis

/-- The word a read of `a` returns. -/
def peek (a : Word) (s : State) : Word :=
  match memoryRead a s with
  | .ok (v, _) => v
  | .error _ => 0

theorem peek_eq {a v : Word} {s t : State} (h : memoryRead a s = .ok (v, t)) : peek a s = v := by
  rw [peek, h]

/-- The word a read through the pointer at `a` returns. -/
def peekIndirect (a : Word) (s : State) : Word :=
  match memoryRead a s with
  | .ok (pointer, s) => peek pointer s
  | .error _ => 0

theorem peekIndirect_eq {a p v : Word} {s t u : State} (h : memoryRead a s = .ok (p, t))
    (h' : memoryRead p t = .ok (v, u)) : peekIndirect a s = v := by
  rw [peekIndirect, h]
  exact peek_eq h'

/-- The addresses an instruction reads or writes after its fetch, as the instruction set defines
    them. -/
def effectiveAddresses (instruction : Word) (s : State) : List Word :=
  match Op.decode instruction with
  | .ld | .st => [pcRelative instruction s]
  | .ldi | .sti => [pcRelative instruction s, peek (pcRelative instruction s) s]
  | .ldr | .str => [baseOffset instruction s]
  | _ => []

/-- The next instruction is not at `0xFFFF` and touches no data there. -/
def BelowTop (s : State) : Prop :=
  s.registers .pc ≠ 0xFFFF ∧
    ∀ w s₁, fetch s = .ok (w, s₁) → 0xFFFF ∉ effectiveAddresses w s₁

/-- No iteration of the run from `s` forms an index outside `memory`. -/
def InBounds (s : State) : Prop :=
  ∀ n i, steps emulateStep n s ≠ .error (.index i)

/-! ## Which instructions leave the array -/

theorem Effect.commit_eq_error {e : Effect} {s : State} {x : Stop} :
    e.commit s = .error x ↔ ∃ v, e.store = some (0xFFFF, v) ∧ x = .index 65535 := by
  unfold commit
  cases hstore : e.store with
  | none => simp
  | some p =>
      obtain ⟨a, v⟩ := p
      simp only [memoryWrite_eq_error, Option.some.injEq, Prod.mk.injEq]
      constructor
      · intro h
        obtain ⟨rfl, rfl⟩ := h
        exact ⟨v, ⟨rfl, rfl⟩, rfl⟩
      · intro h
        obtain ⟨_, ⟨rfl, -⟩, rfl⟩ := h
        exact ⟨rfl, rfl⟩

theorem getchar_eq_error {s : State} {x : Stop} (h : getchar s = .error x) : x = .blocked := by
  unfold getchar at h
  split at h
  · exact (Except.error.inj h).symm
  · simp at h

theorem stringLoop_eq_error {bytesOf : Word → List Byte} {m : Memory} {left : ℕ} {x : Stop}
    (h : stringLoop bytesOf m left = .error x) : x = .pointer uint16Max := by
  induction left with
  | zero => exact (Except.error.inj h).symm
  | succ left ih =>
      rw [stringLoop] at h
      split at h
      · simp at h
      · exact ih (map_eq_error.1 h)

/-- A trap stops the machine only by waiting for a key, or in the string loops. -/
theorem planTrap_eq_error {w : Word} {s : State} {x : Stop} (h : planTrap w s = .error x) :
    (x = .blocked ∧ (TrapCode.decode w = some .getc ∨ TrapCode.decode w = some .in)) ∨
      (x = .pointer uint16Max ∧
        (TrapCode.decode w = some .puts ∨ TrapCode.decode w = some .putsp)) := by
  unfold planTrap at h
  cases hcode : TrapCode.decode w with
  | none => simp [hcode] at h
  | some code =>
      rw [hcode] at h
      cases code
      case getc => exact Or.inl ⟨getchar_eq_error (map_eq_error.1 h), Or.inl rfl⟩
      case «in» => exact Or.inl ⟨getchar_eq_error (map_eq_error.1 h), Or.inr rfl⟩
      case puts => exact Or.inr ⟨stringLoop_eq_error (map_eq_error.1 h), Or.inl rfl⟩
      case putsp => exact Or.inr ⟨stringLoop_eq_error (map_eq_error.1 h), Or.inr rfl⟩
      case out | halt => simp at h

/-- A loaded value is committed to a register, which cannot fail: only the read can. -/
theorem load_index_iff (a : Word) (s : State) (f : Word → Effect) (hf : ∀ v, (f v).store = none) :
    (∃ i, ((memoryRead a s).map fun (v, t) => (f v, t)) >>= (fun (e, t) => e.commit t)
      = Except.error (Stop.index i)) ↔ a = 0xFFFF := by
  cases hread : memoryRead a s with
  | error x =>
      obtain ⟨htop, rfl⟩ := memoryRead_eq_error.1 hread
      exact iff_of_true ⟨65535, rfl⟩ htop
  | ok p =>
      refine iff_of_false ?_ (ne_top_of_memoryRead hread)
      intro h
      obtain ⟨i, hi⟩ := h
      obtain ⟨v, hv, -⟩ := Effect.commit_eq_error.1 hi
      simp [hf] at hv

theorem store_index_iff (a v : Word) (s : State) :
    (∃ i, Effect.commit { store := some (a, v) } s = .error (.index i)) ↔ a = 0xFFFF := by
  constructor
  · intro h
    obtain ⟨i, hi⟩ := h
    obtain ⟨_, hstore, -⟩ := Effect.commit_eq_error.1 hi
    exact (Prod.mk.inj (Option.some.inj hstore)).1
  · rintro rfl
    exact ⟨65535, Effect.commit_eq_error.2 ⟨v, rfl, rfl⟩⟩

/-- One case per opcode: an instruction forms an index outside the array exactly when one of its
    effective addresses is `0xFFFF`. -/
theorem dispatch_index_iff (w : Word) (s : State) :
    (∃ i, dispatch w s = .error (.index i)) ↔ 0xFFFF ∈ effectiveAddresses w s := by
  have hmem : ∀ a : Word, 0xFFFF ∈ [a] ↔ a = 0xFFFF := fun a => by
    rw [List.mem_singleton, eq_comm]
  have hmem₂ : ∀ a b : Word, 0xFFFF ∈ [a, b] ↔ a = 0xFFFF ∨ b = 0xFFFF := fun a b => by
    rw [List.mem_cons, hmem, eq_comm]
  rw [dispatch_eq_plan]
  unfold plan effectiveAddresses
  cases hop : Op.decode w
  case trap =>
    -- the string loops leave the array through a pointer, which is another `Stop`
    simp only [bind_eq_error, Prod.exists, List.not_mem_nil, iff_false, not_exists, not_or]
    refine fun i => ⟨fun h => ?_, fun e t h => ?_⟩
    · rcases planTrap_eq_error h with ⟨h, -⟩ | ⟨h, -⟩ <;> simp at h
    · have hstore := (planTrap_fits hop h.1).store
      obtain ⟨v, hv, -⟩ := Effect.commit_eq_error.1 h.2
      simp [hop, hv, Op.stores] at hstore
  case br =>
    simp only [bind_eq_error, Effect.commit_eq_error, brEffect]
    split <;> simp
  case ld | ldr => exact (load_index_iff _ s _ fun _ => rfl).trans (hmem _).symm
  case st | str => exact (store_index_iff _ _ s).trans (hmem _).symm
  case ldi =>
    rw [hmem₂]
    cases hread : memoryRead (pcRelative w s) s with
    | error x =>
        obtain ⟨htop, rfl⟩ := memoryRead_eq_error.1 hread
        exact iff_of_true ⟨65535, rfl⟩ (Or.inl htop)
    | ok p =>
        -- the pointer was read inside the array, and is itself the second address
        rw [peek_eq hread, or_iff_right (ne_top_of_memoryRead hread)]
        exact load_index_iff p.1 p.2 (fun v => { dest := some (destOf w, v) }) fun _ => rfl
  case sti =>
    rw [hmem₂]
    cases hread : memoryRead (pcRelative w s) s with
    | error x =>
        obtain ⟨htop, rfl⟩ := memoryRead_eq_error.1 hread
        exact iff_of_true ⟨65535, rfl⟩ (Or.inl htop)
    | ok p =>
        rw [peek_eq hread, or_iff_right (ne_top_of_memoryRead hread)]
        exact store_index_iff p.1 (s.registers (destOf w)) p.2
  all_goals simp [bind_eq_error, Effect.commit_eq_error, Effect.result, jsrEffect]

/-! ## Runs -/

/-- A trip round the loop leaves the array exactly when its fetch or one of its effective addresses
    is `0xFFFF`. -/
theorem emulateStep_index_iff {s : State} (hrun : s.running = true) :
    (∃ i, emulateStep s = .error (.index i)) ↔ ¬ BelowTop s := by
  rw [emulateStep, if_pos hrun, BelowTop]
  cases hfetch : fetch s with
  | error x =>
      obtain ⟨htop, rfl⟩ := memoryRead_eq_error.1 hfetch
      refine iff_of_true ⟨65535, ?_⟩ fun h => h.1 htop
      rw [iteration, hfetch]
      rfl
  | ok p =>
      obtain ⟨w, s₁⟩ := p
      have hpc : s.registers .pc ≠ 0xFFFF := ne_top_of_memoryRead hfetch
      rw [← hfetch, forall_ok hfetch, ← dispatch_index_iff, iteration, hfetch,
        and_iff_right hpc, not_not]
      rfl

/-- In every run of `emulate`, from any state, every index that `memoryRead` and `memoryWrite` form
    is below the number of elements of `memory` if and only if no instruction is fetched from
    `0xFFFF` and none has `0xFFFF` among its effective addresses. -/
theorem inBounds_iff (s₀ : State) :
    InBounds s₀ ↔
      ∀ n s, steps emulateStep n s₀ = .ok s → s.running = true → BelowTop s := by
  constructor
  · intro h n s hs hrun
    by_contra hnot
    obtain ⟨i, hi⟩ := (emulateStep_index_iff hrun).2 hnot
    exact h (n + 1) i (steps_eq_error.2 ⟨n, Nat.lt_succ_self n, s, hs, hi⟩)
  · intro h n i hfail
    obtain ⟨k, -, s, hs, hi⟩ := steps_eq_error.1 hfail
    have hrun : s.running = true := by
      by_contra hstop
      simp [emulateStep, hstop] at hi
    exact (emulateStep_index_iff hrun).1 ⟨i, hi⟩ (h k s hs hrun)

/-- `LDR R0, R1, #-1` as the first instruction, with `R1` still zero, reads `0xFFFF`. -/
theorem inBounds_broken_by_ldr : ∃ s₀, Booted s₀ ∧ ¬ InBounds s₀ :=
  ⟨_, ⟨some (imageFile 0x3000 [0x607F]), 0, noInput, rfl⟩, fun h => h 1 65535 rfl⟩

end Yavm.Lc3
