import Yavm.Lc3.Frame
import Yavm.Lc3.Linkage
import Yavm.Lc3.Strings

set_option autoImplicit false

/-! # Iterations that are not made

`Trouble` lists what keeps an iteration from being made: an address that `memory` does not have, a
key that is never typed, a string that never ends. `emulateStep_eq_error_iff` shows that there is
nothing else. -/

namespace Yavm.Lc3

open Basis

/-- Why the next iteration is not made. -/
inductive Trouble (s : State) : Stop → Prop
  /-- The instruction is at `0xFFFF`, or touches data there. -/
  | top (h : ¬ BelowTop s) : Trouble s (.index 65535)
  /-- A trap waits for a key: none is pending, and the input stays open. -/
  | key {w : Word} {s₁ : State} (hfetch : fetch s = .ok (w, s₁)) (hkey : readsKey w)
      (hnone : s.stdin.pending = [] ∧ s.stdin.closed = false) : Trouble s .blocked
  /-- A trap prints a string that does not end in `memory`. -/
  | string {w : Word} {s₁ : State} (hfetch : fetch s = .ok (w, s₁))
      (htrap : trapOf w = some .puts ∨ trapOf w = some .putsp) (hnone : ¬ Terminated s) :
      Trouble s (.pointer uint16Max)

/-- The first phase forms no other index outside `memory` than `0xFFFF`. -/
theorem plan_index {w : Word} {s : State} {i : ℕ} (h : plan w s = .error (.index i)) :
    i = 65535 := by
  have hindex : ∀ {a : Word} {s : State}, memoryRead a s = .error (.index i) → i = 65535 :=
    fun hread => Stop.index.inj (memoryRead_eq_error.1 hread).2
  unfold plan at h
  cases hop : Op.decode w
  all_goals rw [hop] at h
  case ld | ldr | sti => exact hindex (map_eq_error.1 h)
  case ldi =>
    rcases bind_eq_error.1 h with hread | ⟨p, -, hread⟩
    · exact hindex hread
    · exact hindex (map_eq_error.1 hread)
  case trap => rcases planTrap_eq_error h with ⟨hx, -⟩ | ⟨hx, -⟩ <;> simp at hx
  all_goals simp at h

theorem emulateStep_index {s : State} {i : ℕ} (h : emulateStep s = .error (.index i)) :
    i = 65535 := by
  unfold emulateStep at h
  split at h
  · rcases bind_eq_error.1 h with hfetch | ⟨⟨w, s₁⟩, -, hdispatch⟩
    · exact Stop.index.inj (memoryRead_eq_error.1 hfetch).2
    · have hdispatch : dispatch w s₁ = .error (.index i) := hdispatch
      rw [dispatch_eq_plan] at hdispatch
      rcases bind_eq_error.1 hdispatch with hplan | ⟨p, -, hcommit⟩
      · exact plan_index hplan
      · obtain ⟨v, -, heq⟩ := Effect.commit_eq_error.1 hcommit
        exact Stop.index.inj heq
  · simp at h

/-- The key is looked for in the input the machine has. -/
theorem readsKey.stdin {s s₁ : State} {w : Word} (hkey : readsKey w)
    (hfetch : fetch s = .ok (w, s₁)) : s₁.stdin = s.stdin := by
  refine fetch_stdin hfetch ?_
  obtain ⟨hop, hcode | hcode⟩ := hkey
  · simp [hop, hcode]
  · simp [hop, hcode]

/-- A trap that reads a key waits for ever exactly when there is none. -/
theorem dispatch_blocked_iff {w : Word} {s : State} (hkey : readsKey w) :
    dispatch w s = .error .blocked ↔ s.stdin.getchar = none := by
  obtain ⟨hop, hcode⟩ := hkey
  rw [dispatch, hop]
  simp only [trap]
  cases hget : s.stdin.getchar with
  | none =>
      rcases hcode with hcode | hcode
      · simp [hcode, trapGetc, getchar, hget, bind, Except.bind]
      · simp [hcode, trapIn, State.print, getchar, hget, bind, Except.bind]
  | some p =>
      rcases hcode with hcode | hcode
      · simp [hcode, trapGetc, getchar, hget, bind, Except.bind, pure, Except.pure]
      · simp [hcode, trapIn, State.print, getchar, hget, bind, Except.bind, pure, Except.pure]

/-- A trap that prints a string leaves `memory` exactly when the string does not end. -/
theorem dispatch_pointer_iff {w : Word} {s : State}
    (htrap : trapOf w = some .puts ∨ trapOf w = some .putsp) :
    dispatch w s = .error (.pointer uint16Max) ↔ ¬ Terminated s := by
  have hprints : ∃ bytesOf, dispatch w s
      = (stringLoop bytesOf s.memory (uint16Max - (s.registers .r0).toNat)).map s.print := by
    rcases htrap with htrap | htrap
    all_goals
      obtain ⟨hdispatch, hcode⟩ := dispatch_trap htrap s
      rw [hdispatch, trap, hcode]
      exact ⟨_, rfl⟩
  obtain ⟨bytesOf, hdispatch⟩ := hprints
  rw [hdispatch, ← trap_ends_iff bytesOf s]
  cases hloop : stringLoop bytesOf s.memory (uint16Max - (s.registers .r0).toNat) with
  | ok out => simp [Except.map]
  | error x =>
      obtain rfl := stringLoop_eq_error hloop
      simp [Except.map]

theorem Terminated.congr {s s₁ : State} (hfetched : Fetched s s₁) :
    Terminated s₁ ↔ Terminated s := by
  have hr0 : s₁.registers .r0 = s.registers .r0 := hfetched.general (by decide)
  have hmem : s₁.memory = s.memory := hfetched.memory
  rw [Terminated, Terminated, hr0, hmem]

/-- For every running machine: its next iteration is not made for this reason if and only if the
    reason is in the list. -/
theorem emulateStep_eq_error_iff {s : State} (hrun : s.running = true) (e : Stop) :
    emulateStep s = .error e ↔ Trouble s e := by
  constructor
  · intro hstep
    by_cases hbelow : BelowTop s
    · obtain ⟨w, s₁, hfetch⟩ := memoryRead_total (s.setReg .pc (s.registers .pc + 1)) hbelow.1
      have hfetch : fetch s = .ok (w, s₁) := hfetch
      rw [emulateStep_of_fetch hrun hfetch] at hstep
      rcases dispatch_eq_error hstep with ⟨i, rfl⟩ | ⟨rfl, hkey⟩ | ⟨rfl, htrap⟩
      · exact absurd ((dispatch_index_iff w s₁).1 ⟨i, hstep⟩) (hbelow.2 w s₁ hfetch)
      · have hstdin := hkey.stdin hfetch
        rw [dispatch_blocked_iff hkey, hstdin, Input.getchar_eq_none_iff] at hstep
        exact .key hfetch hkey hstep
      · rw [dispatch_pointer_iff htrap, Terminated.congr (fetch_fetched hfetch)] at hstep
        exact .string hfetch htrap hstep
    · obtain ⟨i, hi⟩ := (emulateStep_index_iff hrun).2 hbelow
      obtain rfl := Except.error.inj (hi.symm.trans hstep)
      obtain rfl := emulateStep_index hi
      exact .top hbelow
  · intro htrouble
    cases htrouble with
    | top h =>
        obtain ⟨i, hi⟩ := (emulateStep_index_iff hrun).2 h
        rw [hi, emulateStep_index hi]
    | key hfetch hkey hnone =>
        rw [emulateStep_of_fetch hrun hfetch, dispatch_blocked_iff hkey, hkey.stdin hfetch,
          Input.getchar_eq_none_iff]
        exact hnone
    | string hfetch htrap hnone =>
        rw [emulateStep_of_fetch hrun hfetch, dispatch_pointer_iff htrap,
          Terminated.congr (fetch_fetched hfetch)]
        exact hnone

theorem Trouble.ne_halted {s : State} {e : Stop} (h : Trouble s e) : e ≠ .halted := by
  cases h <;> simp

/-- The trap that waits for a key. -/
theorem Trouble.waits {s : State} (h : Trouble s .blocked) :
    ∃ w s₁, fetch s = .ok (w, s₁) ∧ readsKey w ∧ s₁.stdin.getchar = none := by
  cases h with
  | key hfetch hkey hnone =>
      refine ⟨_, _, hfetch, hkey, ?_⟩
      rw [hkey.stdin hfetch, Input.getchar_eq_none_iff]
      exact hnone

end Yavm.Lc3
