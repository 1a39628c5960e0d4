import Yavm.Lc3.Endings

set_option autoImplicit false

/-! # Where `main` does not go on

The other half of `main_ends_iff`: which moves a process does not answer, and why (`Stuck`), and
after which moves it waits for a key that is never typed. A process that waits is not stuck, as
`SIGINT` ends it. -/

namespace Yavm.Lc3

open Basis

/-- After which moves a process on a path does not go on, and why. -/
inductive Stuck (launch : Launch) : List Move → Stop → Prop
  /-- There is no process any more. -/
  | ended {past rest : List Move} {move : Move} {how : Ending} (h : Ends launch past how) :
      Stuck launch (past ++ move :: rest) .halted
  /-- Iteration `n + 1` has no defined behaviour, and `SIGINT` does not come before that. -/
  | trouble {s₀ s : State} {n : ℕ} {e : Stop} {rest : List Move}
      (hboot : boot launch.file launch.origin launch.stdin = .ok s₀)
      (hrun : steps emulateStep n s₀ = .ok s) (hrunning : s.running = true) (h : Trouble s e)
      (hkey : e ≠ .blocked) :
      Stuck launch (List.replicate (n + 4) .call ++ .call :: rest) e

/-- A move that is not answered: the process has ended, or is in an iteration that is not made. -/
theorem Process.react_eq_error {launch : Launch} {move : Move} {p : Process} {e : Stop}
    (h : p.react launch move = .error e) :
    (e = .halted ∧ ∃ how, p.phase = .ended how) ∨
      (e ≠ .halted ∧ e ≠ .blocked ∧ move = .call ∧ ∃ s, p.phase = .emulate s ∧
        emulateStep s = .error e) := by
  cases hphase : p.phase with
  | usage | signal | tcgetattr | tcsetattr | waiting s =>
      cases move <;> simp [react, call, interrupt, hphase] at h
  | readImageFile =>
      cases move with
      | sigint k => simp [react, interrupt, hphase] at h
      | call =>
          cases hfile : launch.file with
          | none => simp [react, call, hphase, hfile, readImageFile] at h
          | some bytes =>
              obtain ⟨m, hm⟩ := readImageFile_ok bytes launch.origin (initialState launch.stdin)
              simp [react, call, hphase, hfile, hm] at h
  | emulate s =>
      right
      cases move with
      | sigint k => simp [react, interrupt, hphase] at h
      | call =>
          simp only [react, call, hphase] at h
          split at h
          · simp at h
          · simp at h
          · simp at h
          · next x hhalted hblocked hstep =>
              obtain rfl := Except.error.inj h
              exact ⟨hhalted, hblocked, rfl, s, rfl, hstep⟩
  | ended how =>
      left
      rw [Process.react_ended hphase] at h
      exact ⟨(Except.error.inj h).symm, how, rfl⟩

theorem stuck_of_play {launch : Launch} {terminal : Termios} {moves : List Move} {e : Stop}
    (h : play (Process.react launch) moves (.start terminal) = .error e) :
    Stuck launch moves e := by
  obtain ⟨past, move, rest, p, rfl, hp, hreact⟩ := play_eq_error.1 h
  have hafter := Process.after_of_play hp
  rcases Process.react_eq_error hreact with
    ⟨rfl, how, hended⟩ | ⟨hhalted, hblocked, rfl, s, hphase, hstep⟩
  · simp only [Process.After, hended] at hafter
    exact .ended hafter
  · simp only [Process.After, hphase] at hafter
    obtain ⟨-, s₀, n, hboot, hrun, rfl⟩ := hafter
    have hrunning := running_of_error hstep hhalted
    exact .trouble hboot hrun hrunning ((emulateStep_eq_error_iff hrunning e).1 hstep) hblocked

theorem play_of_stuck {launch : Launch} (terminal : Termios) {moves : List Move} {e : Stop}
    (h : Stuck launch moves e) :
    play (Process.react launch) moves (.start terminal) = .error e := by
  refine play_eq_error.2 ?_
  cases h with
  | @ended past rest move how h =>
      obtain ⟨p, hp, hended⟩ := play_of_ends terminal h
      exact ⟨past, move, rest, p, rfl, hp, Process.react_ended hended move⟩
  | @trouble s₀ s n _ rest hboot hrun hrunning h hkey =>
      obtain ⟨p, hp, hphase, -⟩ := play_emulate terminal hboot hrun
      refine ⟨_, .call, rest, p, rfl, hp, ?_⟩
      have hstep := (emulateStep_eq_error_iff hrunning e).2 h
      have hne := h.ne_halted
      simp only [Process.react, Process.call, hphase, hstep]

/-- Without a path, the second move is not answered. -/
theorem usage_stuck_iff (launch : Launch) (terminal : Termios) (moves : List Move) (e : Stop) :
    play (Process.react launch) moves { Process.start terminal with phase := .usage } = .error e ↔
      2 ≤ moves.length ∧ e = .halted := by
  cases moves with
  | nil => simp [play]
  | cons move rest =>
      obtain ⟨q, hq, how, hended⟩ := usage_react launch terminal move
      rw [play, hq]
      change play (Process.react launch) rest q = .error e ↔ _
      cases rest with
      | nil => simp [play]
      | cons second rest =>
          rw [play, Process.react_ended hended]
          simp [bind, Except.bind, eq_comm]

/-- For every command line, image file, input, terminal and sequence of calls and signals: the
    process does not go on, for this reason, if and only if the reason is in the list; and it waits
    for a key if and only if it is in a trap that reads one, none is pending and the input stays
    open. -/
theorem main_stuck_iff (argc : ℕ) (launch : Launch) (terminal : Termios) (moves : List Move) :
    (∀ e, play (Process.react launch) moves (.main argc terminal) = .error e ↔
        if argc < 2 then 2 ≤ moves.length ∧ e = .halted else Stuck launch moves e) ∧
      ∀ s, (∃ p, play (Process.react launch) moves (.main argc terminal) = .ok p ∧
          p.phase = .waiting s) ↔
        2 ≤ argc ∧ Waits launch moves s := by
  by_cases hargc : argc < 2
  · refine ⟨fun e => ?_, fun s => iff_of_false ?_ (by omega)⟩
    · rw [if_pos hargc, Process.main, if_pos hargc]
      exact usage_stuck_iff launch terminal moves e
    · rw [Process.main, if_pos hargc]
      rintro ⟨p, hp, hphase⟩
      cases moves with
      | nil =>
          obtain rfl := Except.ok.inj hp
          simp at hphase
      | cons move rest =>
          obtain ⟨q, hq, hrest⟩ := play_cons_ok.1 hp
          obtain ⟨q', hq', how, hended⟩ := usage_react launch terminal move
          obtain rfl := Except.ok.inj (hq'.symm.trans hq)
          obtain ⟨-, rfl⟩ := play_ended hended hrest
          simp [hended] at hphase
  · refine ⟨fun e => ?_, fun s => ?_⟩
    · rw [if_neg hargc, Process.main, if_neg hargc]
      exact ⟨stuck_of_play, play_of_stuck terminal⟩
    · rw [Process.main, if_neg hargc, and_iff_right (Nat.not_lt.1 hargc)]
      constructor
      · rintro ⟨p, hp, hphase⟩
        have hafter := Process.after_of_play hp
        simp only [Process.After, hphase] at hafter
        exact hafter.2
      · intro hwaits
        obtain ⟨p, hp, hphase, -⟩ := play_of_waits terminal hwaits
        exact ⟨p, hp, hphase⟩

end Yavm.Lc3
