import Yavm.Lc3.Terminal
import Yavm.Lc3.Trouble

set_option autoImplicit false

/-! # How `main` ends

`Ends` lists every way in which the process can end, each with the moves it takes and with what has
been printed: the message for a path that cannot be opened, `SIGINT` before and after the handler is
installed, before an iteration, inside it and while it waits for a key, and `HALT`. `main_ends_iff`
shows that there are no others. A return from `main` is always due to a `HALT` that the program
executed, and a run that goes on for ever or leaves `memory` has no ending. -/

namespace Yavm.Lc3

open Basis

/-- `main` when it starts. -/
def Process.main (argc : ℕ) (terminal : Termios) : Process :=
  if argc < 2 then { Process.start terminal with phase := .usage } else .start terminal

/-- After which moves `main`, given a path, waits in the iteration from `s` for a key that is never
    typed. -/
def Waits (launch : Launch) (moves : List Move) (s : State) : Prop :=
  ∃ s₀ n m, boot launch.file launch.origin launch.stdin = .ok s₀ ∧ steps emulateStep n s₀ = .ok s ∧
    s.running = true ∧ Trouble s .blocked ∧ moves = List.replicate (n + 5 + m) .call

/-- After which moves `main`, given a path, ends, and how. -/
inductive Ends (launch : Launch) : List Move → Ending → Prop
  /-- The default action of `SIGINT`. -/
  | killed {k : ℕ} : Ends launch [.sigint k] .killed
  /-- `SIGINT` after `signal` and before the loop of `emulate`. -/
  | early {j k : ℕ} (hj : 1 ≤ j) (hle : j ≤ 3) (hsilent : j = 3 → launch.file = none → k = 0) :
      Ends launch (List.replicate j .call ++ [.sigint k]) (.exit (-2) (ascii "\n"))
  /-- `SIGINT` between the message for a wrong path and `exit`. -/
  | wrongPathCut {k : ℕ} (hfile : launch.file = none) (hk : k ≠ 0) :
      Ends launch (List.replicate 3 .call ++ [.sigint k]) (.exit (-2) (ascii "Wrong path\n"))
  | wrongPath (hfile : launch.file = none) :
      Ends launch (List.replicate 4 .call) (.exit (-1) (ascii "Wrong path"))
  /-- `SIGINT` in the loop, after `n` iterations and `k` calls to stdio in the next one. -/
  | interrupted {s₀ s : State} {n k : ℕ}
      (hboot : boot launch.file launch.origin launch.stdin = .ok s₀)
      (hrun : steps emulateStep n s₀ = .ok s) :
      Ends launch (List.replicate (n + 4) .call ++ [.sigint k])
        (.exit (-2) (s.stdout ++ (s.writes.take k).flatten ++ ascii "\n"))
  /-- `SIGINT` while `GETC` or `IN` waits, which has printed its prompt. -/
  | waiting {past : List Move} {s s₁ : State} {w : Word} {k : ℕ} (hwaits : Waits launch past s)
      (hfetch : fetch s = .ok (w, s₁)) :
      Ends launch (past ++ [.sigint k])
        (.exit (-2) (s.stdout ++ (if trapOf w = some .in then prompt else []) ++ ascii "\n"))
  /-- The `n + 1`st iteration executes a `HALT`, and `main` returns. -/
  | halted {s₀ s t : State} {w : Word} {n : ℕ}
      (hboot : boot launch.file launch.origin launch.stdin = .ok s₀)
      (hrun : steps emulateStep n s₀ = .ok s) (hrunning : s.running = true)
      (hexec : Executes s w t) (hhalt : trapOf w = some .halt) :
      Ends launch (List.replicate (n + 6) .call) (.exit 0 (s.stdout ++ ascii "Halting...\n"))

/-! ## The loop is left by a `HALT` -/

/-- An iteration that executes a `HALT` stops the machine and prints the message. -/
theorem Executes.halt {s t : State} {w : Word} (h : Executes s w t) (hrunning : s.running = true)
    (hhalt : trapOf w = some .halt) :
    t.running = false ∧ t.stdout = s.stdout ++ ascii "Halting...\n" := by
  have hwrites := emulateStep_writes (emulateStep_eq_ok.2 ⟨hrunning, w, h⟩)
  obtain ⟨s₁, hfetch, hdispatch⟩ := h
  rw [writes_of_halt hrunning hfetch hhalt] at hwrites
  obtain ⟨htrap, hcode⟩ := dispatch_trap hhalt s₁
  rw [htrap, trap, hcode] at hdispatch
  obtain rfl := Except.ok.inj hdispatch
  exact ⟨rfl, hwrites.trans (by rw [List.flatten_singleton])⟩

/-- The loop is left only when the machine has stopped. -/
theorem emulateStep_halted {s : State} (h : emulateStep s = .error .halted) :
    s.running = false := by
  by_contra hrunning
  rw [emulateStep, if_pos (by simpa using hrunning), iteration, bind_eq_error] at h
  rcases h with hfetch | ⟨⟨w, s₁⟩, -, hdispatch⟩
  · exact absurd (memoryRead_eq_error.1 hfetch).2 (by simp)
  · rcases dispatch_eq_error hdispatch with ⟨i, hi⟩ | ⟨hblocked, -⟩ | ⟨hpointer, -⟩
    · exact absurd hi (by simp)
    · exact absurd hblocked (by simp)
    · exact absurd hpointer (by simp)

theorem running_of_error {s : State} {e : Stop} (h : emulateStep s = .error e) (he : e ≠ .halted) :
    s.running = true := by
  by_contra hstopped
  rw [emulateStep, if_neg hstopped] at h
  exact he (Except.error.inj h).symm

theorem boot_running {file : Option (List Byte)} {origin : Word} {stdin : Input Byte} {s₀ : State}
    (h : boot file origin stdin = .ok s₀) : s₀.running = true := by
  obtain ⟨s, -, rfl⟩ := map_eq_ok.1 h
  rfl

/-- A machine that has stopped has executed a `HALT` in its last iteration. -/
theorem exists_halt {s₀ t : State} {n : ℕ} (hstart : s₀.running = true)
    (hrun : steps emulateStep n s₀ = .ok t) (hstopped : t.running = false) :
    ∃ k s w, n = k + 1 ∧ steps emulateStep k s₀ = .ok s ∧ s.running = true ∧ Executes s w t ∧
      trapOf w = some .halt := by
  cases n with
  | zero =>
      obtain rfl := Except.ok.inj hrun
      rw [hstart] at hstopped
      simp at hstopped
  | succ k =>
      obtain ⟨s, hs, hstep⟩ := steps_succ_ok.1 hrun
      obtain ⟨hrunning, w, hexec⟩ := emulateStep_eq_ok.1 hstep
      obtain ⟨e, htrip⟩ := hexec.trip
      have hhalt : e.halt = true := by
        have hstop := htrip.running
        rw [hrunning, hstopped] at hstop
        simpa using hstop.symm
      rw [htrip.fits.halt] at hhalt
      exact ⟨k, s, w, rfl, hs, hrunning, hexec, of_decide_eq_true hhalt⟩

/-! ## Waiting for a key -/

theorem Waits.fetches {launch : Launch} {moves : List Move} {s : State} (h : Waits launch moves s) :
    ∃ w s₁, fetch s = .ok (w, s₁) := by
  obtain ⟨s₀, n, m, -, -, -, hkey, -⟩ := h
  obtain ⟨w, s₁, hfetch, -⟩ := hkey.waits
  exact ⟨w, s₁, hfetch⟩

/-- `IN` has printed its prompt when it waits, and `GETC` nothing. -/
theorem Waits.printed {launch : Launch} {moves : List Move} {s s₁ : State} {w : Word}
    (h : Waits launch moves s) (hfetch : fetch s = .ok (w, s₁)) :
    s.writes.flatten = if trapOf w = some .in then prompt else [] := by
  obtain ⟨s₀, n, m, -, -, hrunning, hkey, -⟩ := h
  obtain ⟨w', s₂, hfetch', hreads, hnone⟩ := hkey.waits
  obtain ⟨rfl, rfl⟩ := Prod.mk.inj (Except.ok.inj (hfetch'.symm.trans hfetch))
  rw [writes_of_blocked hrunning hfetch hreads hnone]
  split
  · exact List.append_nil _
  · rfl

/-! ## From the moves to the ending -/

/-- What the moves so far say of the process. -/
def Process.After (launch : Launch) (past : List Move) (p : Process) : Prop :=
  match p.phase with
  | .usage => False
  | .signal => past = [] ∧ p.handler = false
  | .tcgetattr => past = List.replicate 1 .call ∧ p.handler = true
  | .tcsetattr => past = List.replicate 2 .call ∧ p.handler = true
  | .readImageFile => past = List.replicate 3 .call ∧ p.handler = true
  | .emulate s => p.handler = true ∧ ∃ s₀ n,
      boot launch.file launch.origin launch.stdin = .ok s₀ ∧ steps emulateStep n s₀ = .ok s ∧
        past = List.replicate (n + 4) .call
  | .waiting s => p.handler = true ∧ Waits launch past s
  | .ended how => Ends launch past how

theorem replicate_call_succ (n : ℕ) :
    List.replicate n Move.call ++ [.call] = List.replicate (n + 1) .call :=
  List.replicate_succ'.symm

theorem Process.After.call {launch : Launch} {past : List Move} {p q : Process}
    (h : p.After launch past) (hcall : p.call launch = .ok q) :
    q.After launch (past ++ [.call]) := by
  unfold Process.After at h
  cases Process.calls_of_call hcall with
  | usage hphase => simp [hphase] at h
  | signal hphase =>
      simp only [hphase] at h
      obtain ⟨rfl, -⟩ := h
      exact ⟨rfl, rfl⟩
  | tcgetattr hphase | tcsetattr hphase =>
      simp only [hphase] at h
      obtain ⟨rfl, hhandler⟩ := h
      exact ⟨rfl, hhandler⟩
  | wrongPath hphase hfile =>
      simp only [hphase] at h
      obtain ⟨rfl, -⟩ := h
      exact .wrongPath hfile
  | loaded hphase hboot =>
      simp only [hphase] at h
      obtain ⟨rfl, hhandler⟩ := h
      exact ⟨hhandler, _, 0, hboot, rfl, rfl⟩
  | iterated hphase hstep =>
      simp only [hphase] at h
      obtain ⟨hhandler, s₀, n, hboot, hrun, rfl⟩ := h
      exact ⟨hhandler, s₀, n + 1, hboot, steps_succ_ok.2 ⟨_, hrun, hstep⟩, replicate_call_succ _⟩
  | @returned s hphase hstep =>
      simp only [hphase] at h
      obtain ⟨-, s₀, n, hboot, hrun, rfl⟩ := h
      obtain ⟨k, s', w, rfl, hs', hrunning, hexec, hhalt⟩ :=
        exists_halt (boot_running hboot) hrun (emulateStep_halted hstep)
      rw [replicate_call_succ]
      change Ends launch _ (.exit 0 s.stdout)
      rw [(hexec.halt hrunning hhalt).2]
      exact .halted hboot hs' hrunning hexec hhalt
  | blocked hphase hstep =>
      simp only [hphase] at h
      obtain ⟨hhandler, s₀, n, hboot, hrun, rfl⟩ := h
      have hrunning := running_of_error hstep (by simp)
      exact ⟨hhandler, s₀, n, 0, hboot, hrun, hrunning,
        (emulateStep_eq_error_iff hrunning _).1 hstep, replicate_call_succ _⟩
  | waiting hphase =>
      simp only [hphase] at h
      obtain ⟨hhandler, s₀, n, m, hboot, hrun, hrunning, hkey, rfl⟩ := h
      simp only [After, hphase]
      exact ⟨hhandler, s₀, n, m + 1, hboot, hrun, hrunning, hkey, replicate_call_succ _⟩

/-- Once the message for a wrong path has been printed. -/
theorem wrongPath_cut (k : ℕ) :
    ((Phase.readImageFile.writes none).take (k + 1)).flatten ++ ascii "\n"
      = ascii "Wrong path\n" := by
  rw [Phase.writes, List.take_succ_cons, List.take_nil]
  rfl

theorem Process.After.interrupt {launch : Launch} {k : ℕ} {past : List Move} {p q : Process}
    (h : p.After launch past) (hint : p.interrupt launch k = .ok q) :
    q.After launch (past ++ [.sigint k]) := by
  unfold Process.After at h
  unfold Process.interrupt at hint
  cases hphase : p.phase with
  | usage => simp [hphase] at h
  | signal =>
      simp only [hphase, Except.ok.injEq] at h hint
      obtain ⟨rfl, hhandler⟩ := h
      rw [hhandler] at hint
      subst hint
      exact .killed
  | tcgetattr | tcsetattr =>
      simp only [hphase, Except.ok.injEq] at h hint
      obtain ⟨rfl, hhandler⟩ := h
      rw [if_pos hhandler] at hint
      subst hint
      simp only [After, handleInterrupt, Phase.stdout, Phase.writes, List.take_nil,
        List.flatten_nil, List.nil_append]
      exact .early (by decide) (by decide) (by simp)
  | readImageFile =>
      simp only [hphase, Except.ok.injEq] at h hint
      obtain ⟨rfl, hhandler⟩ := h
      rw [if_pos hhandler] at hint
      subst hint
      simp only [After, handleInterrupt, Phase.stdout, List.nil_append]
      cases hfile : launch.file with
      | some bytes =>
          simp only [Phase.writes, List.take_nil, List.flatten_nil, List.nil_append]
          exact .early (by decide) (by decide) (by simp [hfile])
      | none =>
          cases k with
          | zero => exact .early (by decide) (by decide) (fun _ _ => rfl)
          | succ k =>
              rw [wrongPath_cut]
              exact .wrongPathCut hfile (Nat.succ_ne_zero k)
  | emulate s =>
      simp only [hphase, Except.ok.injEq] at h hint
      obtain ⟨hhandler, s₀, n, hboot, hrun, rfl⟩ := h
      rw [if_pos hhandler] at hint
      subst hint
      exact .interrupted hboot hrun
  | waiting s =>
      simp only [hphase, Except.ok.injEq] at h hint
      obtain ⟨hhandler, hwaits⟩ := h
      rw [if_pos hhandler] at hint
      subst hint
      obtain ⟨w, s₁, hfetch⟩ := hwaits.fetches
      simp only [After, handleInterrupt, Phase.stdout, Phase.writes, List.take_nil,
        List.flatten_nil, List.append_nil, hwaits.printed hfetch]
      exact .waiting hwaits hfetch
  | ended how => simp [hphase] at hint

theorem Process.after_of_play {launch : Launch} {terminal : Termios} {moves : List Move}
    {p : Process} (h : play (Process.react launch) moves (.start terminal) = .ok p) :
    p.After launch moves := by
  have hstart : (Process.start terminal).After launch [] := ⟨rfl, rfl⟩
  refine play_invariant (Process.After launch) ?_ hstart h
  intro past move p q hp hreact
  cases move with
  | call => exact hp.call hreact
  | sigint k => exact hp.interrupt hreact

/-! ## From the ending to the moves -/

/-- The calls of `main` up to the loop, and `n` iterations. -/
theorem play_emulate {launch : Launch} (terminal : Termios) {s₀ s : State} {n : ℕ}
    (hboot : boot launch.file launch.origin launch.stdin = .ok s₀)
    (hrun : steps emulateStep n s₀ = .ok s) :
    ∃ p, play (Process.react launch) (List.replicate (n + 4) .call) (.start terminal) = .ok p ∧
      p.phase = .emulate s ∧ p.handler = true := by
  induction n generalizing s with
  | zero =>
      obtain rfl := Except.ok.inj hrun
      obtain ⟨s, hread, rfl⟩ := map_eq_ok.1 hboot
      refine ⟨{ (Process.start terminal).setup with phase := .emulate (emulateStart s) }, ?_, rfl,
        rfl⟩
      have hlast : Process.react launch .call { (Process.start terminal).setup with
          phase := .readImageFile } = .ok { (Process.start terminal).setup with
            phase := .emulate (emulateStart s) } := by
        simp only [Process.react, Process.call, hread]
      exact play_snoc_of_ok (setup_calls launch terminal) hlast
  | succ n ih =>
      obtain ⟨u, hu, hstep⟩ := steps_succ_ok.1 hrun
      obtain ⟨p, hp, hphase, hhandler⟩ := ih hu
      refine ⟨{ p with phase := .emulate s }, ?_, rfl, hhandler⟩
      have hlast : Process.react launch .call p = .ok { p with phase := .emulate s } := by
        simp only [Process.react, Process.call, hphase, hstep]
      rw [Nat.add_right_comm, ← replicate_call_succ]
      exact play_snoc_of_ok hp hlast

/-- The calls of `main` when the machine has stopped after `n` iterations. -/
theorem play_stopped {launch : Launch} (terminal : Termios) {s₀ t : State} {n : ℕ}
    (hboot : boot launch.file launch.origin launch.stdin = .ok s₀)
    (hrun : steps emulateStep n s₀ = .ok t) (hstopped : t.running = false) :
    ∃ p, play (Process.react launch) (List.replicate (n + 5) .call) (.start terminal) = .ok p ∧
      p.phase = .ended (.exit 0 t.stdout) := by
  obtain ⟨p, hp, hphase, -⟩ := play_emulate terminal hboot hrun
  refine ⟨{ p with phase := .ended (.exit 0 t.stdout) }, ?_, rfl⟩
  have hleft : emulateStep t = .error .halted := by
    rw [emulateStep, if_neg (by simp [hstopped])]
  have hlast : Process.react launch .call p
      = .ok { p with phase := .ended (.exit 0 t.stdout) } := by
    simp only [Process.react, Process.call, hphase, hleft]
  have hsnoc := play_snoc_of_ok hp hlast
  rwa [replicate_call_succ] at hsnoc

/-- The calls of `main` when one of the iterations has no defined behaviour. -/
theorem play_stuck {launch : Launch} (terminal : Termios) {s₀ : State} {n : ℕ} {e : Stop}
    (hboot : boot launch.file launch.origin launch.stdin = .ok s₀)
    (hrun : steps emulateStep (n + 1) s₀ = .error e) (hhalted : e ≠ .halted)
    (hblocked : e ≠ .blocked) :
    play (Process.react launch) (List.replicate (n + 5) .call) (.start terminal) = .error e := by
  obtain ⟨k, hk, s, hs, hstep⟩ := steps_eq_error.1 hrun
  obtain ⟨p, hp, hphase, -⟩ := play_emulate terminal hboot hs
  have hlast : Process.react launch .call p = .error e := by
    simp only [Process.react, Process.call, hphase, hstep]
  have hmoves : n + 5 = (k + 4) + ((n - k) + 1) := by omega
  rw [hmoves, List.replicate_add, play_append, hp]
  change (Process.react launch .call p >>= _) = _
  rw [hlast]
  rfl

/-- The calls of `main` when one of the iterations waits. -/
theorem play_of_waits {launch : Launch} (terminal : Termios) {moves : List Move} {s : State}
    (h : Waits launch moves s) :
    ∃ p, play (Process.react launch) moves (.start terminal) = .ok p ∧ p.phase = .waiting s ∧
      p.handler = true := by
  obtain ⟨s₀, n, m, hboot, hrun, hrunning, hkey, rfl⟩ := h
  induction m with
  | zero =>
      obtain ⟨p, hp, hphase, hhandler⟩ := play_emulate terminal hboot hrun
      refine ⟨{ p with phase := .waiting s }, ?_, rfl, hhandler⟩
      have hstep := (emulateStep_eq_error_iff hrunning _).2 hkey
      have hlast : Process.react launch .call p = .ok { p with phase := .waiting s } := by
        simp only [Process.react, Process.call, hphase, hstep]
      rw [Nat.add_zero, ← replicate_call_succ]
      exact play_snoc_of_ok hp hlast
  | succ m ih =>
      obtain ⟨p, hp, hphase, hhandler⟩ := ih
      refine ⟨p, ?_, hphase, hhandler⟩
      have hlast : Process.react launch .call p = .ok p := by
        simp only [Process.react, Process.call, hphase]
      rw [← Nat.add_assoc, ← replicate_call_succ]
      exact play_snoc_of_ok hp hlast

/-- `SIGINT` behind moves after which the handler is installed. -/
theorem play_sigint {launch : Launch} {terminal : Termios} {moves : List Move} {p : Process}
    {phase : Phase} (hp : play (Process.react launch) moves (.start terminal) = .ok p)
    (hhandler : p.handler = true) (hphase : p.phase = phase) (hlive : ∀ how, phase ≠ .ended how)
    (k : ℕ) :
    ∃ q, play (Process.react launch) (moves ++ [.sigint k]) (.start terminal) = .ok q ∧
      q.phase = .ended (.exit (-2)
        (phase.stdout ++ ((phase.writes launch.file).take k).flatten ++ ascii "\n")) := by
  subst hphase
  refine ⟨p.handleInterrupt (p.phase.stdout ++ ((p.phase.writes launch.file).take k).flatten),
    play_snoc_of_ok hp ?_, rfl⟩
  change p.interrupt launch k = _
  unfold Process.interrupt
  split
  · next how hended => exact absurd hended (hlive how)
  · simp only [hhandler, if_true]

theorem play_of_ends {launch : Launch} (terminal : Termios) {moves : List Move} {how : Ending}
    (h : Ends launch moves how) :
    ∃ p, play (Process.react launch) moves (.start terminal) = .ok p ∧ p.phase = .ended how := by
  have hsetup := setup_calls launch terminal
  have hloads : { (Process.start terminal).setup with phase := .readImageFile }.phase
      = Phase.readImageFile := rfl
  cases h with
  | killed => exact ⟨_, rfl, rfl⟩
  | @early j k hj hle hsilent =>
      -- each of the three calls leaves the handler installed
      obtain rfl | rfl | rfl : j = 1 ∨ j = 2 ∨ j = 3 := by omega
      · exact ⟨_, rfl, by simp [Process.handleInterrupt, Phase.stdout, Phase.writes]⟩
      · exact ⟨_, rfl, by simp [Process.handleInterrupt, Phase.stdout, Phase.writes]⟩
      · obtain ⟨q, hq, hended⟩ := play_sigint hsetup rfl hloads (by simp) k
        refine ⟨q, hq, hended.trans ?_⟩
        cases hfile : launch.file with
        | some bytes => simp [Phase.stdout, Phase.writes]
        | none => simp [Phase.stdout, Phase.writes, hsilent rfl hfile]
  | @wrongPathCut k hfile hk =>
      obtain ⟨q, hq, hended⟩ := play_sigint hsetup rfl hloads (by simp) k
      refine ⟨q, hq, hended.trans ?_⟩
      obtain ⟨k, rfl⟩ := Nat.exists_eq_succ_of_ne_zero hk
      rw [hfile, Phase.stdout, List.nil_append, wrongPath_cut]
  | wrongPath hfile =>
      refine ⟨{ (Process.start terminal).setup with
        phase := .ended (.exit (-1) (ascii "Wrong path")) }, ?_, rfl⟩
      have hlast : Process.react launch .call { (Process.start terminal).setup with
          phase := .readImageFile } = .ok { (Process.start terminal).setup with
            phase := .ended (.exit (-1) (ascii "Wrong path")) } := by
        simp only [Process.react, Process.call, hfile, readImageFile]
      exact play_snoc_of_ok hsetup hlast
  | @interrupted s₀ s n k hboot hrun =>
      obtain ⟨p, hp, hphase, hhandler⟩ := play_emulate terminal hboot hrun
      exact play_sigint hp hhandler hphase (by simp) k
  | @waiting past s s₁ w k hwaits hfetch =>
      obtain ⟨p, hp, hphase, hhandler⟩ := play_of_waits terminal hwaits
      obtain ⟨q, hq, hended⟩ := play_sigint hp hhandler hphase (by simp) k
      refine ⟨q, hq, hended.trans ?_⟩
      rw [← hwaits.printed hfetch]
      simp only [Phase.stdout, Phase.writes, List.take_nil, List.flatten_nil, List.append_nil]
  | halted hboot hrun hrunning hexec hhalt =>
      have hnext := steps_succ_ok.2 ⟨_, hrun, emulateStep_eq_ok.2 ⟨hrunning, _, hexec⟩⟩
      obtain ⟨hstopped, hout⟩ := hexec.halt hrunning hhalt
      rw [← hout]
      exact play_stopped terminal hboot hnext hstopped

/-- A process that has ended answers no move. -/
theorem Process.react_ended {launch : Launch} {p : Process} {how : Ending}
    (hended : p.phase = .ended how) (move : Move) : p.react launch move = .error .halted := by
  cases move <;> simp [react, call, interrupt, hended]

theorem play_ended {launch : Launch} {moves : List Move} {p q : Process} {how : Ending}
    (hended : p.phase = .ended how) (h : play (Process.react launch) moves p = .ok q) :
    moves = [] ∧ q = p := by
  cases moves with
  | nil => exact ⟨rfl, (Except.ok.inj h).symm⟩
  | cons move rest =>
      obtain ⟨r, hr, -⟩ := play_cons_ok.1 h
      rw [Process.react_ended hended] at hr
      simp at hr

theorem usage_react (launch : Launch) (terminal : Termios) (move : Move) :
    ∃ q, { Process.start terminal with phase := .usage }.react launch move = .ok q ∧
      ∃ how, q.phase = .ended how := by
  cases move with
  | call => exact ⟨_, rfl, _, rfl⟩
  | sigint k => exact ⟨_, rfl, _, rfl⟩

/-- After which moves `main`, without a path, ends, and how. -/
def EndsAtOnce (moves : List Move) (how : Ending) : Prop :=
  (moves = [.call] ∧ how = .exit 1 (ascii "Usage: ./<name_of_program> <path_to_bin>")) ∨
    (how = .killed ∧ ∃ k, moves = [.sigint k])

/-- Without a path, one move ends the process. -/
theorem usage_ends_iff (launch : Launch) (terminal : Termios) (moves : List Move) (how : Ending) :
    (∃ p, play (Process.react launch) moves { Process.start terminal with phase := .usage } = .ok p ∧
        p.phase = .ended how) ↔ EndsAtOnce moves how := by
  constructor
  · rintro ⟨p, hp, hphase⟩
    cases moves with
    | nil =>
        obtain rfl := Except.ok.inj hp
        simp at hphase
    | cons move rest =>
        obtain ⟨q, hq, hrest⟩ := play_cons_ok.1 hp
        obtain ⟨q', hq', how', hended⟩ := usage_react launch terminal move
        obtain rfl := Except.ok.inj (hq'.symm.trans hq)
        obtain ⟨rfl, rfl⟩ := play_ended hended hrest
        cases move with
        | call =>
            obtain rfl := Except.ok.inj hq
            exact Or.inl ⟨rfl, (Phase.ended.inj hphase).symm⟩
        | sigint k =>
            obtain rfl := Except.ok.inj hq
            exact Or.inr ⟨(Phase.ended.inj hphase).symm, k, rfl⟩
  · rintro (⟨rfl, rfl⟩ | ⟨rfl, k, rfl⟩)
    · exact ⟨_, rfl, rfl⟩
    · exact ⟨_, rfl, rfl⟩

/-- For every command line, image file, input, terminal and sequence of calls and signals, these
    before a call, inside it or while it waits: `main` has ended after it, in this way, if and only
    if the ending is in the list. -/
theorem main_ends_iff (argc : ℕ) (launch : Launch) (terminal : Termios) (moves : List Move)
    (how : Ending) :
    (∃ p, play (Process.react launch) moves (.main argc terminal) = .ok p ∧
        p.phase = .ended how) ↔
      if argc < 2 then EndsAtOnce moves how else Ends launch moves how := by
  by_cases hargc : argc < 2
  · rw [if_pos hargc, Process.main, if_pos hargc]
    exact usage_ends_iff launch terminal moves how
  · rw [if_neg hargc, Process.main, if_neg hargc]
    constructor
    · rintro ⟨p, hp, hphase⟩
      have hafter := Process.after_of_play hp
      simp only [Process.After, hphase] at hafter
      exact hafter
    · exact play_of_ends terminal

end Yavm.Lc3
