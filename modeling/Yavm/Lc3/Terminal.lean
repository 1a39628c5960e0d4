import Yavm.Lc3.Output

set_option autoImplicit false

/-! # The terminal (`setup`, `handleInterrupt`, `main`)

`main` calls `signal`, `tcgetattr`, `tcsetattr`, `readImageFile` and the iterations of `emulate`. A
`Process` is the program between two of these calls, or waiting for a key in the last one: the
attributes of the terminal, the variable `original_tio`, whether `handleInterrupt` is installed, and
which call comes next. `SIGINT` may be delivered before each call, inside it when some of what it
prints has been handed to stdio, and while it waits.

`handleInterrupt` is the only place that puts the attributes back. `terminal_iff` says for every run
that ends, with or without `SIGINT`, whether they are those of the start. -/

namespace Yavm.Lc3

open Basis

/-! ## Attributes -/

/-- `struct termios`. -/
@[ext]
structure Termios where
  iflag : BitVec 32
  oflag : BitVec 32
  cflag : BitVec 32
  lflag : BitVec 32
  line : Byte
  cc : Vector Byte 32
  ispeed : BitVec 32
  ospeed : BitVec 32
  deriving DecidableEq

/-- `ICANON`. -/
def icanon : BitVec 32 := 0x2

/-- `ECHO`. -/
def echo : BitVec 32 := 0x8

namespace Termios

/-- What `original_tio` is before `main`. -/
def zero : Termios :=
  ⟨0, 0, 0, 0, 0, .replicate 32 0, 0, 0⟩

/-- `new.c_lflag &= ~ICANON & ~ECHO;`. -/
def unbuffered (tio : Termios) : Termios :=
  { tio with lflag := tio.lflag &&& (~~~icanon &&& ~~~echo) }

end Termios

/-! ## The process -/

/-- How a process ends: `exit` or a return from `main`, with what it has printed, or the default
    action of `SIGINT`. -/
inductive Ending
  | exit (status : ℤ) (stdout : List Byte)
  | killed
  deriving DecidableEq, Repr

/-- The call that `main` makes next. -/
inductive Phase
  /-- The message for a command line without a path. -/
  | usage
  | signal
  | tcgetattr
  | tcsetattr
  | readImageFile
  /-- `while (running)`, in this state. -/
  | emulate (s : State)
  /-- In the iteration from this state, `getchar` waits for a key. -/
  | waiting (s : State)
  | ended (how : Ending)

/-- What has been printed so far. -/
def Phase.stdout : Phase → List Byte
  | .emulate s => s.stdout
  | .waiting s => s.stdout ++ s.writes.flatten
  | .usage | .signal | .tcgetattr | .tcsetattr | .readImageFile | .ended _ => []

/-- What the next call hands to stdio. -/
def Phase.writes (file : Option (List Byte)) : Phase → List (List Byte)
  | .readImageFile =>
    match file with
    | none => [ascii "Wrong path"]
    | some _ => []
  | .emulate s => s.writes
  | .usage | .signal | .tcgetattr | .tcsetattr | .waiting _ | .ended _ => []

structure Process where
  /-- The attributes of the terminal on standard input. -/
  terminal : Termios
  /-- `original_tio`. -/
  originalTio : Termios
  /-- `handleInterrupt` is what `SIGINT` calls. -/
  handler : Bool
  phase : Phase

/-- What the run of `main` is given: the file at the image path, what the local of `readImageFile`
    holds, and standard input. -/
structure Launch where
  file : Option (List Byte)
  origin : Word
  stdin : Input Byte

namespace Process

/-- Before `main`. -/
def start (terminal : Termios) : Process where
  terminal := terminal
  originalTio := .zero
  handler := false
  phase := .signal

def disableInputBuffering (p : Process) : Process :=
  { p with originalTio := p.terminal, terminal := p.terminal.unbuffered }

def restoreInputBuffering (p : Process) : Process :=
  { p with terminal := p.originalTio }

/-- `handleInterrupt`, when this has been printed. -/
def handleInterrupt (stdout : List Byte) (p : Process) : Process :=
  { p.restoreInputBuffering with phase := .ended (.exit (-2) (stdout ++ ascii "\n")) }

def setup (p : Process) : Process :=
  disableInputBuffering { p with handler := true }

/-- The next call of `main`. -/
def call (launch : Launch) (p : Process) : Except Stop Process :=
  match p.phase with
  | .usage =>
    .ok { p with phase := .ended (.exit 1 (ascii "Usage: ./<name_of_program> <path_to_bin>")) }
  | .signal => .ok { p with handler := true, phase := .tcgetattr }
  | .tcgetattr => .ok { p with originalTio := p.terminal, phase := .tcsetattr }
  | .tcsetattr => .ok { p with terminal := p.originalTio.unbuffered, phase := .readImageFile }
  | .readImageFile =>
    match Lc3.readImageFile launch.file launch.origin (initialState launch.stdin) with
    | .ok s => .ok { p with phase := .emulate (emulateStart s) }
    | .error (.exit status message) =>
      .ok { p with phase := .ended (.exit status (ascii message)) }
    | .error e => .error e
  | .emulate s =>
    match emulateStep s with
    | .ok t => .ok { p with phase := .emulate t }
    -- `running` is 0: `emulate` returns to `main`, and `main` returns
    | .error .halted => .ok { p with phase := .ended (.exit 0 s.stdout) }
    | .error .blocked => .ok { p with phase := .waiting s }
    | .error e => .error e
  -- nothing but a signal ends the wait
  | .waiting _ => .ok p
  | .ended _ => .error .halted

/-- `SIGINT` is delivered when the next call has made `k` of its calls to stdio, or all of them. -/
def interrupt (launch : Launch) (k : ℕ) (p : Process) : Except Stop Process :=
  match p.phase with
  | .ended _ => .error .halted
  | _ =>
    let stdout := p.phase.stdout ++ ((p.phase.writes launch.file).take k).flatten
    .ok (if p.handler then p.handleInterrupt stdout else { p with phase := .ended .killed })

end Process

/-- What happens next to a process. -/
inductive Move
  | call
  /-- `SIGINT`, after `k` calls to stdio. -/
  | sigint (k : ℕ)
  deriving DecidableEq, Repr

def Process.react (launch : Launch) : Move → Process → Except Stop Process
  | .call, p => p.call launch
  | .sigint k, p => p.interrupt launch k

/-- The first three calls are those of `setup`. -/
theorem setup_calls (launch : Launch) (terminal : Termios) :
    play (Process.react launch) [.call, .call, .call] (.start terminal)
      = .ok { (Process.start terminal).setup with phase := .readImageFile } :=
  rfl

/-! ## One call -/

/-- What a call of `main` does to the process. -/
inductive Process.Calls (launch : Launch) (p : Process) : Process → Prop
  | usage (hphase : p.phase = .usage) :
      Calls launch p { p with
        phase := .ended (.exit 1 (ascii "Usage: ./<name_of_program> <path_to_bin>")) }
  | signal (hphase : p.phase = .signal) :
      Calls launch p { p with handler := true, phase := .tcgetattr }
  | tcgetattr (hphase : p.phase = .tcgetattr) :
      Calls launch p { p with originalTio := p.terminal, phase := .tcsetattr }
  | tcsetattr (hphase : p.phase = .tcsetattr) :
      Calls launch p { p with terminal := p.originalTio.unbuffered, phase := .readImageFile }
  | wrongPath (hphase : p.phase = .readImageFile) (hfile : launch.file = none) :
      Calls launch p { p with phase := .ended (.exit (-1) (ascii "Wrong path")) }
  | loaded {s : State} (hphase : p.phase = .readImageFile)
      (hboot : boot launch.file launch.origin launch.stdin = .ok s) :
      Calls launch p { p with phase := .emulate s }
  | iterated {s t : State} (hphase : p.phase = .emulate s) (hstep : emulateStep s = .ok t) :
      Calls launch p { p with phase := .emulate t }
  | returned {s : State} (hphase : p.phase = .emulate s) (hstep : emulateStep s = .error .halted) :
      Calls launch p { p with phase := .ended (.exit 0 s.stdout) }
  | blocked {s : State} (hphase : p.phase = .emulate s) (hstep : emulateStep s = .error .blocked) :
      Calls launch p { p with phase := .waiting s }
  | waiting {s : State} (hphase : p.phase = .waiting s) : Calls launch p p

theorem Process.calls_of_call {launch : Launch} {p q : Process} (h : p.call launch = .ok q) :
    p.Calls launch q := by
  unfold Process.call at h
  cases hphase : p.phase with
  | usage | signal | tcgetattr | tcsetattr =>
      simp only [hphase, Except.ok.injEq] at h
      subst h
      constructor
      exact hphase
  | readImageFile =>
      simp only [hphase] at h
      -- only a path that cannot be opened makes `readImageFile` call `exit`
      cases hfile : launch.file with
      | none =>
          simp only [hfile, readImageFile, Except.ok.injEq] at h
          subst h
          exact .wrongPath hphase hfile
      | some bytes =>
          obtain ⟨m, hm⟩ := readImageFile_ok bytes launch.origin (initialState launch.stdin)
          simp only [hfile, hm, Except.ok.injEq] at h
          subst h
          exact .loaded hphase (map_eq_ok.2 ⟨_, hfile ▸ hm, rfl⟩)
  | emulate s =>
      simp only [hphase] at h
      split at h
      · next t hstep =>
          obtain rfl := Except.ok.inj h
          exact .iterated hphase hstep
      · next hstep =>
          obtain rfl := Except.ok.inj h
          exact .returned hphase hstep
      · next hstep =>
          obtain rfl := Except.ok.inj h
          exact .blocked hphase hstep
      · simp at h
  | waiting s =>
      simp only [hphase, Except.ok.injEq] at h
      subst h
      exact .waiting hphase
  | ended how => simp [hphase] at h

/-! ## The machine in the process -/

/-- In the loop, the process is the machine, started on the image and run for some iterations. -/
def Process.RunsMachine (launch : Launch) (p : Process) : Prop :=
  ∀ s, p.phase = .emulate s ∨ p.phase = .waiting s → ∃ s₀ n,
    boot launch.file launch.origin launch.stdin = .ok s₀ ∧ steps emulateStep n s₀ = .ok s

theorem Process.RunsMachine.call {launch : Launch} {p q : Process} (h : p.RunsMachine launch)
    (hcall : p.call launch = .ok q) : q.RunsMachine launch := by
  intro t ht
  cases Process.calls_of_call hcall with
  | loaded hphase hboot =>
      obtain rfl := Phase.emulate.inj (ht.resolve_right (by simp))
      exact ⟨_, 0, hboot, rfl⟩
  | iterated hphase hstep =>
      obtain rfl := Phase.emulate.inj (ht.resolve_right (by simp))
      obtain ⟨s₀, n, hboot, hrun⟩ := h _ (Or.inl hphase)
      exact ⟨s₀, n + 1, hboot, steps_succ_ok.2 ⟨_, hrun, hstep⟩⟩
  | blocked hphase hstep =>
      obtain rfl := Phase.waiting.inj (ht.resolve_left (by simp))
      exact h _ (Or.inl hphase)
  | waiting hphase => exact h t ht
  | usage | signal | tcgetattr | tcsetattr | wrongPath | returned => simp at ht

/-- A signal ends the process. -/
theorem Process.interrupt_ended {launch : Launch} {k : ℕ} {p q : Process}
    (h : p.interrupt launch k = .ok q) : ∃ how, q.phase = .ended how := by
  unfold interrupt at h
  split at h
  · simp at h
  · obtain rfl := Except.ok.inj h
    split
    · exact ⟨_, rfl⟩
    · exact ⟨_, rfl⟩

theorem Process.runsMachine_of_play {launch : Launch} {terminal : Termios} {moves : List Move}
    {p : Process} (h : play (Process.react launch) moves (.start terminal) = .ok p) :
    p.RunsMachine launch := by
  have hstart : (Process.start terminal).RunsMachine launch := by
    intro s hs
    simp [Process.start] at hs
  refine play_invariant (fun _ p => Process.RunsMachine launch p) ?_ hstart h
  intro _ move p q hp hreact
  cases move with
  | call => exact hp.call hreact
  | sigint k =>
      intro s hs
      obtain ⟨how, hended⟩ := Process.interrupt_ended hreact
      simp [hended] at hs

/-! ## What has become of the attributes -/

/-- The attributes when a process ends, by what has happened to it. -/
def attributesAfter (terminal : Termios) (past : List Move) : Termios :=
  if ∀ move ∈ past, move = .call then terminal.unbuffered
  else
    match past with
    -- `original_tio` has not been set when `handleInterrupt` puts it back
    | [.call, .sigint _] => .zero
    | _ => terminal

theorem attributesAfter_early (terminal : Termios) (k : ℕ) :
    attributesAfter terminal [.call, .sigint k] = .zero :=
  if_neg (by simp)

theorem attributesAfter_late {terminal : Termios} {past : List Move}
    (hnone : ¬ ∀ move ∈ past, move = .call) (hlate : ∀ k, past ≠ [.call, .sigint k]) :
    attributesAfter terminal past = terminal := by
  unfold attributesAfter
  rw [if_neg hnone]
  split
  · exact absurd rfl (hlate _)
  · rfl

/-- From `tcsetattr` on, as long as nothing has come but calls. -/
structure Process.Unbuffered (terminal : Termios) (past : List Move) (p : Process) : Prop where
  calls : ∀ move ∈ past, move = .call
  late : 3 ≤ past.length
  disabled : p.terminal = terminal.unbuffered
  saved : p.originalTio = terminal
  handler : p.handler = true

/-- What is known of a process that started on a terminal with these attributes. -/
def Process.Inv (terminal : Termios) (past : List Move) (p : Process) : Prop :=
  match p.phase with
  | .usage => False
  | .signal => past = [] ∧ p = .start terminal
  | .tcgetattr => past = [.call] ∧ p.terminal = terminal ∧ p.originalTio = .zero ∧ p.handler = true
  | .tcsetattr =>
    past = [.call, .call] ∧ p.terminal = terminal ∧ p.originalTio = terminal ∧ p.handler = true
  | .readImageFile | .emulate _ | .waiting _ => p.Unbuffered terminal past
  | .ended _ => p.terminal = attributesAfter terminal past

theorem Process.Unbuffered.call {terminal : Termios} {past : List Move} {p : Process}
    (h : p.Unbuffered terminal past) (phase : Phase) :
    { p with phase }.Unbuffered terminal (past ++ [Move.call]) where
  calls move hmove := by
    rcases List.mem_append.1 hmove with hmem | hmem
    · exact h.calls move hmem
    · exact List.mem_singleton.1 hmem
  late := by
    have hlate := h.late
    rw [List.length_append]
    omega
  disabled := h.disabled
  saved := h.saved
  handler := h.handler

/-- At an ending without a signal. -/
theorem Process.Unbuffered.attributes {terminal : Termios} {past : List Move} {p : Process}
    (h : p.Unbuffered terminal past) : p.terminal = attributesAfter terminal past :=
  h.disabled.trans (if_pos h.calls).symm

theorem Process.Inv.call {launch : Launch} {terminal : Termios} {past : List Move} {p q : Process}
    (h : p.Inv terminal past) (hcall : p.call launch = .ok q) :
    q.Inv terminal (past ++ [.call]) := by
  unfold Process.Inv at h
  cases Process.calls_of_call hcall with
  | usage hphase => simp [hphase] at h
  | signal hphase =>
      simp only [hphase] at h
      obtain ⟨rfl, rfl⟩ := h
      exact ⟨rfl, rfl, rfl, rfl⟩
  | tcgetattr hphase =>
      simp only [hphase] at h
      obtain ⟨rfl, hterminal, -, hhandler⟩ := h
      exact ⟨rfl, hterminal, hterminal, hhandler⟩
  | tcsetattr hphase =>
      simp only [hphase] at h
      obtain ⟨rfl, -, horiginal, hhandler⟩ := h
      exact ⟨by decide, by decide, congrArg Termios.unbuffered horiginal, horiginal, hhandler⟩
  | loaded hphase | iterated hphase | blocked hphase =>
      simp only [hphase] at h
      exact h.call _
  | wrongPath hphase | returned hphase =>
      simp only [hphase] at h
      exact (h.call _).attributes
  | waiting hphase =>
      simp only [hphase] at h
      have hnext : p.Unbuffered terminal (past ++ [.call]) := h.call p.phase
      simpa only [Inv, hphase] using hnext

/-- The attributes after `SIGINT`: what `original_tio` holds, once the handler is installed. -/
theorem Process.Inv.interrupt {launch : Launch} {k : ℕ} {terminal : Termios} {past : List Move}
    {p q : Process} (h : p.Inv terminal past) (hint : p.interrupt launch k = .ok q) :
    q.Inv terminal (past ++ [.sigint k]) := by
  unfold Process.Inv at h
  unfold Process.interrupt at hint
  cases hphase : p.phase with
  | usage => simp [hphase] at h
  | signal =>
      simp only [hphase, Except.ok.injEq] at h hint
      obtain ⟨rfl, rfl⟩ := h
      subst hint
      exact (attributesAfter_late (by simp) (by simp)).symm
  | tcgetattr =>
      simp only [hphase, Except.ok.injEq] at h hint
      obtain ⟨rfl, -, hzero, hhandler⟩ := h
      rw [if_pos hhandler] at hint
      subst hint
      exact hzero.trans (attributesAfter_early terminal k).symm
  | tcsetattr =>
      simp only [hphase, Except.ok.injEq] at h hint
      obtain ⟨rfl, -, hsaved, hhandler⟩ := h
      rw [if_pos hhandler] at hint
      subst hint
      exact hsaved.trans (attributesAfter_late (by simp) (by simp)).symm
  | readImageFile | emulate s | waiting s =>
      simp only [hphase, Except.ok.injEq] at h hint
      rw [if_pos h.handler] at hint
      subst hint
      refine h.saved.trans (attributesAfter_late (by simp) ?_).symm
      intro j heq
      have hlen := congrArg List.length heq
      have hlate := h.late
      simp only [List.length_append, List.length_cons, List.length_nil] at hlen
      omega
  | ended how => simp [hphase] at hint

theorem Process.inv_of_play {launch : Launch} {terminal : Termios} {moves : List Move} {p : Process}
    (h : play (Process.react launch) moves (.start terminal) = .ok p) : p.Inv terminal moves := by
  have hstart : (Process.start terminal).Inv terminal [] := ⟨rfl, rfl⟩
  refine play_invariant (Process.Inv terminal) ?_ hstart h
  intro past move p q hp hreact
  cases move with
  | call => exact hp.call hreact
  | sigint k => exact hp.interrupt hreact

theorem forall_call_iff {moves : List Move} :
    (∀ move ∈ moves, move = .call) ↔ ∀ k, .sigint k ∉ moves := by
  constructor
  · intro h k hmem
    exact absurd (h _ hmem) (by simp)
  · intro h move hmem
    cases move with
    | call => rfl
    | sigint k => exact absurd hmem (h k)

/-- For every terminal, image file, input and run of `main` that ends, with `SIGINT` before or inside
    any of its calls or not at all: the attributes at the end are those of the start if and only if,
    when `SIGINT` came between `signal` and `tcgetattr`, they were all zero, and when it did not
    come, `ICANON` and `ECHO` were off. -/
theorem terminal_iff {launch : Launch} {terminal : Termios} {moves : List Move} {p : Process}
    {how : Ending} (hrun : play (Process.react launch) moves (.start terminal) = .ok p)
    (hend : p.phase = .ended how) :
    p.terminal = terminal ↔
      (∀ k, moves = [.call, .sigint k] → terminal = .zero) ∧
        ((∀ k, .sigint k ∉ moves) → terminal.unbuffered = terminal) := by
  have hinv := Process.inv_of_play hrun
  simp only [Process.Inv, hend] at hinv
  rw [hinv, ← forall_call_iff]
  by_cases hnone : ∀ move ∈ moves, move = .call
  · have hne : ∀ k, moves ≠ [.call, .sigint k] := by
      rintro k rfl
      exact absurd (hnone (.sigint k) (by simp)) (by simp)
    unfold attributesAfter
    rw [if_pos hnone]
    simp only [hne, false_implies, implies_true, true_and]
    exact ⟨fun heq _ => heq, fun heq => heq hnone⟩
  · by_cases hlate : ∀ k, moves ≠ [.call, .sigint k]
    · rw [attributesAfter_late hnone hlate]
      exact iff_of_true rfl ⟨fun k heq => absurd heq (hlate k), fun hall => absurd hall hnone⟩
    · obtain ⟨k, hk⟩ := not_forall_not.1 hlate
      subst hk
      rw [attributesAfter_early]
      simp [eq_comm]

/-- A terminal in the mode in which a shell leaves it to a program. -/
def cookedTerminal : Termios :=
  { Termios.zero with lflag := 0x8A3B }

/-- An image with nothing but a `HALT` at `0x3000`. -/
def haltLaunch : Launch where
  file := some (imageFile 0x3000 [0xF025])
  origin := 0
  stdin := noInput

/-- The equivalence on the run that halts at once. -/
theorem terminal_iff_halt :
    ∃ p, play (Process.react haltLaunch) (List.replicate 6 .call) (.start cookedTerminal) = .ok p ∧
      (p.terminal = cookedTerminal ↔
        (∀ k, List.replicate 6 Move.call = [.call, .sigint k] → cookedTerminal = .zero) ∧
          ((∀ k, .sigint k ∉ List.replicate 6 Move.call) →
            cookedTerminal.unbuffered = cookedTerminal)) := by
  have hends : ∃ p, play (Process.react haltLaunch) (List.replicate 6 .call) (.start cookedTerminal)
      = .ok p ∧ p.phase = .ended (.exit 0 (ascii "Halting...\n")) := ⟨_, rfl, rfl⟩
  obtain ⟨p, hrun, hend⟩ := hends
  exact ⟨p, hrun, terminal_iff hrun hend⟩

/-- After a `HALT`, the terminal does not echo what is typed, and does not wait for whole lines. -/
theorem terminal_broken_by_halt :
    ∃ p, play (Process.react haltLaunch) (List.replicate 6 .call) (.start cookedTerminal) = .ok p ∧
      p.phase = .ended (.exit 0 (ascii "Halting...\n")) ∧ p.terminal ≠ cookedTerminal :=
  ⟨_, rfl, rfl, by decide⟩

end Yavm.Lc3
