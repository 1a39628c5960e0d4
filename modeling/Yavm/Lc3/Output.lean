import Yavm.Lc3.Frame

set_option autoImplicit false

/-! # What an iteration prints, call by call

`SIGINT` may be delivered inside an iteration: while `getchar` waits, or between two of the calls
that print. `State.writes` lists what the iteration hands to `fputc`, `printf` and `puts`, one entry
for each call, so what it has printed when it is cut short is the first few entries. An iteration
that completes has printed all of them (`emulateStep_writes`), and one that waits for a key the
prompt of `IN` or nothing (`writes_of_blocked`). -/

namespace Yavm.Lc3

open Basis

theorem last_lt (left : ℕ) : uint16Max - (left + 1) < uint16Max :=
  Nat.sub_lt (by decide) (Nat.succ_pos left)

/-- What the loop of a string trap prints on the last `left` cells of `memory`, up to the first zero
    word or the end of the array. -/
def stringWalk (bytesOf : Word → List Byte) (memory : Memory) : ℕ → List Byte
  | 0 => []
  | left + 1 =>
    let word := memory ⟨uint16Max - (left + 1), last_lt left⟩
    if word = 0 then [] else bytesOf word ++ stringWalk bytesOf memory left

/-- The prompt of `IN`. -/
def prompt : List Byte :=
  ascii "Type in a character"

/-- What a trap procedure hands to stdio. -/
def trapWrites (instruction : Word) (s : State) : List (List Byte) :=
  let left := uint16Max - (s.registers .r0).toNat
  match TrapCode.decode instruction with
  | some .getc => []
  | some .in =>
    match s.stdin.getchar with
    | none => [prompt]
    | some (c, _) => [prompt, [lowByte (charCode c)]]
  | some .out => [[lowByte (s.registers .r0)]]
  -- the loops call `fputc` for each byte
  | some .putsp => (stringWalk putspBytes s.memory left).map fun b => [b]
  | some .puts => (stringWalk putsBytes s.memory left).map fun b => [b]
  | some .halt => [ascii "Halting...\n"]
  | none => []

/-- What the next iteration of `emulate` hands to stdio, if there is one. -/
def State.writes (s : State) : List (List Byte) :=
  if s.running then
    match fetch s with
    | .ok (instruction, s) =>
      if Op.decode instruction = .trap then trapWrites instruction s else []
    | .error _ => []
  else
    []

theorem writes_of_fetch {s s₁ : State} {w : Word} (hrun : s.running = true)
    (hfetch : fetch s = .ok (w, s₁)) :
    s.writes = if Op.decode w = .trap then trapWrites w s₁ else [] := by
  rw [State.writes, if_pos hrun, hfetch]

theorem writes_of_halt {s s₁ : State} {w : Word} (hrun : s.running = true)
    (hfetch : fetch s = .ok (w, s₁)) (hhalt : trapOf w = some .halt) :
    s.writes = [ascii "Halting...\n"] := by
  obtain ⟨hop, hcode⟩ := Option.ite_none_right_eq_some.1 hhalt
  rw [writes_of_fetch hrun hfetch, if_pos hop, trapWrites, hcode]

/-! ## Iterations that complete -/

theorem stringWalk_of_ok {bytesOf : Word → List Byte} {m : Memory} {left : ℕ} {out : List Byte}
    (h : stringLoop bytesOf m left = .ok out) : stringWalk bytesOf m left = out := by
  induction left generalizing out with
  | zero => simp [stringLoop] at h
  | succ left ih =>
      rw [stringLoop] at h
      rw [stringWalk]
      split at h
      · next hzero =>
          rw [if_pos hzero]
          exact Except.ok.inj h
      · next hzero =>
          obtain ⟨rest, hrest, rfl⟩ := map_eq_ok.1 h
          rw [if_neg hzero, ih hrest]

/-- A trap procedure that returns has made all its calls. -/
theorem trap_writes {w : Word} {s t : State} (h : trap w s = .ok t) :
    t.stdout = s.stdout ++ (trapWrites w s).flatten := by
  unfold trap at h
  unfold trapWrites
  cases hcode : TrapCode.decode w with
  | none =>
      rw [hcode] at h
      obtain rfl := Except.ok.inj h
      exact (List.append_nil _).symm
  | some code =>
      rw [hcode] at h
      cases code with
      | getc =>
          obtain ⟨⟨c, u⟩, hget, hu⟩ := bind_eq_ok.1 h
          obtain rfl := Except.ok.inj hu
          exact (getchar_readOnly hget).stdout.trans (List.append_nil _).symm
      | «in» =>
          obtain ⟨⟨c, u⟩, hget, hu⟩ := bind_eq_ok.1 h
          obtain rfl := Except.ok.inj hu
          obtain ⟨stdin, hstdin, rfl⟩ := getchar_eq_ok.1 hget
          have hstdin : s.stdin.getchar = some (c, stdin) := hstdin
          simp [hstdin, State.print, State.record, prompt]
      | puts | putsp =>
          obtain ⟨out, hout, rfl⟩ := map_eq_ok.1 h
          simp only [stringWalk_of_ok hout, ← List.flatMap_def, List.flatMap_singleton']
          rfl
      | out | halt =>
          obtain rfl := Except.ok.inj h
          rfl

/-- An iteration that completes has printed all it hands to stdio. -/
theorem emulateStep_writes {s t : State} (h : emulateStep s = .ok t) :
    t.stdout = s.stdout ++ s.writes.flatten := by
  obtain ⟨hrun, w, s₁, hfetch, hdispatch⟩ := emulateStep_eq_ok.1 h
  rw [writes_of_fetch hrun hfetch]
  by_cases hop : Op.decode w = .trap
  · rw [if_pos hop, trap_writes (by rwa [dispatch, hop] at hdispatch),
      (fetch_fetched hfetch).stdout]
    rfl
  · rw [if_neg hop, List.flatten_nil, List.append_nil]
    have hframe : FrameLaw w s t := Executes.frame ⟨s₁, hfetch, hdispatch⟩
    by_contra hout
    obtain ⟨code, -, hcode⟩ := hframe.stdout hout
    rw [trapOf_of_ne hop] at hcode
    simp at hcode

/-! ## Iterations that wait -/

/-- An iteration that waits for a key is in `GETC` and has printed nothing, or in `IN` and has
    printed the prompt. -/
theorem writes_of_blocked {s s₁ : State} {w : Word} (hrun : s.running = true)
    (hfetch : fetch s = .ok (w, s₁)) (hkey : readsKey w) (hnone : s₁.stdin.getchar = none) :
    s.writes = if trapOf w = some .in then [prompt] else [] := by
  obtain ⟨hop, hcode⟩ := hkey
  rw [writes_of_fetch hrun hfetch, if_pos hop, trapOf_eq hop]
  rcases hcode with hcode | hcode
  · simp [trapWrites, hcode]
  · simp [trapWrites, hcode, hnone]

end Yavm.Lc3
