import Yavm.Java.Strings
import Yavm.Lc3.Instructions

set_option autoImplicit false

/-! # The console traps of the Java machine

`getc`, `out`, `in` and `halt`, with what is left of `System.in`. Each is meant to do what the trap of
the same name does on the C machine. `traps_agree_iff` says for which sequences of calls the two
consoles stay the same: `in` and `halt` break lines in other places than the C machine does, the end
of the input is another number, and a character is a byte on the C machine only, where `System.out`
encodes it in the charset of the platform. -/

namespace Yavm.Java

open Basis
open Lc3 (Word Byte ascii charCode lowByte)

/-- The fields of `Main`, and the rest of `System.in`. -/
structure Console where
  machine : State
  stdin : List Byte

/-- `System.in.read()`: the next byte, or -1 at the end of the stream. -/
def Console.read (con : Console) : JavaInt × Console :=
  match con.stdin with
  | [] => (-1, con)
  | b :: rest => (b.setWidth 32, { con with stdin := rest })

/-- A string literal. -/
def literal (text : String) : List Char16 :=
  (ascii text).map (BitVec.setWidth 16)

/-! ## The methods -/

def getc (con : Console) : Console :=
  let (c, con) := con.read
  { con with machine := con.machine.setReg .r0 c }

def out (con : Console) : Console :=
  let c : Char16 := (con.machine.registers .r0).setWidth 16
  { con with machine := con.machine.print [c] }

/-- `println` ends the line as Unix does. -/
def «in» (con : Console) : Console :=
  let con := { con with machine := con.machine.print (literal "Type in a character\n") }
  let (c, con) := con.read
  let c : Char16 := c.setWidth 16
  let machine := con.machine.print [c]
  { con with machine := machine.setReg .r0 (c.setWidth 32) }

def halt (con : Console) : Console :=
  { con with
    machine := { con.machine.print (literal "Halting...") with running := false } }

/-! ## Both consoles -/

/-- The traps that both machines have a procedure for, strings apart. -/
inductive Call
  | getc | out | in | halt
  deriving DecidableEq, Repr

/-- The procedure of the C machine. -/
def trapOf : Call → Lc3.State → Except Lc3.Stop Lc3.State
  | .getc, c => Lc3.trapGetc c
  | .out, c => .ok (Lc3.trapOut c)
  | .in, c => Lc3.trapIn c
  | .halt, c => .ok (Lc3.trapHalt c)

/-- The method of the Java machine. -/
def methodOf : Call → Console → Console
  | .getc => getc
  | .out => out
  | .in => «in»
  | .halt => halt

/-- The charset of `System.out`: what has been written when these characters have been printed. What
    is written stays, and a character of ASCII is written as a byte, behind anything that the encoder
    has kept back, such as half of a surrogate pair. -/
structure Charset where
  encode : List Char16 → List Byte
  grows (text : List Char16) (c : Char16) : encode text <+: encode (text ++ [c])
  plain (text : List Char16) {c : Char16} (h : c.toNat < 128) :
    ∃ kept, encode (text ++ [c]) = encode text ++ kept ++ [c.setWidth 8]

/-- The same number in `R0`, the same bytes written, the same bytes to come, and both machines running
    or both not. -/
structure SameConsole (charset : Charset) (c : Lc3.State) (j : Console) : Prop where
  r0 : j.machine.registers .r0 = (c.registers .r0).setWidth 32
  stdout : charset.encode j.machine.stdout = c.stdout
  stdin : j.stdin = c.stdin.pending
  closed : c.stdin.closed = true
  running : j.machine.running = c.running

/-- Printing this character writes its low byte. -/
def Charset.AsByte (charset : Charset) (text : List Char16) (c : Char16) : Prop :=
  charset.encode (text ++ [c]) = charset.encode text ++ [lowByte c]

/-- The machines answer the call alike: a byte is left for `getc`, and `out` writes one. -/
def Answered (charset : Charset) (c : Lc3.State) (j : Console) : Call → Prop
  | .getc => c.stdin.pending ≠ []
  | .out => charset.AsByte j.machine.stdout (c.registers .r0)
  | .in => False
  | .halt => False

/-! ## ASCII -/

/-- A text of ASCII takes at least a byte for each character. -/
theorem Charset.length_ascii (charset : Charset) (text : List Char16) {more : List Char16}
    (h : ∀ c ∈ more, c.toNat < 128) :
    ∃ out, charset.encode (text ++ more) = charset.encode text ++ out ∧
      more.length ≤ out.length := by
  induction more generalizing text with
  | nil => exact ⟨[], by simp, Nat.le_refl _⟩
  | cons c more ih =>
      obtain ⟨kept, hc⟩ := charset.plain text (h c (List.mem_cons_self ..))
      obtain ⟨out, hout, hlen⟩ := ih (text ++ [c]) fun d hd => h d (List.mem_cons_of_mem _ hd)
      refine ⟨kept ++ [c.setWidth 8] ++ out, ?_, ?_⟩
      · rw [List.append_assoc, List.singleton_append, hc] at hout
        rw [hout]
        simp only [List.append_assoc]
      · simp only [List.length_append, List.length_cons, List.length_nil]
        omega

/-- What ends in a character of ASCII is written with its byte at the end. -/
theorem Charset.last_ascii (charset : Charset) {text : List Char16} {c : Char16}
    (hc : c.toNat < 128) {out : List Byte} {b : Byte}
    (h : charset.encode (text ++ [c]) = out ++ [b]) : b = c.setWidth 8 := by
  obtain ⟨kept, hkept⟩ := charset.plain text hc
  have hlast := List.append_inj_right' (h.symm.trans hkept) rfl
  exact (List.cons.inj hlast).1

theorem literal_prompt : ∀ c ∈ literal "Type in a character", c.toNat < 128 := by
  simp [literal, ascii]

theorem length_prompt :
    (literal "Type in a character").length = 19 ∧ (ascii "Type in a character").length = 19 := by
  simp [literal, ascii]

/-- A prompt with a line break and a character take another form than a prompt and a byte: the
    prompt takes nineteen bytes at least and the line break one. -/
theorem Charset.prompt_differs (charset : Charset) {text : List Char16} {x : Char16} {b : Byte}
    (hx : b = 0x0A → x = 0x0A) :
    charset.encode (text ++ literal "Type in a character" ++ [0x0A] ++ [x])
      ≠ charset.encode text ++ ascii "Type in a character" ++ [b] := by
  intro hout
  obtain ⟨more, hmore, hlen⟩ := charset.length_ascii text literal_prompt
  obtain ⟨kept, hkept⟩ := charset.plain (text ++ literal "Type in a character") (c := 0x0A) (by decide)
  obtain ⟨rest, hrest⟩ := charset.grows (text ++ literal "Type in a character" ++ [0x0A]) x
  have hwritten : more ++ kept ++ [0x0A] ++ rest = ascii "Type in a character" ++ [b] := by
    rw [← hrest, hkept, hmore] at hout
    simp only [List.append_assoc, List.append_cancel_left_eq] at hout ⊢
    exact hout
  have hlength := congrArg List.length hwritten
  simp only [List.length_append, List.length_singleton, length_prompt.1, length_prompt.2]
    at hlength hlen
  obtain rfl : rest = [] := List.length_eq_zero_iff.1 (by omega)
  rw [List.append_nil] at hwritten hrest
  have hbreak := List.append_inj_right' hwritten rfl
  obtain rfl := hx (List.cons.inj hbreak).1.symm
  -- so the character is a line break, but nothing has been written for it
  obtain ⟨again, hagain⟩ := charset.plain (text ++ literal "Type in a character" ++ [0x0A]) (c := 0x0A)
    (by decide)
  have hsame := congrArg List.length (hrest.trans hagain)
  simp only [List.length_append, List.length_singleton] at hsame
  omega

/-! ## One call -/

/-- The last line of `halt` ends with a line break on the C machine only. -/
theorem halt_differs {charset : Charset} (c : Lc3.State) (j : Console) :
    ¬ SameConsole charset (Lc3.trapHalt c) (halt j) := by
  intro hsame
  have hbreak : charset.encode (j.machine.stdout ++ literal "Halting.." ++ [0x2E])
      = c.stdout ++ ascii "Halting..." ++ [0x0A] := by
    have hjava : literal "Halting..." = literal "Halting.." ++ [0x2E] := by simp [literal, ascii]
    have hc : ascii "Halting...\n" = ascii "Halting..." ++ [0x0A] := by simp [ascii]
    rw [List.append_assoc, List.append_assoc, ← hjava, ← hc]
    exact hsame.stdout
  exact absurd (charset.last_ascii (by decide) hbreak) (by decide)

section

variable {charset : Charset} {c : Lc3.State} {j : Console} (h : SameConsole charset c j)

theorem getc_eq {j' : Console} {v : JavaInt} (hread : j.read = (v, j')) :
    getc j = { j' with machine := j'.machine.setReg .r0 v } := by
  rw [getc, hread]

theorem trapGetc_eq {d : Option Byte} {stdin : Input Byte}
    (hget : c.stdin.getchar = some (d, stdin)) :
    Lc3.trapGetc c
      = .ok (({ c with stdin := stdin }.record (.getchar d)).setReg .r0 (charCode d)) := by
  rw [Lc3.trapGetc, Lc3.getchar_eq_ok.2 ⟨stdin, hget, rfl⟩]
  rfl

/-- What `in` prints: the prompt, a line break and what it has read. -/
theorem in_stdout (j : Console) : («in» j).machine.stdout
    = j.machine.stdout ++ literal "Type in a character" ++ [0x0A] ++ [j.read.1.setWidth 16] := by
  have hline : literal "Type in a character\n" = literal "Type in a character" ++ [0x0A] := by
    simp [literal, ascii]
  unfold «in»
  rw [hline]
  cases hstdin : j.stdin <;> simp [Console.read, hstdin, State.print, State.setReg]

include h

/-- A byte that was read is in `R0` of both machines. -/
theorem getc_byte {b : Byte} {rest : List Byte} (hpending : c.stdin.pending = b :: rest) :
    ∃ c', Lc3.trapGetc c = .ok c' ∧ SameConsole charset c' (getc j) ∧
      c'.stdin.pending = rest ∧ c'.registers .r0 = b.setWidth 16 ∧
      (getc j).machine.stdout = j.machine.stdout := by
  obtain ⟨b', stdin, hget⟩ := Input.getchar_of_pending (i := c.stdin) (by simp [hpending])
  have htake := Input.pending_of_getchar hget
  rw [hpending] at htake
  obtain ⟨rfl, hrest⟩ := List.cons.inj htake
  have hread : j.read = (b.setWidth 32, { j with stdin := rest }) := by
    rw [Console.read, h.stdin, hpending]
  refine ⟨_, trapGetc_eq hget, ?_, hrest.symm, ?_, ?_⟩
  · rw [getc_eq hread]
    refine ⟨?_, h.stdout, hrest, (Input.closed_getchar hget).trans h.closed, h.running⟩
    simp [charCode]
  · simp [charCode]
  · rw [getc_eq hread]
    rfl

/-- At the end of the input the machines have different numbers. -/
theorem getc_end {c' : Lc3.State} (hpending : c.stdin.pending = [])
    (htrap : Lc3.trapGetc c = .ok c') : ¬ SameConsole charset c' (getc j) := by
  have hend := Input.getchar_of_pending_nil hpending
  rw [if_pos h.closed] at hend
  obtain ⟨stdin, hget⟩ := hend
  have hread : j.read = (-1, j) := by rw [Console.read, h.stdin, hpending]
  obtain rfl := Except.ok.inj ((trapGetc_eq hget).symm.trans htrap)
  intro hsame
  have hr0 := hsame.r0
  rw [getc_eq hread, State.setReg_self, Lc3.State.setReg_registers, Function.update_self] at hr0
  exact absurd hr0 (by decide)

theorem out_stdout : (out j).machine.stdout = j.machine.stdout ++ [c.registers .r0] := by
  have hchar : (j.machine.registers .r0).setWidth 16 = c.registers .r0 := by
    rw [h.r0, setWidth_16_setWidth_32]
  rw [← hchar]
  rfl

theorem out_iff : SameConsole charset (Lc3.trapOut c) (out j) ↔
    charset.AsByte j.machine.stdout (c.registers .r0) := by
  have hstdout := out_stdout h
  rw [Charset.AsByte, h.stdout, ← hstdout]
  constructor
  · exact fun hsame => hsame.stdout
  · exact fun hbyte => ⟨h.r0, hbyte, h.stdin, h.closed, h.running⟩

/-- The prompt of `in` ends with a line break on the Java machine only. -/
theorem in_differs {c' : Lc3.State} (htrap : Lc3.trapIn c = .ok c') :
    ¬ SameConsole charset c' («in» j) := by
  obtain ⟨⟨d, t⟩, hget, ht⟩ := bind_eq_ok.1 htrap
  obtain ⟨stdin, hstdin, rfl⟩ := Lc3.getchar_eq_ok.1 hget
  have hstdin : c.stdin.getchar = some (d, stdin) := hstdin
  intro hsame
  have hout := hsame.stdout
  have hc : c'.stdout = c.stdout ++ ascii "Type in a character" ++ [lowByte (charCode d)] := by
    obtain rfl := Except.ok.inj ht
    rfl
  rw [in_stdout, hc, ← h.stdout] at hout
  refine charset.prompt_differs (fun hbreak => ?_) hout
  cases d with
  | none => exact absurd hbreak (by decide)
  | some b =>
      have hb : b = 0x0A := by simpa [lowByte, charCode] using hbreak
      rw [Console.read, h.stdin, Input.pending_of_getchar hstdin, hb]
      rfl

/-- **Step lemma.** From consoles that are the same, both machines make the call and have the same
    consoles again exactly when they answer it alike. -/
theorem call_iff (call : Call) :
    (∃ c', trapOf call c = .ok c' ∧ SameConsole charset c' (methodOf call j)) ↔
      Answered charset c j call := by
  cases call with
  | getc =>
      constructor
      · intro ⟨c', htrap, hsame⟩ hpending
        exact getc_end h hpending htrap hsame
      · intro hpending
        obtain ⟨b, rest, hrest⟩ := List.exists_cons_of_ne_nil hpending
        obtain ⟨c', htrap, hsame, -⟩ := getc_byte h hrest
        exact ⟨c', htrap, hsame⟩
  | out =>
      constructor
      · intro ⟨c', htrap, hsame⟩
        obtain rfl := Except.ok.inj htrap
        exact (out_iff h).1 hsame
      · intro hbyte
        exact ⟨_, rfl, (out_iff h).2 hbyte⟩
  | «in» =>
      constructor
      · intro ⟨c', htrap, hsame⟩
        exact in_differs h htrap hsame
      · exact False.elim
  | halt =>
      constructor
      · intro ⟨c', htrap, hsame⟩
        obtain rfl := Except.ok.inj htrap
        exact halt_differs c j hsame
      · exact False.elim

end

/-! ## Sequences of calls -/

/-- After every number of the calls the consoles are the same. -/
def StaySame (charset : Charset) (calls : List Call) (c : Lc3.State) (j : Console) : Prop :=
  ∀ k ≤ calls.length, ∃ c', play trapOf (calls.take k) c = .ok c' ∧
    SameConsole charset c' ((calls.take k).foldl (fun j call => methodOf call j) j)

/-- The characters that the `out`s of a sequence of calls print, with this number in `R0` and these
    bytes to come: each prints the last byte that a `getc` has read, or the number. -/
def charsOut : List Call → Word → List Byte → List Char16
  | [], _, _ => []
  | .getc :: calls, _, b :: bytes => charsOut calls (b.setWidth 16) bytes
  | .out :: calls, r0, bytes => r0 :: charsOut calls r0 bytes
  | _ :: calls, r0, bytes => charsOut calls r0 bytes

/-- The calls that keep the consoles the same: bytes are left for all the `getc`s, each of the
    characters that the `out`s print is written as its low byte, and there is nothing else. -/
@[mk_iff]
structure Harmless (charset : Charset) (calls : List Call) (c : Lc3.State) (j : Console) :
    Prop where
  in_notMem : .in ∉ calls
  halt_notMem : .halt ∉ calls
  bytes : calls.count .getc ≤ c.stdin.pending.length
  asBytes : ∀ before x after, charsOut calls (c.registers .r0) c.stdin.pending = before ++ x :: after →
    charset.AsByte (j.machine.stdout ++ before) x

theorem staySame_cons_iff {charset : Charset} {call : Call} {calls : List Call} {c : Lc3.State}
    {j : Console} (h : SameConsole charset c j) :
    StaySame charset (call :: calls) c j ↔
      ∃ c', trapOf call c = .ok c' ∧ SameConsole charset c' (methodOf call j) ∧
        StaySame charset calls c' (methodOf call j) := by
  constructor
  · intro hall
    obtain ⟨c', hplay, hsame⟩ := hall 1 (Nat.succ_le_succ (Nat.zero_le _))
    rw [List.take_succ_cons, List.take_zero] at hplay hsame
    obtain ⟨c₁, htrap, hnil⟩ := play_cons_ok.1 hplay
    obtain rfl := Except.ok.inj hnil
    refine ⟨c₁, htrap, hsame, fun k hk => ?_⟩
    obtain ⟨c₂, hplay, hsame⟩ := hall (k + 1) (Nat.succ_le_succ hk)
    rw [List.take_succ_cons] at hplay hsame
    obtain ⟨c₃, htrap', hrest⟩ := play_cons_ok.1 hplay
    obtain rfl := Except.ok.inj (htrap.symm.trans htrap')
    exact ⟨c₂, hrest, hsame⟩
  · rintro ⟨c', htrap, hsame, hrest⟩ k hk
    cases k with
    | zero => exact ⟨c, rfl, h⟩
    | succ k =>
        obtain ⟨c₂, hplay, hsame'⟩ := hrest k (Nat.le_of_succ_le_succ hk)
        rw [List.take_succ_cons]
        exact ⟨c₂, play_cons_ok.2 ⟨c', htrap, hplay⟩, hsame'⟩

theorem Harmless.answered {charset : Charset} {call : Call} {calls : List Call} {c : Lc3.State}
    {j : Console} (h : Harmless charset (call :: calls) c j) : Answered charset c j call := by
  cases call with
  | getc =>
      intro hpending
      have hbytes := h.bytes
      rw [hpending, List.count_cons_self, List.length_nil] at hbytes
      omega
  | out =>
      have hfirst := h.asBytes [] _ _ rfl
      rwa [List.append_nil] at hfirst
  | «in» => exact h.in_notMem (List.mem_cons_self ..)
  | halt => exact h.halt_notMem (List.mem_cons_self ..)

/-- A statement about every element of a list and what stands before it, for the first one and for
    the others. -/
theorem forall_split_cons_iff {α : Type} {P : List α → α → Prop} {a : α} {rest : List α} :
    (∀ before x after, a :: rest = before ++ x :: after → P before x) ↔
      P [] a ∧ ∀ before x after, rest = before ++ x :: after → P (a :: before) x := by
  constructor
  · intro h
    exact ⟨h [] a rest rfl, fun before x after heq => h (a :: before) x after (heq ▸ rfl)⟩
  · rintro ⟨hfirst, hrest⟩ before x after heq
    cases before with
    | nil =>
        obtain ⟨rfl, -⟩ := List.cons.inj heq
        exact hfirst
    | cons b before =>
        obtain ⟨rfl, htail⟩ := List.cons.inj heq
        exact hrest before x after htail

/-- What an answered call leaves to the calls after it. -/
theorem harmless_cons_iff {charset : Charset} {call : Call} {calls : List Call} {c c' : Lc3.State}
    {j : Console} (h : SameConsole charset c j) (htrap : trapOf call c = .ok c')
    (hanswered : Answered charset c j call) :
    Harmless charset (call :: calls) c j ↔ Harmless charset calls c' (methodOf call j) := by
  rw [harmless_iff, harmless_iff]
  cases call with
  | getc =>
      obtain ⟨b, rest, hpending⟩ := List.exists_cons_of_ne_nil hanswered
      obtain ⟨c₁, htrap₁, -, hrest, hr0, hstdout⟩ := getc_byte h hpending
      obtain rfl := Except.ok.inj (htrap₁.symm.trans htrap)
      have hchars : charsOut (.getc :: calls) (c.registers .r0) c.stdin.pending
          = charsOut calls (c₁.registers .r0) c₁.stdin.pending := by
        rw [hpending, hrest, hr0]
        rfl
      have hcount : (Call.getc :: calls).count .getc ≤ c.stdin.pending.length ↔
          calls.count .getc ≤ c₁.stdin.pending.length := by
        rw [List.count_cons_self, hpending, hrest, List.length_cons]
        exact Nat.add_le_add_iff_right
      rw [hchars, hcount, methodOf, hstdout]
      simp only [List.mem_cons, reduceCtorEq, false_or]
  | out =>
      obtain rfl := Except.ok.inj htrap
      have hchars : charsOut (.out :: calls) (c.registers .r0) c.stdin.pending
          = c.registers .r0 :: charsOut calls (c.registers .r0) c.stdin.pending := rfl
      have hstdout : (methodOf .out j).machine.stdout = j.machine.stdout ++ [c.registers .r0] :=
        out_stdout h
      have hcount : (Call.out :: calls).count .getc = calls.count .getc :=
        List.count_cons_of_ne (by decide)
      have hfirst : charset.AsByte (j.machine.stdout ++ []) (c.registers .r0) := by
        rw [List.append_nil]
        exact hanswered
      rw [hchars, hcount, hstdout, forall_split_cons_iff, and_iff_right hfirst]
      simp only [List.mem_cons, reduceCtorEq, false_or, List.append_assoc, List.singleton_append]
      rfl
  | «in» => exact hanswered.elim
  | halt => exact hanswered.elim

/-- For every charset that writes ASCII as it is and every sequence of calls, on machines with the
    same `R0`, output and input, the input being a stream that ends: the consoles are the same after
    each call if and only if there is no `in` and no `halt`, the input has a byte for every `getc`,
    and every character that an `out` prints is written as its low byte. -/
theorem traps_agree_iff {charset : Charset} {c : Lc3.State} {j : Console}
    (h : SameConsole charset c j) (calls : List Call) :
    StaySame charset calls c j ↔ Harmless charset calls c j := by
  induction calls generalizing c j with
  | nil =>
      refine iff_of_true (fun k _ => ?_) ⟨by simp, by simp, by simp, by simp [charsOut]⟩
      rw [List.take_nil]
      exact ⟨c, rfl, h⟩
  | cons call calls ih =>
      rw [staySame_cons_iff h]
      constructor
      · rintro ⟨c', htrap, hsame, hrest⟩
        have hanswered := (call_iff h call).1 ⟨c', htrap, hsame⟩
        exact (harmless_cons_iff h htrap hanswered).2 ((ih hsame).1 hrest)
      · intro hharmless
        obtain ⟨c', htrap, hsame⟩ := (call_iff h call).2 hharmless.answered
        have hrest := (harmless_cons_iff h htrap hharmless.answered).1 hharmless
        exact ⟨c', htrap, hsame, (ih hsame).2 hrest⟩

/-- `ISO-8859-1`: a character is its byte, or else a question mark. -/
def latin1 : Charset where
  encode text := text.map fun c => if c.toNat < 256 then c.setWidth 8 else 0x3F
  grows text c := by
    rw [List.map_append]
    exact List.prefix_append ..
  plain text c h := ⟨[], by simp [Nat.lt_trans h (by decide : 128 < 256)]⟩

theorem latin1_asByte (text : List Char16) {c : Char16} (h : c.toNat < 256) :
    latin1.AsByte text c := by
  simp [Charset.AsByte, latin1, h, lowByte]

/-- The Java machine in the state of a C machine. -/
def consoleOf (c : Lc3.State) : Console where
  machine :=
    { initialState with
      registers := fun r => (c.registers r).setWidth 32,
      running := c.running,
      stdout := c.stdout.map (BitVec.setWidth 16) }
  stdin := c.stdin.pending

theorem sameConsole_consoleOf {c : Lc3.State} (h : c.stdin.closed = true) :
    SameConsole latin1 c (consoleOf c) where
  r0 := rfl
  stdout := by
    have hbyte : ∀ b : Byte, (b.setWidth 16).toNat < 256 := fun b => by
      have hlt := b.isLt
      rw [BitVec.toNat_setWidth]
      omega
    simp only [latin1, consoleOf, List.map_map, Function.comp_def, hbyte, if_true]
    simp
  stdin := rfl
  closed := h
  running := rfl

/-- Two bytes, one of them no ASCII, echoed. -/
theorem traps_agree_iff_echo :
    let c := Lc3.initialState { Lc3.noInput with buffered := [0x61, 0xE9] }
    StaySame latin1 [.getc, .out, .getc, .out] c (consoleOf c) := by
  intro c
  refine (traps_agree_iff (sameConsole_consoleOf rfl) [.getc, .out, .getc, .out]).2
    ⟨by decide, by decide, by decide, fun before x after heq => latin1_asByte _ ?_⟩
  have hx : x ∈ [(0x61 : Char16), 0xE9] := by
    change [(0x61 : Char16), 0xE9] = _ at heq
    rw [heq]
    exact List.mem_append_right _ (List.mem_cons_self ..)
  rcases List.mem_pair.1 hx with rfl | rfl
  · decide
  · decide

end Yavm.Java
