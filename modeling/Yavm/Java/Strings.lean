import Yavm.Java.Letters
import Yavm.Lc3.Strings

set_option autoImplicit false

/-! # The string traps of the Java machine

`puts` and `putsp` have one loop header: the character is read where the loop is initialised, and
each round tests it and increments the address. The bodies are those of the C machine
(`putsChars_eq`, `putspChars_eq`), but no round reads a character again, so the loop is left before
its first round or never (`returns_iff`), and in every round it prints what it has printed in the
first (`steps_stringRound`). On strings of letters the machines therefore agree exactly when the
string is empty (`strings_agree_iff`). -/

namespace Yavm.Java

open Basis
open Lc3 (Word Byte StoredAt unpacked packed)

/-! ## The methods -/

/-- `System.out.print` of some characters. -/
def State.print (s : State) (out : List Char16) : State :=
  { s with stdout := s.stdout ++ out }

/-- The variables of the loop, and the machine. -/
structure StringLoop where
  c : Char16
  currentAddress : JavaInt
  machine : State

/-- Up to the first test of `Character.isLetter(c)`. -/
def stringStart (s : State) : Except Stop StringLoop := do
  let currentAddress := s.registers .r0
  let c ← memoryRead currentAddress s
  return { c := c.setWidth 16, currentAddress, machine := s }

/-- The test, the body and `currentAddress++`. The error is that the loop has been left. -/
def stringRound (body : Char16 → List Char16) (l : StringLoop) : Except State StringLoop :=
  if isLetter l.c then
    .ok { l with
      machine := l.machine.print (body l.c), currentAddress := l.currentAddress + 1 }
  else
    .error l.machine

/-- What a string trap has done after some rounds: it has returned, or it is still in its loop. -/
def stringTrap (body : Char16 → List Char16) (rounds : ℕ) (s : State) :
    Except Stop (Except State StringLoop) :=
  (stringStart s).map (steps (stringRound body) rounds)

/-- What `puts` prints in a round. -/
def putsChars (c : Char16) : List Char16 :=
  [c]

def puts : ℕ → State → Except Stop (Except State StringLoop) :=
  stringTrap putsChars

/-- What `putsp` prints in a round. -/
def putspChars (c : Char16) : List Char16 :=
  let c1 : JavaInt := c.setWidth 32 &&& 0xFF
  let c2 : JavaInt := (c.setWidth 32).sshiftRight 8
  c1.setWidth 16 :: if c2.toInt > 0 then [c2.setWidth 16] else []

def putsp : ℕ → State → Except Stop (Except State StringLoop) :=
  stringTrap putspChars

/-- The method returns, after some number of rounds. -/
def Returns (method : ℕ → State → Except Stop (Except State StringLoop)) (s t : State) : Prop :=
  ∃ rounds, method rounds s = .ok (.error t)

/-! ## What a round prints -/

theorem toNat_lowByte_high (w : Word) : (Lc3.lowByte (w >>> 8)).toNat = (w >>> 8).toNat := by
  have hlt : (w >>> 8).toNat < 2 ^ 8 := by
    have hw := w.isLt
    rw [BitVec.toNat_ushiftRight, Nat.shiftRight_eq_div_pow]
    omega
  rw [Lc3.lowByte, BitVec.toNat_setWidth, Nat.mod_eq_of_lt hlt]

/-- Of a word with an empty high byte, `puts` prints what the C machine prints. -/
theorem putsChars_eq (b : Byte) :
    putsChars (b.setWidth 16) = (Lc3.putsBytes (b.setWidth 16)).map (BitVec.setWidth 16) := by
  have hb : Lc3.lowByte (b.setWidth 16) = b := by simp [Lc3.lowByte]
  rw [Lc3.putsBytes, hb]
  rfl

/-- Of every word, `putsp` prints what the C machine prints. -/
theorem putspChars_eq (w : Word) :
    putspChars w = (Lc3.putspBytes w).map (BitVec.setWidth 16) := by
  have hlow : (w.setWidth 32 &&& (0xFF : JavaInt)).setWidth 16
      = (Lc3.lowByte (w &&& 0xFF)).setWidth 16 := by
    rw [Lc3.lowByte_and_mask, show (0xFF : JavaInt) = BitVec.ofNat 32 (2 ^ 8 - 1) from rfl,
      and_mask_eq_setWidth]
    simp [Lc3.lowByte]
  have hhigh : (w.setWidth 32 : JavaInt).sshiftRight 8 = (w >>> 8).setWidth 32 :=
    sshiftRight_setWidth w (by decide) 8
  have hbyte : (Lc3.lowByte (w >>> 8)).setWidth 16 = w >>> 8 := by
    have hlt := (Lc3.lowByte (w >>> 8)).isLt
    apply BitVec.eq_of_toNat_eq
    rw [BitVec.toNat_setWidth, Nat.mod_eq_of_lt (by omega), toNat_lowByte_high]
  have hpos : ((w >>> 8).setWidth 32 : JavaInt).toInt > 0 ↔ Lc3.lowByte (w >>> 8) ≠ 0 := by
    rw [toInt_setWidth_32, ne_eq, ← BitVec.toNat_inj, toNat_lowByte_high]
    change ((w >>> 8).toNat : ℤ) > 0 ↔ ¬ (w >>> 8).toNat = 0
    omega
  simp only [putspChars, Lc3.putspBytes, hlow, hhigh, hpos, setWidth_16_setWidth_32, List.map_cons]
  split
  · rw [List.map_singleton, hbyte]
  · rfl

/-! ## Where the loops end -/

@[simp]
theorem State.print_print (s : State) (out₁ out₂ : List Char16) :
    (s.print out₁).print out₂ = s.print (out₁ ++ out₂) := by
  simp [print]

@[simp]
theorem State.print_nil (s : State) : s.print [] = s := by
  simp [print]

/-- On a letter the loop goes on, and prints the same in every round. -/
theorem steps_stringRound (body : Char16 → List Char16) {l : StringLoop}
    (h : isLetter l.c = true) (n : ℕ) :
    steps (stringRound body) n l = .ok { l with
      machine := l.machine.print (List.replicate n (body l.c)).flatten,
      currentAddress := l.currentAddress + BitVec.ofNat 32 n } := by
  induction n with
  | zero => simp
  | succ n ih =>
      have haddress : l.currentAddress + BitVec.ofNat 32 n + 1
          = l.currentAddress + BitVec.ofNat 32 (n + 1) := by
        rw [BitVec.add_assoc, BitVec.ofNat_add]
        rfl
      refine steps_succ_ok.2 ⟨_, ih, ?_⟩
      rw [stringRound, if_pos h, haddress, State.print_print, List.replicate_succ',
        List.flatten_append, List.flatten_singleton]

/-- A character that is no letter ends the loop before its first round, and a letter keeps it going
    for ever. -/
theorem returns_iff (body : Char16 → List Char16) {s t : State} {l : StringLoop}
    (hstart : stringStart s = .ok l) :
    Returns (stringTrap body) s t ↔ isLetter l.c = false ∧ t = l.machine := by
  simp only [Returns, stringTrap, hstart, Except.map, Except.ok.injEq]
  by_cases hletter : isLetter l.c = true
  · simp [steps_stringRound body hletter, hletter]
  · have hround : stringRound body l = .error l.machine := if_neg hletter
    simp only [hletter, true_and] at hround ⊢
    constructor
    · intro ⟨rounds, hrounds⟩
      cases rounds with
      | zero => simp at hrounds
      | succ n =>
          rw [steps_succ_of_error hround, Except.error.injEq] at hrounds
          exact hrounds.symm
    · intro ht
      exact ⟨1, by rw [ht, steps_succ_of_error hround]⟩

/-! ## Strings of letters -/

/-- The method starts on the word that `R0` points to. -/
theorem stringStart_eq {s : State} {a w : Word} (hr0 : s.registers .r0 = a.setWidth 32)
    (hcell : s.memory ⟨a.toNat, a.isLt⟩ = w.setWidth 32) :
    stringStart s = .ok { c := w, currentAddress := a.setWidth 32, machine := s } := by
  rw [stringStart, hr0, memoryRead_word, hcell]
  simp only [bind, Except.bind, setWidth_16_setWidth_32]
  rfl

theorem isLetter_head_unpacked {str : List Byte} (hstr : ∀ b ∈ str, AsciiLetter b) :
    isLetter ((unpacked str).headD 0) = true ↔ str ≠ [] := by
  cases str with
  | nil => exact iff_of_false (Bool.eq_false_iff.1 isLetter_zero) (fun hne => hne rfl)
  | cons b rest =>
      have hb : isLetter (b.setWidth 16) = true := isLetter_ascii (hstr b (by simp))
      simpa [unpacked] using hb

theorem isLetter_head_packed {str : List Byte} (hstr : ∀ b ∈ str, AsciiLetter b) :
    isLetter ((packed str).headD 0) = true ↔ str ≠ [] := by
  fun_cases packed str with
  | case1 => exact iff_of_false (Bool.eq_false_iff.1 isLetter_zero) (fun hne => hne rfl)
  | case2 last =>
      have hword : (0 : Byte) ++ last = last.setWidth 16 :=
        (BitVec.setWidth_eq_append (w := 16) (by decide)).symm
      have hlast : isLetter ((0 : Byte) ++ last) = true := by
        rw [hword]
        exact isLetter_ascii (hstr last (by simp))
      simpa [packed] using hlast
  | case3 first second rest =>
      have hpair : isLetter (second ++ first) = true :=
        isLetter_packed (hstr second (by simp)) (hstr first (by simp))
      simpa [packed] using hpair

/-- Both traps end, and the Java machine prints the characters that the C machine prints. -/
def SameOutput (trapC : Lc3.State → Except Lc3.Stop Lc3.State)
    (method : ℕ → State → Except Stop (Except State StringLoop)) (c : Lc3.State) (j : State) :
    Prop :=
  ∃ c' j' out, trapC c = .ok c' ∧ Returns method j j' ∧ c'.stdout = c.stdout ++ out ∧
    j'.stdout = j.stdout ++ out.map (BitVec.setWidth 16)

/-- In a layout whose first word is a letter exactly when the string is not empty, a method agrees
    with the trap of the C machine on the empty string, and on no other. -/
theorem sameOutput_iff (body : Char16 → List Char16)
    {trapC : Lc3.State → Except Lc3.Stop Lc3.State} {c : Lc3.State} {j : State} {str : List Byte}
    {words : List Word} (hC : trapC c = .ok (c.print str))
    (hr0 : j.registers .r0 = (c.registers .r0).setWidth 32)
    (hmemory : ∀ k : Fin Lc3.uint16Max, j.memory k.castSucc = (c.memory k).setWidth 32)
    (hstored : StoredAt c.memory (c.registers .r0).toNat (words ++ [0]))
    (hletter : isLetter (words.headD 0) = true ↔ str ≠ []) :
    SameOutput trapC (stringTrap body) c j ↔ str = [] := by
  obtain ⟨hlt, hfirst⟩ := hstored.headD
  have hstart := stringStart_eq hr0 (hmemory ⟨_, hlt⟩)
  constructor
  · intro ⟨c', j', out, _, hreturns, _⟩
    by_contra hne
    obtain ⟨hno, -⟩ := (returns_iff body hstart).1 hreturns
    rw [hfirst, hletter.2 hne] at hno
    exact absurd hno (by decide)
  · intro hempty
    have hno : isLetter (c.memory ⟨_, hlt⟩) = false := by
      rw [hfirst, ← Bool.not_eq_true, hletter]
      exact fun hne => hne hempty
    rw [hempty] at hC
    exact ⟨_, j, [], hC, (returns_iff body hstart).2 ⟨hno, rfl⟩, rfl, (List.append_nil _).symm⟩

/-- For every string of ASCII letters, with the same word in `R0` and the same memory: `PUTS` on the
    string stored one letter per word and `PUTSP` on the string packed two letters per word end with
    the same output on both machines if and only if the string is empty. -/
theorem strings_agree_iff {str : List Byte} (hstr : ∀ b ∈ str, AsciiLetter b) {c : Lc3.State}
    {j : State} (hr0 : j.registers .r0 = (c.registers .r0).setWidth 32)
    (hmemory : ∀ k : Fin Lc3.uint16Max, j.memory k.castSucc = (c.memory k).setWidth 32) :
    (StoredAt c.memory (c.registers .r0).toNat (unpacked str ++ [0]) →
      (SameOutput Lc3.trapPuts puts c j ↔ str = [])) ∧
    (StoredAt c.memory (c.registers .r0).toNat (packed str ++ [0]) →
      (SameOutput Lc3.trapPutsp putsp c j ↔ str = [])) := by
  have hzero : 0 ∉ str := fun hmem => absurd (hstr 0 hmem) (by decide)
  constructor
  · intro hstored
    exact sameOutput_iff putsChars (Lc3.trapPuts_stored hzero hstored) hr0 hmemory hstored
      (isLetter_head_unpacked hstr)
  · intro hstored
    exact sameOutput_iff putspChars (Lc3.trapPutsp_stored hzero hstored) hr0 hmemory hstored
      (isLetter_head_packed hstr)

/-- The C machine with these words from 0 on, where `R0` points. -/
def cHolding (words : List Word) : Lc3.State :=
  { Lc3.initialState Lc3.noInput with
    memory := fun i => (words[i.val]?).getD 0, registers := fun _ => 0 }

/-- The Java machine with the same. -/
def javaHolding (words : List Word) : State :=
  { initialState with
    memory := fun i => ((words[i.val]?).getD 0).setWidth 32, registers := fun _ => 0 }

theorem holding_memory (words : List Word) (k : Fin Lc3.uint16Max) :
    (javaHolding words).memory k.castSucc = ((cHolding words).memory k).setWidth 32 :=
  rfl

/-- The machines agree on the empty string, and on `abc` in neither layout. -/
theorem strings_agree_iff_abc :
    (SameOutput Lc3.trapPuts puts (cHolding []) (javaHolding []) ∧
        SameOutput Lc3.trapPutsp putsp (cHolding []) (javaHolding [])) ∧
      ¬ SameOutput Lc3.trapPuts puts (cHolding [0x61, 0x62, 0x63]) (javaHolding [0x61, 0x62, 0x63]) ∧
      ¬ SameOutput Lc3.trapPutsp putsp (cHolding [0x6261, 0x63]) (javaHolding [0x6261, 0x63]) := by
  have hnil : ∀ b ∈ ([] : List Byte), AsciiLetter b := by simp
  have habc : ∀ b ∈ ([0x61, 0x62, 0x63] : List Byte), AsciiLetter b := by simp [AsciiLetter]
  have hempty := strings_agree_iff hnil rfl (holding_memory [])
  have hunpacked := (strings_agree_iff habc rfl (holding_memory [0x61, 0x62, 0x63])).1
  have hpacked := (strings_agree_iff habc rfl (holding_memory [0x6261, 0x63])).2
  refine ⟨⟨(hempty.1 ?_).2 rfl, (hempty.2 ?_).2 rfl⟩, fun hsame => ?_, fun hsame => ?_⟩
  · exact ⟨⟨by decide, rfl⟩, trivial⟩
  · exact ⟨⟨by decide, rfl⟩, trivial⟩
  · refine absurd ((hunpacked ?_).1 hsame) (by decide)
    exact ⟨⟨by decide, rfl⟩, ⟨by decide, rfl⟩, ⟨by decide, rfl⟩, ⟨by decide, rfl⟩, trivial⟩
  · refine absurd ((hpacked ?_).1 hsame) (by decide)
    exact ⟨⟨by decide, rfl⟩, ⟨by decide, rfl⟩, ⟨by decide, rfl⟩, trivial⟩

/-- The string `a` at `0x3000`, which is the same in both layouts: the Java methods do not
    return. -/
theorem strings_disagree_a :
    ∃ c j, c.registers .r0 = 0x3000 ∧ j.registers .r0 = (c.registers .r0).setWidth 32 ∧
      (∀ k : Fin Lc3.uint16Max, j.memory k.castSucc = (c.memory k).setWidth 32) ∧
      StoredAt c.memory (c.registers .r0).toNat (unpacked [0x61] ++ [0]) ∧
      StoredAt c.memory (c.registers .r0).toNat (packed [0x61] ++ [0]) ∧
      ¬ SameOutput Lc3.trapPuts puts c j ∧ ¬ SameOutput Lc3.trapPutsp putsp c j := by
  let c : Lc3.State := { Lc3.initialState Lc3.noInput with
    memory := fun i => if i.val = 0x3000 then 0x61 else 0, registers := fun _ => 0x3000 }
  let j : State := { initialState with
    memory := fun i => if i.val = 0x3000 then 0x61 else 0, registers := fun _ => 0x3000 }
  have hstr : ∀ b ∈ ([0x61] : List Byte), AsciiLetter b := by simp [AsciiLetter]
  have hzero : 0 ∉ ([0x61] : List Byte) := by decide
  have hmemory : ∀ k : Fin Lc3.uint16Max, j.memory k.castSucc = (c.memory k).setWidth 32 := by
    intro k
    by_cases hk : k.val = 0x3000 <;> simp [c, j, hk]
  have hunpacked : StoredAt c.memory (c.registers .r0).toNat (unpacked [0x61] ++ [0]) :=
    ⟨⟨by decide, rfl⟩, ⟨by decide, rfl⟩, trivial⟩
  have hpacked : StoredAt c.memory (c.registers .r0).toNat (packed [0x61] ++ [0]) :=
    ⟨⟨by decide, rfl⟩, ⟨by decide, rfl⟩, trivial⟩
  refine ⟨c, j, rfl, rfl, hmemory, hunpacked, hpacked, ?_, ?_⟩
  · intro h
    have hempty := (sameOutput_iff putsChars (Lc3.trapPuts_stored hzero hunpacked) rfl hmemory
      hunpacked (isLetter_head_unpacked hstr)).1 h
    exact absurd hempty (by decide)
  · intro h
    have hempty := (sameOutput_iff putspChars (Lc3.trapPutsp_stored hzero hpacked) rfl hmemory
      hpacked (isLetter_head_packed hstr)).1 h
    exact absurd hempty (by decide)

end Yavm.Java
