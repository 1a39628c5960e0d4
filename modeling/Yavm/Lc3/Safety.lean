import Yavm.Lc3.ControlFlow
import Yavm.Lc3.Stuck

set_option autoImplicit false

/-! # Programs that cannot go wrong

`emulate` has no defined behaviour once an index or a pointer leaves `memory`, and it has no checks
of its own: what a guest program may do is up to its text. `Sealed` is the condition on the text:
no address that a register or a changeable word decides, no store into the program, no way out of it
but a `HALT`. `sealed_iff` shows that it is the exact condition for every step from inside the
program to be defined and to stay inside. A machine that starts inside a sealed program, and the
process around it, are never in trouble (`sealed_main`), and if the instructions are plain as well,
the program runs as it reads (`sealed_plain`). -/

namespace Yavm.Lc3

open Basis Isa

/-! ## The text of a program -/

/-- The address at a distance from the instruction behind `a`. -/
def targetOf {n : ℕ} (a : Word) (offset : BitVec n) : Word :=
  a + 1 + offset.signExtend 16

/-- The words that a read of `a` can return while the program is in place, where they are known. -/
def wordsAt (prog : List Instr) (a : Word) : Option (List Word) :=
  if a = mrKbsr then some [0, statusBit]
  else if a = mrDsr then some [statusBit]
  else if a = mrDdr then some [0]
  else (codeAt prog a).map fun i => [i.encode]

/-- The instruction, at `a` in the program, stays in `memory` and does not store into the program,
    whatever the registers and the words outside the program are. -/
def Tame (prog : List Instr) (a : Word) : Instr → Prop
  | .ld _ offset => targetOf a offset ≠ 0xFFFF
  | .st _ offset => targetOf a offset ≠ 0xFFFF ∧ codeAt prog (targetOf a offset) = none
  | .ldi _ offset =>
    ∃ pointers, wordsAt prog (targetOf a offset) = some pointers ∧ ∀ p ∈ pointers, p ≠ 0xFFFF
  | .sti _ offset =>
    ∃ pointers, wordsAt prog (targetOf a offset) = some pointers ∧
      ∀ p ∈ pointers, p ≠ 0xFFFF ∧ codeAt prog p = none
  | .ldr .. | .str .. | .jmp _ => False
  -- through `R7`, which has just been written, it goes to the next instruction
  | .jsrr base => base = 7
  | .trap vector =>
    TrapCode.decode (vector.setWidth 16) ≠ some .puts ∧
      TrapCode.decode (vector.setWidth 16) ≠ some .putsp
  | _ => True

/-- Every instruction is tame where it is, and halts or goes on in the program. -/
def Sealed (prog : List Instr) : Prop :=
  ∀ a i, codeAt prog a = some i →
    Tame prog a i ∧ (Halts i ∨ (codeAt prog (nextPc i a)).isSome = true)

/-- The program is in place, and the machine is in it for as long as it runs. -/
structure Inside (prog : List Instr) (s : State) : Prop where
  inPlace : InPlace prog s.devices
  pc : s.running = true → (codeAt prog (s.registers .pc)).isSome = true

/-- The next step is defined and stays inside, or it waits for a key that is never typed. -/
def Safe (prog : List Instr) (s : State) : Prop :=
  (∃ t, emulateStep s = .ok t ∧ Inside prog t) ∨ emulateStep s = .error .blocked

section

variable {prog : List Instr} (hlen : 0x3000 + prog.length ≤ 0xFE00)
include hlen

/-- The program is below the device registers. -/
theorem codeAt_below {a : Word} (h : (codeAt prog a).isSome = true) :
    ¬ IsDevice a ∧ a ≠ 0xFFFF := by
  obtain ⟨i, hcode⟩ := Option.isSome_iff_exists.1 h
  have hlt := Nat.lt_of_lt_of_le (codeAt_lt hcode).2 hlen
  refine ⟨?_, ?_⟩
  · rintro (rfl | rfl | rfl | rfl) <;> exact absurd hlt (by decide)
  · rintro rfl
    exact absurd hlt (by decide)

theorem ne_top_of_wordsAt {a : Word} {words : List Word} (h : wordsAt prog a = some words) :
    a ≠ 0xFFFF := by
  unfold wordsAt at h
  split_ifs at h with h₁ h₂ h₃
  · exact h₁ ▸ (by decide)
  · exact h₂ ▸ (by decide)
  · exact h₃ ▸ (by decide)
  · obtain ⟨i, hcode, -⟩ := Option.map_eq_some_iff.1 h
    exact (codeAt_below hlen (Option.isSome_iff_exists.2 ⟨i, hcode⟩)).2

/-- The known words are those that are read. -/
theorem peek_mem {s : State} (hI : InPlace prog s.devices) {a : Word} {words : List Word}
    (h : wordsAt prog a = some words) : peek a s ∈ words := by
  unfold wordsAt at h
  split_ifs at h with h₁ h₂ h₃
  · obtain rfl := Option.some.inj h
    subst h₁
    change (if s.stdin.select.1 then statusBit else 0) ∈ _
    split <;> simp
  · obtain rfl := Option.some.inj h
    subst h₂
    exact List.mem_singleton_self _
  · obtain rfl := Option.some.inj h
    subst h₃
    exact List.mem_singleton_self _
  · obtain ⟨i, hcode, rfl⟩ := Option.map_eq_some_iff.1 h
    obtain ⟨hlt, hcell⟩ := hI a i hcode
    have hdev := (codeAt_below hlen (Option.isSome_iff_exists.2 ⟨i, hcode⟩)).1
    rw [peek_eq (memoryRead_cell s hdev hlt)]
    exact List.mem_singleton.2 hcell

end

/-! ## One step -/

/-- Relative to the program counter after the fetch, an address is relative to the instruction. -/
theorem Fetched.near {s s₁ : State} (h : Fetched s s₁) (w : Word) :
    pcRelative w s₁ = targetOf (s.registers .pc) (w.extractLsb' 0 9) := by
  rw [pcRelative, h.pc, sext_eq (by decide)]
  rfl

namespace Tame

section

variable {prog : List Instr} {s s₁ : State} {w : Word}
  (htame : Tame prog (s.registers .pc) (Instr.decode w))
include htame

/-- One case per opcode: a tame instruction stays in `memory`. -/
theorem addresses (hlen : 0x3000 + prog.length ≤ 0xFE00) (hfetched : Fetched s s₁)
    (hI : InPlace prog s₁.devices) : 0xFFFF ∉ effectiveAddresses w s₁ := by
  have hnear := hfetched.near w
  rw [decode_eq] at htame
  unfold effectiveAddresses
  cases hop : Op.decode w
  all_goals
    rw [hop] at htame
    simp only [List.mem_cons, List.not_mem_nil, or_false, not_or, not_false_eq_true]
  case ld =>
    rw [hnear]
    exact Ne.symm htame
  case st =>
    rw [hnear]
    exact Ne.symm htame.1
  case ldi =>
    obtain ⟨pointers, hwords, hne⟩ := htame
    rw [hnear]
    exact ⟨(ne_top_of_wordsAt hlen hwords).symm, (hne _ (peek_mem hlen hI hwords)).symm⟩
  case sti =>
    obtain ⟨pointers, hwords, hne⟩ := htame
    rw [hnear]
    exact ⟨(ne_top_of_wordsAt hlen hwords).symm, (hne _ (peek_mem hlen hI hwords)).1.symm⟩
  case ldr | str => exact htame.elim

/-- One case per store: a tame instruction does not store into the program. -/
theorem spares (hlen : 0x3000 + prog.length ≤ 0xFE00) (hfetched : Fetched s s₁)
    (hI : InPlace prog s₁.devices) {a v : Word} (hstore : storeOf w s₁ = some (a, v)) :
    codeAt prog a = none := by
  have hnear := hfetched.near w
  rw [decode_eq] at htame
  unfold storeOf at hstore
  cases hop : Op.decode w
  all_goals
    rw [hop] at htame
    simp only [hop, Option.some.injEq, Prod.mk.injEq, reduceCtorEq] at hstore
  case st =>
    rw [← hstore.1, hnear]
    exact htame.2
  case sti =>
    obtain ⟨pointers, hwords, hspares⟩ := htame
    rw [← hstore.1, hnear]
    exact (hspares _ (peek_mem hlen hI hwords)).2
  case str => exact htame.elim

/-- A tame trap prints no string. -/
theorem prints_no_string : ¬ (trapOf w = some .puts ∨ trapOf w = some .putsp) := by
  rw [decode_eq] at htame
  by_cases hop : Op.decode w = .trap
  · rw [hop] at htame
    simp only [Tame, trapCode_vector] at htame
    rw [trapOf_eq hop]
    exact not_or.2 htame
  · rw [trapOf_of_ne hop]
    simp

end

/-- Where a tame instruction goes. -/
theorem pc {prog : List Instr} {s t : State} {w : Word} (h : Executes s w t)
    (htame : Tame prog (s.registers .pc) (Instr.decode w)) :
    t.registers .pc = nextPc (Instr.decode w) (s.registers .pc) := by
  have hdecode := decode_eq w
  cases hop : Op.decode w
  all_goals rw [hop] at hdecode
  case jmp =>
    rw [hdecode] at htame
    exact htame.elim
  case jsr =>
    by_cases hflag : w.extractLsb' 11 1 = 0b1#1
    · simp only [if_pos hflag] at hdecode
      exact pc_direct h (hdecode ▸ trivial)
    · simp only [if_neg hflag] at hdecode
      rw [hdecode] at htame
      have hbase : w.extractLsb' 6 3 = 7 := htame
      -- the handler writes `R7` before it reads the base register
      have hlink : baseOf w = .r7 := by
        rw [baseOf, low3_shift, hbase]
        rfl
      rw [jsr_pc h hop, if_neg (mt (flag_iff w 11).2 hflag), hlink, Function.update_self, hdecode]
      rfl
  all_goals exact pc_direct h (hdecode ▸ trivial)

end Tame

theorem InPlace.of_memory {prog : List Instr} {d d' : Devices} (hI : InPlace prog d)
    (hmem : d'.memory = d.memory) : InPlace prog d' := by
  intro a i hcode
  obtain ⟨hlt, hcell⟩ := hI a i hcode
  exact ⟨hlt, (congrFun hmem _).trans hcell⟩

/-- Inside the program, its own instruction is fetched, and nothing else is read. -/
theorem Inside.fetch {prog : List Instr} (hlen : 0x3000 + prog.length ≤ 0xFE00) {s : State}
    (hin : Inside prog s) {i : Instr} (hcode : codeAt prog (s.registers .pc) = some i) :
    ∃ s₁, fetch s = .ok (i.encode, s₁) ∧ s₁.stdin = s.stdin := by
  obtain ⟨hlt, hcell⟩ := hin.inPlace _ i hcode
  have hdev := (codeAt_below hlen (Option.isSome_iff_exists.2 ⟨i, hcode⟩)).1
  refine ⟨_, (memoryRead_cell _ hdev hlt).trans (congrArg Except.ok (Prod.ext hcell rfl)), rfl⟩

/-- In a sealed program every step is safe. -/
theorem Sealed.safe {prog : List Instr} (h : Sealed prog)
    (hlen : 0x3000 + prog.length ≤ 0xFE00) {s : State} (hin : Inside prog s)
    (hrun : s.running = true) : Safe prog s := by
  obtain ⟨i, hcode⟩ := Option.isSome_iff_exists.1 (hin.pc hrun)
  obtain ⟨s₁, hfetch, -⟩ := hin.fetch hlen hcode
  obtain ⟨htame, hnext⟩ := h _ _ hcode
  rw [← Instr.decode_encode i] at htame hnext
  generalize i.encode = w at hfetch htame hnext
  have hfetched := fetch_fetched hfetch
  have hI₁ : InPlace prog s₁.devices := hin.inPlace.of_memory hfetched.memory
  rw [Safe, emulateStep_of_fetch hrun hfetch]
  cases hdispatch : dispatch w s₁ with
  | ok t =>
      have hexec : Executes s w t := ⟨s₁, hfetch, hdispatch⟩
      have hspares : SparesCode prog s := by
        intro w' s' hfetch' a v hstore
        obtain ⟨rfl, rfl⟩ := Prod.mk.inj (Except.ok.inj (hfetch.symm.trans hfetch'))
        exact htame.spares hlen hfetched hI₁ hstore
      refine Or.inl ⟨t, rfl, hin.inPlace.step hspares hexec, fun hrunning => ?_⟩
      rw [htame.pc hexec]
      exact hnext.resolve_left ((running_iff hexec).1 hrunning).2
  | error x =>
      rcases dispatch_eq_error hdispatch with ⟨i, rfl⟩ | ⟨rfl, -⟩ | ⟨-, htrap⟩
      · exact absurd ((dispatch_index_iff w s₁).1 ⟨i, hdispatch⟩)
          (htame.addresses hlen hfetched hI₁)
      · exact Or.inr rfl
      · exact absurd htrap htame.prints_no_string

/-! ## Whole runs -/

section

variable {prog : List Instr}

/-- What is executed inside the program is its own instruction. -/
theorem Inside.code (hlen : 0x3000 + prog.length ≤ 0xFE00) {s t : State} {w : Word}
    (hin : Inside prog s) (hrun : s.running = true) (hexec : Executes s w t) :
    codeAt prog (s.registers .pc) = some (Instr.decode w) := by
  obtain ⟨i, hcode⟩ := Option.isSome_iff_exists.1 (hin.pc hrun)
  obtain ⟨s₁, hfetch, -⟩ := hexec
  rw [hcode, hin.inPlace.fetch hlen hcode hfetch]

/-- Until its last step a run has not halted. -/
theorem running_before {s t u : State} {n k : ℕ} (hrun : steps emulateStep n s = .ok t)
    (hk : k < n) (hu : steps emulateStep k s = .ok u) : u.running = true := by
  obtain ⟨v, hv⟩ := steps_prefix hrun (Nat.succ_le_of_lt hk)
  obtain ⟨u', hu', hstep⟩ := steps_succ_ok.1 hv
  obtain rfl := Except.ok.inj (hu'.symm.trans hu)
  exact (emulateStep_eq_ok.1 hstep).1

namespace Sealed

variable (h : Sealed prog) (hlen : 0x3000 + prog.length ≤ 0xFE00)
include h hlen

theorem step {s t : State} (hin : Inside prog s) (hstep : emulateStep s = .ok t) :
    Inside prog t := by
  rcases h.safe hlen hin (emulateStep_eq_ok.1 hstep).1 with ⟨t', ht, hin'⟩ | hblocked
  · obtain rfl := Except.ok.inj (ht.symm.trans hstep)
    exact hin'
  · simp [hstep] at hblocked

/-- A step that is not made waits for a key, or the machine has halted. -/
theorem blocked {s : State} {e : Stop} (hin : Inside prog s) (hstep : emulateStep s = .error e)
    (he : e ≠ .halted) : e = .blocked := by
  by_cases hrun : s.running = true
  · rcases h.safe hlen hin hrun with ⟨t, ht, -⟩ | hblocked
    · simp [hstep] at ht
    · exact Except.error.inj (hstep.symm.trans hblocked)
  · rw [emulateStep, if_neg hrun] at hstep
    exact absurd (Except.error.inj hstep).symm he

theorem run {s t : State} {n : ℕ} (hin : Inside prog s) (hrun : steps emulateStep n s = .ok t) :
    Inside prog t :=
  steps_invariant (Inside prog) (fun _ _ => h.step hlen) hin hrun

/-- By induction on the number of steps: the program counter is where the text leads. -/
theorem path {s t : State} {n : ℕ} (hin : Inside prog s) (hrun : steps emulateStep n s = .ok t) :
    t.registers .pc = (textStep prog)^[n] (s.registers .pc) := by
  induction n generalizing t with
  | zero =>
      obtain rfl := Except.ok.inj hrun
      rfl
  | succ n ih =>
      obtain ⟨u, hu, hstep⟩ := steps_succ_ok.1 hrun
      obtain ⟨hrunning, w, hexec⟩ := emulateStep_eq_ok.1 hstep
      have hcode := (h.run hlen hin hu).code hlen hrunning hexec
      rw [(h _ _ hcode).1.pc hexec, Function.iterate_succ_apply', ← ih hu, textStep, hcode]

/-- A machine that has halted in a sealed program did so on its first way through it. -/
theorem halted {s t : State} {n : ℕ} (hin : Inside prog s) (hrunning : s.running = true)
    (hrun : steps emulateStep n s = .ok t) (hhalted : t.running = false) : n ≤ prog.length := by
  obtain ⟨k, u, w, rfl, hu, hurunning, hexec, hhalt⟩ := exists_halt hrunning hrun hhalted
  -- what is executed on the way, and what the machine is like behind it
  have hway : ∀ j ≤ k, ∃ w' v, codeAt prog ((textStep prog)^[j] (s.registers .pc))
      = some (Instr.decode w') ∧ steps emulateStep (j + 1) s = .ok v ∧
        (v.running = true → ¬ Halts (Instr.decode w')) := by
    intro j hj
    obtain ⟨v, hv⟩ := steps_prefix hrun (Nat.succ_le_succ hj)
    obtain ⟨u', hu', hstep⟩ := steps_succ_ok.1 hv
    obtain ⟨hrunning', w', hexec'⟩ := emulateStep_eq_ok.1 hstep
    refine ⟨w', v, ?_, hv, fun hv => ((running_iff hexec').1 hv).2⟩
    rw [← h.path hlen hin hu']
    exact (h.run hlen hin hu').code hlen hrunning' hexec'
  have hinside : ∀ j ≤ k, (codeAt prog ((textStep prog)^[j] (s.registers .pc))).isSome = true := by
    intro j hj
    obtain ⟨w', -, hcode, -⟩ := hway j hj
    exact Option.isSome_iff_exists.2 ⟨_, hcode⟩
  refine halt_lt_length hinside ?_ ?_
  · intro j hj i hcode
    obtain ⟨w', v, hcode', hv, hgoes⟩ := hway j (Nat.le_of_lt hj)
    obtain rfl := Option.some.inj (hcode.symm.trans hcode')
    exact hgoes (running_before hrun (Nat.succ_lt_succ hj) hv)
  · refine ⟨Instr.decode w, ?_, (halts_iff w).2 hhalt⟩
    rw [← h.path hlen hin hu]
    exact (h.run hlen hin hu).code hlen hurunning hexec

end Sealed

end

/-! ## The start -/

/-- A program with an instruction, in memory, contains the start address. -/
theorem Inside.of_boot {prog : List Instr} {data : List Word} {origin : Word} {stdin : Input Byte}
    {s : State} (hlen : 0x3000 + prog.length ≤ 0xFE00) (hentry : prog ≠ [])
    (hboot : boot (some (programImage prog data)) origin stdin = .ok s) : Inside prog s := by
  rw [programImage, boot_imageFile] at hboot
  obtain rfl := Except.ok.inj hboot
  refine ⟨inPlace_imageMemory data hlen rfl, fun _ => ?_⟩
  obtain ⟨i, rest, rfl⟩ := List.exists_cons_of_ne_nil hentry
  change (codeAt (i :: rest) 0x3000).isSome = true
  simp [codeAt]

/-! ## The instruction set -/

/-- A sealed program of plain instructions makes every step as the instruction set defines it. -/
theorem Sealed.steps_alike {prog : List Instr} (h : Sealed prog) (hplain : ∀ i ∈ prog, Plain i)
    (hlen : 0x3000 + prog.length ≤ 0xFE00) {s : State} {m : Machine Devices}
    (hin : Inside prog s) (hobs : Observes s m) (n : ℕ) :
    Alike (fun t m' => Observes t m' ∧ Inside prog t) (steps emulateStep n s)
      (steps (stepCode platform (codeAt prog)) n m) := by
  refine alike_steps_along (fun _ => True) ?_ ⟨hobs, hin⟩ fun _ _ _ _ => trivial
  rintro s m ⟨hobs, hin⟩ -
  have hI : InPlace prog m.bus := hobs.devices ▸ hin.inPlace
  have hstep := step_alike hobs
  rw [(keeps_platform hlen).stepCode_eq hI]
  by_cases hrun : s.running = true
  · have hcode : (codeAt prog m.pc).isSome = true := hobs.pc ▸ hin.pc hrun
    have hfaithful := faithfulStep_of_plain hplain hlen hI hcode
    exact hstep.mono fun t m' ht _ hiff => ⟨hiff.2 hfaithful, h.step hlen hin ht⟩
  · -- both have halted
    rw [emulateStep, if_neg hrun] at hstep ⊢
    rw [hstep.error_right]
    rfl

/-- A program that stores behind itself and halts. -/
theorem sealed_st_halt : Sealed [.st 0 1, .trap 0x25] := by
  intro a i hcode
  obtain ⟨hle, hlt⟩ := codeAt_lt hcode
  have ha : a = 0x3000 ∨ a = 0x3001 := by
    have hcases : a.toNat = 0x3000 ∨ a.toNat = 0x3001 := by
      simp only [List.length_cons, List.length_nil] at hlt
      omega
    exact hcases.imp BitVec.eq_of_toNat_eq BitVec.eq_of_toNat_eq
  rcases ha with rfl | rfl
  · obtain rfl := Option.some.inj hcode
    exact ⟨⟨by decide, rfl⟩, Or.inr rfl⟩
  · obtain rfl := Option.some.inj hcode
    exact ⟨⟨by decide, by decide⟩, Or.inl rfl⟩

/-- For every sealed program of plain instructions that is not empty and fits below the device
    registers, all data behind it, every standard input and every number of steps: the machine,
    started on the image, and the program, run instruction by instruction as it reads, end alike,
    whatever the program does. -/
theorem sealed_plain {prog : List Instr} (data : List Word) (origin : Word) (stdin : Input Byte)
    (sign : Sign) (n : ℕ) (h : Sealed prog) (hplain : ∀ i ∈ prog, Plain i)
    (hlen : 0x3000 + prog.length ≤ 0xFE00) (hentry : prog ≠ []) :
    ∃ s₀, boot (some (programImage prog data)) origin stdin = .ok s₀ ∧
      Alike Observes (steps emulateStep n s₀)
        (steps (stepCode platform (codeAt prog)) n (s₀.processor sign)) := by
  have hboot := boot_imageFile 0x3000 (prog.map Instr.encode ++ data) origin stdin
  refine ⟨_, hboot, ?_⟩
  have hin : Inside prog _ := .of_boot hlen hentry hboot
  have halike := h.steps_alike hplain hlen hin (observes_processor _ sign) n
  exact halike.mono fun _ _ _ _ hboth => hboth.1

/-- The program that stores behind itself and halts, on the machine and on the processor. -/
theorem sealed_plain_st :
    ∃ s₀, boot (some (programImage [.st 0 1, .trap 0x25] [])) 0 noInput = .ok s₀ ∧
      Alike Observes (steps emulateStep 2 s₀)
        (steps (stepCode platform (codeAt [.st 0 1, .trap 0x25])) 2 (s₀.processor .zero)) :=
  sealed_plain [] 0 noInput .zero 2 sealed_st_halt (by decide) (by decide) (by decide)

/-! ## The process -/

/-- For every sealed program that is not empty and fits below the device registers, all data behind
    it, every standard input and terminal and every sequence of calls of `main` and deliveries of
    `SIGINT`: - in the loop, the program is in place and the machine inside it; - `main` waits only
    for a key that is never typed; - the next call or signal is answered, unless `main` has ended; -
    without a signal, `main` ends by returning 0, after at most five calls more than the program has
    instructions, or never. -/
theorem sealed_main {prog : List Instr} {data : List Word} {origin : Word} {stdin : Input Byte}
    {terminal : Termios} {moves : List Move} {p : Process} (h : Sealed prog)
    (hlen : 0x3000 + prog.length ≤ 0xFE00) (hentry : prog ≠ [])
    (hrun : play (Process.react ⟨some (programImage prog data), origin, stdin⟩) moves
      (.start terminal) = .ok p) :
    (∀ s, p.phase = .emulate s ∨ p.phase = .waiting s → Inside prog s) ∧
      (∀ s, p.phase = .waiting s → s.stdin.pending = [] ∧ s.stdin.closed = false) ∧
      (∀ move e, Process.react ⟨some (programImage prog data), origin, stdin⟩ move p = .error e →
        ∃ how, p.phase = .ended how) ∧
      (∀ how, p.phase = .ended how → (∀ k, .sigint k ∉ moves) →
        (∃ out, how = .exit 0 out) ∧ moves.length ≤ prog.length + 5) := by
  have hafter := Process.after_of_play hrun
  have hinside : ∀ s, p.phase = .emulate s ∨ p.phase = .waiting s → Inside prog s := by
    intro s hs
    obtain ⟨s₀, n, hboot, hsteps⟩ := Process.runsMachine_of_play hrun s hs
    exact h.run hlen (.of_boot hlen hentry hboot) hsteps
  refine ⟨hinside, fun s hwaiting => ?_, fun move e herror => ?_, fun how hended hnone => ?_⟩
  · simp only [Process.After, hwaiting] at hafter
    obtain ⟨-, s₀, n, m, -, -, -, hkey, -⟩ := hafter
    cases hkey with
    | key hfetch hreads hnone => exact hnone
  · rcases Process.react_eq_error herror with ⟨-, hended⟩ | ⟨hhalted, hblocked, -, s, hphase, hstep⟩
    · exact hended
    · exact absurd (h.blocked hlen (hinside s (Or.inl hphase)) hstep hhalted) hblocked
  · simp only [Process.After, hended] at hafter
    cases hafter with
    | killed => exact absurd (List.mem_singleton_self _) (hnone _)
    | early | wrongPathCut | interrupted | waiting =>
        exact absurd (List.mem_append_right _ (List.mem_singleton_self _)) (hnone _)
    | wrongPath hfile => simp at hfile
    | @halted s₀ s t w n hboot hsteps hrunning hexec hhalt =>
        refine ⟨⟨_, rfl⟩, ?_⟩
        have hnext : steps emulateStep (n + 1) s₀ = .ok t :=
          steps_succ_ok.2 ⟨s, hsteps, emulateStep_eq_ok.2 ⟨hrunning, w, hexec⟩⟩
        have hbound := h.halted hlen (.of_boot hlen hentry hboot) (boot_running hboot) hnext
          (hexec.halt hrunning hhalt).1
        rw [List.length_replicate]
        omega

/-- The process on the program that stores behind itself and halts. -/
theorem sealed_main_st :
    ∃ p out, play (Process.react ⟨some (programImage [.st 0 1, .trap 0x25] []), 0, noInput⟩)
        (List.replicate 7 .call) (.start cookedTerminal) = .ok p ∧
      p.phase = .ended (.exit 0 out) := by
  have hends : ∃ p how,
      play (Process.react ⟨some (programImage [.st 0 1, .trap 0x25] []), 0, noInput⟩)
        (List.replicate 7 .call) (.start cookedTerminal) = .ok p ∧ p.phase = .ended how :=
    ⟨_, _, rfl, rfl⟩
  obtain ⟨p, how, hrun, hended⟩ := hends
  obtain ⟨-, -, -, hend⟩ := sealed_main sealed_st_halt (by decide) (by decide) hrun
  obtain ⟨⟨out, rfl⟩, -⟩ := hend how hended (by simp)
  exact ⟨p, out, hrun, hended⟩

end Yavm.Lc3
