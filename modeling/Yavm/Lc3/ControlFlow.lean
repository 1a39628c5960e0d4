import Yavm.Lc3.Coherence
import Yavm.Lc3.Endings
import Yavm.Lc3.Flags
import Yavm.Lc3.Programs

set_option autoImplicit false

/-! # Control flow

A `BR` of this machine is decided by its own condition bits, so nothing a program computes can
change its course but through a jump register. Without `JMP` and `JSRR` the path of a program is in
its text: `staticPc` reads it off, and `static_control` shows that the machine follows it, whatever
the registers, the rest of memory and the input are, and halts where the text says. So it halts in
as many steps as the program has instructions, or never (`halts_within`). -/

namespace Yavm.Lc3

open Basis Isa

/-- The instructions that do not jump through a register. -/
def Direct : Instr → Prop
  | .jmp _ | .jsrr _ => False
  | _ => True

/-- Where an instruction at `pc` goes on this machine. -/
def nextPc (i : Instr) (pc : Word) : Word :=
  match i with
  | .br conditions offset => if conditions = 0 then pc + 1 else pc + 1 + offset.signExtend 16
  | .jsr offset => pc + 1 + offset.signExtend 16
  | _ => pc + 1

/-- Where the text of the program leads in `n` steps. -/
def staticPc (prog : List Instr) : ℕ → Word → Word
  | 0, pc => pc
  | n + 1, pc =>
    let here := staticPc prog n pc
    match codeAt prog here with
    | some i => nextPc i here
    | none => here

/-- The instruction halts the machine. -/
def Halts : Instr → Prop
  | .trap vector => TrapCode.decode (vector.setWidth 16) = some .halt
  | _ => False

/-- The next instruction does not store into the program. -/
def SparesCode (prog : List Instr) (s : State) : Prop :=
  ∀ w s₁, fetch s = .ok (w, s₁) → ∀ a v, storeOf w s₁ = some (a, v) → codeAt prog a = none

theorem storeOf_of_noStore {w : Word} (h : NoStore (Instr.decode w)) (s : State) :
    storeOf w s = none := by
  rw [decode_eq] at h
  unfold storeOf
  cases hop : Op.decode w
  all_goals first | rfl | exact absurd h (by simp [hop, NoStore])

/-! ## One step -/

theorem InPlace.fetch {prog : List Instr} (hlen : 0x3000 + prog.length ≤ 0xFE00) {s s₁ : State}
    {i : Instr} {w : Word} (hI : InPlace prog s.devices)
    (hcode : codeAt prog (s.registers .pc) = some i) (hfetch : fetch s = .ok (w, s₁)) :
    Instr.decode w = i := by
  have halike := fetch_alike (observes_processor s .zero)
  rw [hfetch] at halike
  obtain ⟨⟨w', m'⟩, hfetch', hw, -⟩ := halike.exists_right
  obtain rfl : w' = w := hw
  exact (fetch_code (m := s.processor .zero) hlen hI hcode hfetch').1

theorem InPlace.step {prog : List Instr} {s t : State} {w : Word} (hI : InPlace prog s.devices)
    (hspares : SparesCode prog s) (hexec : Executes s w t) : InPlace prog t.devices := by
  obtain ⟨s₁, e, s₂, hfetch, hplan, hread₁, hread₂, hfits, hcommit⟩ := hexec.cases
  have hmem := (trip_of_commits hread₁ hread₂ hfits hcommit).memory
  intro a i hcode
  obtain ⟨hlt, hcell⟩ := hI a i hcode
  refine ⟨hlt, ?_⟩
  change t.memory _ = _
  rw [hmem, Effect.memory]
  cases hstore : e.store with
  | none => exact hcell
  | some p =>
      obtain ⟨b, v⟩ := p
      have hb := hcommit.inBounds b v hstore
      have hfree := hspares w s₁ hfetch b v ((plan_store hplan).symm.trans hstore)
      have hne : (⟨a.toNat, hlt⟩ : Fin uint16Max) ≠ ⟨b.toNat, hb⟩ := by
        intro heq
        have hab : a = b := BitVec.eq_of_toNat_eq (Fin.mk.inj heq)
        rw [hab, hfree] at hcode
        simp at hcode
      simp only [dif_pos hb]
      exact (Function.update_of_ne hne ..).trans hcell

/-- One case per opcode: where an instruction goes. -/
theorem pc_direct {s t : State} {w : Word} (h : Executes s w t)
    (hdirect : Direct (Instr.decode w)) :
    t.registers .pc = nextPc (Instr.decode w) (s.registers .pc) := by
  obtain ⟨e, htrip⟩ := h.trip
  rw [decode_eq] at hdirect ⊢
  cases hop : Op.decode w
  all_goals rw [hop] at hdirect
  case br =>
    rw [br_pc h hop, sext_eq (by decide)]
    simp only [nextPc, anyCondition_iff, ne_eq, ite_not]
  case jsr =>
    rw [jsr_pc h hop, sext_eq (by decide)]
    by_cases hflag : w.extractLsb' 11 1 = 0b1#1
    · simp only [if_pos hflag, if_pos ((flag_iff w 11).1 hflag), nextPc]
    · simp only [if_neg hflag] at hdirect
      exact hdirect.elim
  case jmp => exact hdirect.elim
  all_goals exact htrip.pc_next (by rw [hop]; rfl)

theorem halts_iff (w : Word) : Halts (Instr.decode w) ↔ trapOf w = some .halt := by
  rw [decode_eq]
  cases hop : Op.decode w
  case trap =>
    rw [trapOf_eq hop]
    simp only [Halts, trapCode_vector]
  case jsr =>
    rw [trapOf_of_ne (by simp [hop])]
    simp only
    split <;> simp [Halts]
  all_goals
    rw [trapOf_of_ne (by simp [hop])]
    simp [Halts]

theorem running_iff {s t : State} {w : Word} (h : Executes s w t) :
    t.running = true ↔ s.running = true ∧ ¬ Halts (Instr.decode w) := by
  obtain ⟨e, htrip⟩ := h.trip
  rw [htrip.running, htrip.fits.halt, halts_iff]
  simp

/-! ## Whole runs -/

/-- The run of the program `prog` from `s` stays in its text for `n` steps and does not store into
    it. -/
structure StaysIn (prog : List Instr) (s : State) (n : ℕ) : Prop where
  spares : ∀ k < n, ∀ u, steps emulateStep k s = .ok u → SparesCode prog u
  inside : ∀ k < n, (codeAt prog (staticPc prog k (s.registers .pc))).isSome = true

theorem StaysIn.prefix {prog : List Instr} {s : State} {n : ℕ} (h : StaysIn prog s (n + 1)) :
    StaysIn prog s n :=
  ⟨fun k hk => h.spares k (Nat.lt_succ_of_lt hk), fun k hk => h.inside k (Nat.lt_succ_of_lt hk)⟩

/-- By induction on the number of steps: the program stays in place, the program counter is where
    the text leads, and the machine runs until the first `HALT` on the way. -/
theorem follows_text {prog : List Instr} {s t : State} {n : ℕ} (hdirect : ∀ i ∈ prog, Direct i)
    (hlen : 0x3000 + prog.length ≤ 0xFE00) (hI : InPlace prog s.devices) (hin : StaysIn prog s n)
    (hrun : steps emulateStep n s = .ok t) :
    InPlace prog t.devices ∧ t.registers .pc = staticPc prog n (s.registers .pc) ∧
      (t.running = true ↔ s.running = true ∧
        ∀ k < n, ∀ i, codeAt prog (staticPc prog k (s.registers .pc)) = some i → ¬ Halts i) := by
  induction n generalizing t with
  | zero =>
      obtain rfl := Except.ok.inj hrun
      exact ⟨hI, rfl, by simp⟩
  | succ n ih =>
      obtain ⟨u, hu, hstep⟩ := steps_succ_ok.1 hrun
      obtain ⟨hIu, hpc, hrunning⟩ := ih hin.prefix hu
      obtain ⟨i, hcode⟩ := Option.isSome_iff_exists.1 (hin.inside n (Nat.lt_succ_self n))
      obtain ⟨-, w, hexec⟩ := emulateStep_eq_ok.1 hstep
      obtain ⟨s₁, hfetch, -⟩ := id hexec
      have hdecode : Instr.decode w = i := hIu.fetch hlen (hpc ▸ hcode) hfetch
      refine ⟨hIu.step (hin.spares n (Nat.lt_succ_self n) u hu) hexec, ?_, ?_⟩
      · rw [pc_direct hexec (hdecode ▸ hdirect i (mem_of_codeAt hcode)), hdecode, hpc, staticPc,
          hcode]
      · rw [running_iff hexec, hrunning, hdecode, and_assoc]
        refine and_congr_right fun _ => ?_
        constructor
        · rintro ⟨hbefore, hlast⟩ k hk j hj
          rcases Nat.lt_succ_iff_lt_or_eq.1 hk with hlt | rfl
          · exact hbefore k hlt j hj
          · obtain rfl : i = j := Option.some.inj (hcode.symm.trans hj)
            exact hlast
        · intro hall
          exact ⟨fun k hk => hall k (Nat.lt_succ_of_lt hk), hall n (Nat.lt_succ_self n) i hcode⟩

/-- A program without stores stays in its text as long as its path does. -/
theorem staysIn_of_noStore {prog : List Instr} {s : State} {n : ℕ}
    (hdirect : ∀ i ∈ prog, Direct i) (hnone : ∀ i ∈ prog, NoStore i)
    (hlen : 0x3000 + prog.length ≤ 0xFE00) (hI : InPlace prog s.devices)
    (hinside : ∀ k < n, (codeAt prog (staticPc prog k (s.registers .pc))).isSome = true) :
    StaysIn prog s n := by
  induction n with
  | zero => exact ⟨fun k hk => absurd hk (Nat.not_lt_zero k), hinside⟩
  | succ n ih =>
      have hin := ih fun k hk => hinside k (Nat.lt_succ_of_lt hk)
      refine ⟨fun k hk u hu w s₁ hfetch a v hstore => ?_, hinside⟩
      rcases Nat.lt_succ_iff_lt_or_eq.1 hk with hlt | rfl
      · exact hin.spares k hlt u hu w s₁ hfetch a v hstore
      · obtain ⟨hIu, hpc, -⟩ := follows_text hdirect hlen hI hin hu
        obtain ⟨i, hcode⟩ := Option.isSome_iff_exists.1 (hinside k hk)
        have hdecode := hIu.fetch hlen (hpc ▸ hcode) hfetch
        rw [storeOf_of_noStore (hdecode ▸ hnone i (mem_of_codeAt hcode))] at hstore
        simp at hstore

/-- The machine on the image of the program that branches over an instruction. -/
def skippingStart : State :=
  emulateStart { initialState noInput with
    memory := imageMemory 0x3000 (skipping.map Instr.encode) }

theorem direct_skipping : ∀ i ∈ skipping, Direct i := by
  simp [skipping, Direct]

theorem inPlace_skippingStart : InPlace skipping skippingStart.devices :=
  inPlace_imageMemory [] (by decide) rfl

theorem staysIn_skippingStart : StaysIn skipping skippingStart 3 := by
  refine staysIn_of_noStore direct_skipping (by decide) (by decide) inPlace_skippingStart ?_
  intro k hk
  interval_cases k <;> rfl

/-- For every program without `JMP` and `JSRR` that fits below the device registers and is in memory,
    every state it is started from (any registers, condition code, other memory, input) and every
    run that does not store into the program and whose path in the text stays inside it: the program
    counter is where the text leads in as many steps, and the machine is still running exactly if
    there was no `HALT` on the way. -/
theorem static_control {prog : List Instr} {s t : State} {n : ℕ} (hdirect : ∀ i ∈ prog, Direct i)
    (hlen : 0x3000 + prog.length ≤ 0xFE00) (hI : InPlace prog s.devices) (hin : StaysIn prog s n)
    (hrun : steps emulateStep n s = .ok t) :
    t.registers .pc = staticPc prog n (s.registers .pc) ∧
      (t.running = true ↔ s.running = true ∧
        ∀ k < n, ∀ i, codeAt prog (staticPc prog k (s.registers .pc)) = some i → ¬ Halts i) :=
  (follows_text hdirect hlen hI hin hrun).2

/-- The program that branches over an instruction, started as the machine starts it: it is running
    in front of its `HALT`, and halted behind it. -/
theorem static_control_skipping :
    ∃ s t u, steps emulateStep 2 s = .ok t ∧ t.registers .pc = 0x3003 ∧ t.running = true ∧
      steps emulateStep 3 s = .ok u ∧ u.registers .pc = 0x3004 ∧ u.running = false := by
  have hrun : ∃ t u, steps emulateStep 2 skippingStart = .ok t ∧
      steps emulateStep 3 skippingStart = .ok u := ⟨_, _, rfl, rfl⟩
  obtain ⟨t, u, ht, hu⟩ := hrun
  obtain ⟨hpc, hrunning⟩ := static_control direct_skipping (by decide) inPlace_skippingStart
    staysIn_skippingStart.prefix ht
  obtain ⟨hpc', hrunning'⟩ := static_control direct_skipping (by decide) inPlace_skippingStart
    staysIn_skippingStart hu
  refine ⟨_, t, u, ht, hpc, hrunning.2 ⟨rfl, ?_⟩, hu, hpc', Bool.eq_false_iff.2 fun htrue => ?_⟩
  · intro k hk i hcode
    interval_cases k
    all_goals
      obtain rfl := Option.some.inj hcode
      exact id
  · exact (hrunning'.1 htrue).2 2 (by decide) (.trap 0x25) rfl rfl

/-! ## Halting -/

/-- One step of the text. -/
def textStep (prog : List Instr) (pc : Word) : Word :=
  match codeAt prog pc with
  | some i => nextPc i pc
  | none => pc

theorem staticPc_eq_iterate (prog : List Instr) (n : ℕ) (pc : Word) :
    staticPc prog n pc = (textStep prog)^[n] pc := by
  induction n with
  | zero => rfl
  | succ n ih =>
      rw [Function.iterate_succ_apply', ← ih]
      rfl

/-- The addresses of the program. -/
def addressesOf (prog : List Instr) : Finset Word :=
  (Finset.range prog.length).image fun i => BitVec.ofNat 16 (0x3000 + i)

theorem mem_addressesOf {prog : List Instr} {a : Word} (h : (codeAt prog a).isSome = true) :
    a ∈ addressesOf prog := by
  obtain ⟨i, hcode⟩ := Option.isSome_iff_exists.1 h
  obtain ⟨hle, hlt⟩ := codeAt_lt hcode
  refine Finset.mem_image.2 ⟨a.toNat - 0x3000, Finset.mem_range.2 (by omega), ?_⟩
  rw [Nat.add_sub_cancel' hle]
  exact (BitVec.ofNat_toNat 16 a).trans (BitVec.setWidth_eq a)

theorem card_addressesOf (prog : List Instr) : (addressesOf prog).card ≤ prog.length :=
  Finset.card_image_le.trans_eq (Finset.card_range _)

/-- A path in the text comes to its first `HALT` in fewer steps than the program has instructions. -/
theorem halt_lt_length {prog : List Instr} {pc : Word} {m : ℕ}
    (hinside : ∀ k ≤ m, (codeAt prog ((textStep prog)^[k] pc)).isSome = true)
    (hfirst : ∀ k < m, ∀ i, codeAt prog ((textStep prog)^[k] pc) = some i → ¬ Halts i)
    (hlast : ∃ i, codeAt prog ((textStep prog)^[m] pc) = some i ∧ Halts i) : m < prog.length := by
  have hcard := first_visit_lt_card (P := fun a => ∃ i, codeAt prog a = some i ∧ Halts i)
    (fun k hk => mem_addressesOf (hinside k hk))
    (fun k hk ⟨i, hcode, hhalts⟩ => hfirst k hk i hcode hhalts) hlast
  exact Nat.lt_of_lt_of_le hcard (card_addressesOf prog)

/-- For every program without `JMP` and `JSRR` that fits below the device registers and is in memory,
    every state it is started from and every run that stays in it and does not store into it: if the
    machine has halted, it has made no more steps than the program has instructions. A run that goes
    on longer never halts. -/
theorem halts_within {prog : List Instr} {s t : State} {n : ℕ} (hdirect : ∀ i ∈ prog, Direct i)
    (hlen : 0x3000 + prog.length ≤ 0xFE00) (hI : InPlace prog s.devices) (hin : StaysIn prog s n)
    (hrun : steps emulateStep n s = .ok t) (hrunning : s.running = true)
    (hhalted : t.running = false) : n ≤ prog.length := by
  obtain ⟨m, u, w, rfl, hu, hurunning, -, -⟩ := exists_halt hrunning hrun hhalted
  obtain ⟨-, -, hbefore⟩ := follows_text hdirect hlen hI hin.prefix hu
  obtain ⟨-, -, hafter⟩ := follows_text hdirect hlen hI hin hrun
  -- the path has come to a `HALT` in its last step, and to none before
  have hfirst := (hbefore.1 hurunning).2
  have hlast : ∃ i, codeAt prog (staticPc prog m (s.registers .pc)) = some i ∧ Halts i := by
    by_contra hnone
    rw [hhalted] at hafter
    refine absurd (hafter.2 ⟨hrunning, fun k hk i hcode hhalts => ?_⟩) (by simp)
    rcases Nat.lt_succ_iff_lt_or_eq.1 hk with hlt | rfl
    · exact hfirst k hlt i hcode hhalts
    · exact hnone ⟨i, hcode, hhalts⟩
  have hinside := hin.inside
  simp only [staticPc_eq_iterate] at hfirst hlast hinside
  exact halt_lt_length (fun k hk => hinside k (Nat.lt_succ_of_le hk)) hfirst hlast

/-- The program that branches over an instruction has halted after three steps; it has four
    instructions. -/
theorem halts_within_skipping : ∃ n t, steps emulateStep n skippingStart = .ok t ∧
    t.running = false ∧ n = 3 ∧ n ≤ skipping.length := by
  have hrun : ∃ t, steps emulateStep 3 skippingStart = .ok t ∧ t.running = false := ⟨_, rfl, rfl⟩
  obtain ⟨t, ht, hhalted⟩ := hrun
  exact ⟨3, t, ht, hhalted, rfl, halts_within direct_skipping (by decide) inPlace_skippingStart
    staysIn_skippingStart ht rfl hhalted⟩

end Yavm.Lc3
