import Yavm.Lc3.Safety

set_option autoImplicit false

/-! # Sealed programs, and no others

The converse of `Sealed.safe`. A program is put on a stage: one word in every cell outside it, one
word in every register, standard input at its end. If every step from inside the program is safe,
then so are those on the stage, and the words can be chosen such that each instruction that is not
tame gives itself away (`AlwaysSafe.tame`): a store through the value it overwrites, a jump or an
address through a register, a pointer that is not known, a string that never ends. -/

namespace Yavm.Lc3

open Basis Isa

/-! ## The stage -/

/-- The machine at an address of the program, with one word in all cells outside it and one in all
    registers. -/
def staged (prog : List Instr) (fill v a : Word) : State where
  memory := fun j => ((codeAt prog (BitVec.ofNat 16 j.val)).map Instr.encode).getD fill
  registers := Function.update (fun _ => v) .pc a
  running := true
  stdin := noInput
  stdout := []
  events := []

section

variable {prog : List Instr} {fill v a : Word}

theorem staged_cell {b : Word} (h : b.toNat < uint16Max) :
    (staged prog fill v a).memory ⟨b.toNat, h⟩ = ((codeAt prog b).map Instr.encode).getD fill := by
  change ((codeAt prog (BitVec.ofNat 16 b.toNat)).map Instr.encode).getD fill = _
  rw [BitVec.ofNat_toNat, BitVec.setWidth_eq]

theorem staged_pc : (staged prog fill v a).registers .pc = a := by
  change Function.update (fun _ => v) Reg.pc a Reg.pc = a
  rw [Function.update_self]

theorem staged_general {r : Reg} (hr : r.General) : (staged prog fill v a).registers r = v := by
  change Function.update (fun _ => v) Reg.pc a r = v
  rw [Function.update_of_ne hr.ne_pc]

theorem inside_staged (hlen : 0x3000 + prog.length ≤ 0xFE00) {i : Instr}
    (hcode : codeAt prog a = some i) : Inside prog (staged prog fill v a) where
  inPlace b j hj := by
    have hbelow := Nat.lt_of_lt_of_le (codeAt_lt hj).2 hlen
    refine ⟨Nat.lt_trans hbelow (by decide), ?_⟩
    change (staged prog fill v a).memory _ = _
    rw [staged_cell, hj]
    rfl
  pc _ := Option.isSome_iff_exists.2 ⟨i, hcode⟩

/-- What a read outside the program and the constant device registers returns on the stage. -/
theorem peek_staged {s : State} {b : Word} (hmem : s.memory = (staged prog 0xFFFF v a).memory)
    (hin : s.stdin = noInput) (hwords : wordsAt prog b = none) (hb : b ≠ 0xFFFF) :
    peek b s = 0xFFFF := by
  unfold wordsAt at hwords
  split_ifs at hwords with h₁ h₂ h₃
  by_cases h₄ : b = mrKbdr
  · -- standard input is at its end
    subst h₄
    cases s
    subst hin
    rfl
  · have hlt := lt_uint16Max_iff.2 hb
    have hdev : ¬ IsDevice b := by
      rintro (h | h | h | h)
      · exact h₁ h
      · exact h₄ h
      · exact h₂ h
      · exact h₃ h
    rw [peek_eq (memoryRead_cell s hdev hlt), hmem, staged_cell, Option.map_eq_none_iff.1 hwords]
    rfl

/-- Of the known words the stage shows one: at the end of the input `MR_KBSR` is not 0. -/
theorem eq_peek {s : State} (hlen : 0x3000 + prog.length ≤ 0xFE00)
    (hI : InPlace prog s.devices) (hin : s.stdin = noInput) {b p : Word} {words : List Word}
    (hwords : wordsAt prog b = some words) (hp : p ∈ words) : p = peek b s ∨ p = 0 := by
  have hmem := peek_mem hlen hI hwords
  unfold wordsAt at hwords
  split_ifs at hwords with h₁ h₂ h₃
  · obtain rfl := Option.some.inj hwords
    have hpeek : peek b s = statusBit := by
      subst h₁
      cases s
      subst hin
      rfl
    simpa [hpeek, or_comm] using hp
  · obtain rfl := Option.some.inj hwords
    exact Or.inl ((List.mem_singleton.1 hp).trans (List.mem_singleton.1 hmem).symm)
  · obtain rfl := Option.some.inj hwords
    exact Or.inl ((List.mem_singleton.1 hp).trans (List.mem_singleton.1 hmem).symm)
  · obtain ⟨i, -, rfl⟩ := Option.map_eq_some_iff.1 hwords
    exact Or.inl ((List.mem_singleton.1 hp).trans (List.mem_singleton.1 hmem).symm)

end

/-- A machine with standard input at its end does not wait for a key. -/
theorem dispatch_ne_blocked {w : Word} {s : State} (hin : s.stdin = noInput) :
    dispatch w s ≠ .error .blocked := by
  intro h
  rcases dispatch_eq_error h with ⟨i, hi⟩ | ⟨-, hkey⟩ | ⟨hpointer, -⟩
  · simp at hi
  · rw [dispatch_blocked_iff hkey, hin, Input.getchar_eq_none_iff] at h
    exact absurd h.2 (by decide)
  · simp at hpointer

/-- The word an instruction has stored is in its cell. -/
theorem Executes.stored {s s₁ t : State} {w a v : Word} (h : Executes s w t)
    (hfetch : fetch s = .ok (w, s₁)) (hstore : storeOf w s₁ = some (a, v)) :
    ∃ hlt : a.toNat < uint16Max, t.memory ⟨a.toNat, hlt⟩ = v := by
  obtain ⟨s₁', e, s₂, hfetch', hplan, hread₁, hread₂, hfits, hcommit⟩ := h.cases
  obtain rfl : s₁' = s₁ := (Prod.mk.inj (Except.ok.inj (hfetch'.symm.trans hfetch))).2
  have hlast : e.store = some (a, v) := (plan_store hplan).trans hstore
  have hlt := hcommit.inBounds a v hlast
  refine ⟨hlt, ?_⟩
  rw [hcommit.memory, Effect.memory, hlast]
  simp only [dif_pos hlt, Function.update_self]

/-! ## A step on the stage -/

/-- What a safe step does on the stage. -/
structure Performs (prog : List Instr) (fill v a : Word) (w : Word) (s₁ t : State) : Prop where
  fetch : fetch (staged prog fill v a) = .ok (w, s₁)
  stdin : s₁.stdin = noInput
  inPlace : InPlace prog s₁.devices
  executes : Executes (staged prog fill v a) w t
  inside : Inside prog t
  addresses : 0xFFFF ∉ effectiveAddresses w s₁

/-- A safe step on the stage is made. -/
theorem Safe.performs {prog : List Instr} (hlen : 0x3000 + prog.length ≤ 0xFE00) {fill v a : Word}
    {i : Instr} (hcode : codeAt prog a = some i) (h : Safe prog (staged prog fill v a)) :
    ∃ s₁ t, Performs prog fill v a i.encode s₁ t := by
  have hstaged : Inside prog (staged prog fill v a) := inside_staged hlen hcode
  obtain ⟨s₁, hfetch, hstdin⟩ := hstaged.fetch hlen hcode
  have hI₁ : InPlace prog s₁.devices := hstaged.inPlace.of_memory (fetch_fetched hfetch).memory
  rw [Safe, emulateStep_of_fetch rfl hfetch] at h
  rcases h with ⟨t, ht, hin⟩ | hblocked
  · refine ⟨s₁, t, hfetch, hstdin, hI₁, ⟨s₁, hfetch, ht⟩, hin, fun htop => ?_⟩
    obtain ⟨k, hk⟩ := (dispatch_index_iff _ _).2 htop
    simp [hk] at ht
  · exact absurd hblocked (dispatch_ne_blocked hstdin)

namespace Performs

variable {prog : List Instr} {fill v a w : Word} {s₁ t : State}
  (h : Performs prog fill v a w s₁ t)
include h

theorem fetched : Fetched (staged prog fill v a) s₁ :=
  fetch_fetched h.fetch

theorem general {r : Reg} (hr : r.General) : s₁.registers r = v := by
  rw [h.fetched.general hr, staged_general hr]

theorem near : pcRelative w s₁ = targetOf a (w.extractLsb' 0 9) := by
  rw [h.fetched.near, staged_pc]

theorem running (hhalts : ¬ Halts (Instr.decode w)) : t.running = true :=
  (running_iff h.executes).2 ⟨rfl, hhalts⟩

/-- A word stored into the program is the one that was there. -/
theorem stored {b x : Word} (hstore : storeOf w s₁ = some (b, x)) {j : Instr}
    (hj : codeAt prog b = some j) : x = j.encode := by
  obtain ⟨hlt, hcell⟩ := h.executes.stored h.fetch hstore
  obtain ⟨_, hsame⟩ := h.inside.inPlace b j hj
  exact hcell.symm.trans hsame

end Performs

/-! ## Only tame instructions are always safe -/

/-- No step of the program leaves it, whatever surrounds the program. -/
def AlwaysSafe (prog : List Instr) : Prop :=
  ∀ s, Inside prog s → s.running = true → Safe prog s

namespace AlwaysSafe

variable {prog : List Instr} (hall : AlwaysSafe prog) (hlen : 0x3000 + prog.length ≤ 0xFE00)
  {a : Word} {w : Word} (hcode : codeAt prog a = some (Instr.decode w))
  (hword : (Instr.decode w).encode = w)
include hall hlen hcode hword

theorem performs (fill v : Word) : ∃ s₁ t, Performs prog fill v a w s₁ t := by
  have h := (hall (staged prog fill v a) (inside_staged hlen hcode) rfl).performs hlen hcode
  rwa [hword] at h

theorem near_ne_top (hmem : ∀ s₁, pcRelative w s₁ ∈ effectiveAddresses w s₁) :
    targetOf a (w.extractLsb' 0 9) ≠ 0xFFFF := by
  obtain ⟨s₁, t, h⟩ := performs hall hlen hcode hword 0 0
  have hnear := hmem s₁
  rw [h.near] at hnear
  exact fun htop => h.addresses (htop ▸ hnear)

/-- A register cannot be trusted with a string: this one starts behind `memory`. -/
theorem not_string (hop : Op.decode w = .trap) :
    TrapCode.decode w ≠ some .puts ∧ TrapCode.decode w ≠ some .putsp := by
  obtain ⟨s₁, t, h⟩ := performs hall hlen hcode hword 0 0xFFFF
  have hnone : uint16Max - (s₁.registers .r0).toNat = 0 := by
    rw [h.general (by decide)]
    rfl
  obtain ⟨s₁', e, s₂, hfetch, hplan, -⟩ := h.executes.cases
  obtain ⟨-, rfl⟩ := Prod.mk.inj (Except.ok.inj (hfetch.symm.trans h.fetch))
  rw [plan, hop] at hplan
  constructor
  all_goals
    intro hcode
    simp only [planTrap, hcode, hnone] at hplan
    exact absurd hplan (by simp [putsLoop, putspLoop, stringLoop, Except.map])

/-- A register cannot be trusted with a jump. -/
theorem not_jump (hhalts : ¬ Halts (Instr.decode w))
    (hjump : ∀ s₁ t, Performs prog 0 0 a w s₁ t → t.registers .pc = 0) : False := by
  obtain ⟨s₁, t, h⟩ := performs hall hlen hcode hword 0 0
  obtain ⟨i, hi⟩ := Option.isSome_iff_exists.1 (h.inside.pc (h.running hhalts))
  rw [hjump s₁ t h] at hi
  exact absurd (codeAt_lt hi).1 (by decide)

/-- A register cannot be trusted with an address. -/
theorem not_based (hmem : ∀ s₁, baseOffset w s₁ ∈ effectiveAddresses w s₁) : False := by
  obtain ⟨s₁, t, h⟩ := performs hall hlen hcode hword 0 (0xFFFF - sext 6 w)
  refine h.addresses ?_
  have htop : baseOffset w s₁ = 0xFFFF := by
    rw [baseOffset, h.general (baseOf_general w), BitVec.sub_add_cancel]
  exact htop ▸ hmem s₁

/-- A store must spare the program: two values do not both fit. -/
theorem spares {b : Word} (hstore : ∀ v s₁ t, Performs prog 0 v a w s₁ t →
    storeOf w s₁ = some (b, v)) : codeAt prog b = none := by
  by_contra hsome
  obtain ⟨j, hj⟩ := Option.ne_none_iff_exists'.1 hsome
  have hvalue : ∀ v, v = j.encode := by
    intro v
    obtain ⟨s₁, t, h⟩ := performs hall hlen hcode hword 0 v
    exact h.stored (hstore v s₁ t h) hj
  exact absurd ((hvalue 0).trans (hvalue 1).symm) (by decide)

/-- A pointer must be known: the stage puts `0xFFFF` where it is not. -/
theorem pointer {b : Word} (hmem : ∀ s₁, pcRelative w s₁ ∈ effectiveAddresses w s₁ ∧
      peek (pcRelative w s₁) s₁ ∈ effectiveAddresses w s₁)
    (hb : b = targetOf a (w.extractLsb' 0 9)) :
    ∃ words, wordsAt prog b = some words ∧ ∀ p ∈ words, p ≠ 0xFFFF := by
  obtain ⟨s₁, t, h⟩ := performs hall hlen hcode hword 0xFFFF 0
  have hread : s₁.memory = (staged prog 0xFFFF 0 a).memory := h.fetched.memory
  obtain ⟨hmem₁, hmem₂⟩ := hmem s₁
  rw [h.near, ← hb] at hmem₁ hmem₂
  cases hwords : wordsAt prog b with
  | none =>
      rw [peek_staged hread h.stdin hwords fun htop => h.addresses (htop ▸ hmem₁)] at hmem₂
      exact absurd hmem₂ h.addresses
  | some words =>
      refine ⟨words, rfl, fun p hp htop => ?_⟩
      rcases eq_peek hlen h.inPlace h.stdin hwords hp with rfl | rfl
      · exact h.addresses (htop ▸ hmem₂)
      · exact absurd htop (by decide)

/-- One case per opcode: in a program that is always safe, every instruction is tame. -/
theorem tame : Tame prog a (Instr.decode w) := by
  have hdecode := decode_eq w
  cases hop : Op.decode w
  all_goals rw [hop] at hdecode
  case ld =>
    rw [hdecode]
    exact near_ne_top hall hlen hcode hword fun s₁ => by simp [effectiveAddresses, hop]
  case st =>
    rw [hdecode]
    refine ⟨near_ne_top hall hlen hcode hword fun s₁ => by simp [effectiveAddresses, hop],
      spares hall hlen hcode hword fun v s₁ t h => ?_⟩
    simp only [storeOf, hop, h.near, h.general (destOf_general w)]
  case ldi =>
    rw [hdecode]
    exact pointer hall hlen hcode hword (fun s₁ => by simp [effectiveAddresses, hop]) rfl
  case sti =>
    rw [hdecode]
    obtain ⟨words, hwords, hne⟩ :=
      pointer hall hlen hcode hword (fun s₁ => by simp [effectiveAddresses, hop]) rfl
    refine ⟨words, hwords, fun p hp => ⟨hne p hp, ?_⟩⟩
    by_cases hzero : p = 0
    · exact hzero ▸ rfl
    · refine spares hall hlen hcode hword fun v s₁ t h => ?_
      have hpeek := (eq_peek hlen h.inPlace h.stdin hwords hp).resolve_right hzero
      simp only [storeOf, hop, h.near, h.general (destOf_general w), ← hpeek]
  case ldr | str =>
    exact (not_based hall hlen hcode hword fun s₁ => by simp [effectiveAddresses, hop]).elim
  case jmp =>
    refine (not_jump hall hlen hcode hword (hdecode ▸ id) fun s₁ t h => ?_).elim
    rw [jmp_pc h.executes hop]
    rfl
  case jsr =>
    by_cases hflag : w.extractLsb' 11 1 = 0b1#1
    · simp only [if_pos hflag] at hdecode
      exact hdecode ▸ trivial
    · simp only [if_neg hflag] at hdecode
      rw [hdecode]
      by_contra hbase
      have hlink : baseOf w ≠ .r7 := by
        rw [baseOf, low3_shift]
        exact fun heq => hbase (Reg.ofId_inj (b := 7).1 heq)
      refine not_jump hall hlen hcode hword (hdecode ▸ id) fun s₁ t h => ?_
      rw [jsr_pc h.executes hop, if_neg (mt (flag_iff w 11).2 hflag), Function.update_of_ne hlink]
      exact staged_general (baseOf_general w)
  case trap =>
    rw [hdecode, Tame, trapCode_vector]
    exact not_string hall hlen hcode hword hop
  all_goals exact hdecode ▸ trivial

end AlwaysSafe

/-- For every program that fits below the device registers: every step from inside it, whatever the
    registers, the rest of memory, the input and the output are, is defined and stays inside it, or
    waits for a key that is never typed, if and only if the program is sealed. -/
theorem sealed_iff {prog : List Instr} (hlen : 0x3000 + prog.length ≤ 0xFE00) :
    Sealed prog ↔ AlwaysSafe prog := by
  constructor
  · exact fun h s hin hrun => h.safe hlen hin hrun
  · intro hall a i hcode
    have hword : (Instr.decode i.encode).encode = i.encode := by rw [Instr.decode_encode]
    rw [← Instr.decode_encode i] at hcode ⊢
    have htame := hall.tame hlen hcode hword
    refine ⟨htame, or_iff_not_imp_left.2 fun hhalts => ?_⟩
    obtain ⟨s₁, t, h⟩ := hall.performs hlen hcode hword 0 0
    have hnext := htame.pc (s := staged prog 0 0 a) h.executes
    exact hnext ▸ h.inside.pc (h.running hhalts)

/-- A store relative to the program counter, and one through a register. -/
theorem sealed_iff_stores :
    AlwaysSafe [.st 0 1, .trap 0x25] ∧ ¬ AlwaysSafe [.str 0 0 1, .trap 0x25] :=
  ⟨(sealed_iff (by decide)).1 sealed_st_halt,
    fun hall => ((sealed_iff (by decide)).2 hall 0x3000 (.str 0 0 1) rfl).1⟩

end Yavm.Lc3
