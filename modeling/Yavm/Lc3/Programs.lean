import Mathlib.Tactic.IntervalCases
import Yavm.Lc3.Flags
import Yavm.Lc3.Processor

set_option autoImplicit false

/-! # Programs

A program is a list of instructions; its image has their words from `0x3000` on, and data behind
them. `plain_iff` says which instructions the machine executes as the instruction set defines them,
whatever state they meet, with the condition codes and without. A program of such instructions, once
loaded, runs as it reads (`plain_program`), as long as it stays in its code and does not overwrite
it. -/

namespace Yavm.Lc3

open Basis Isa

/-! ## Instructions that are always faithful -/

/-- Executed as the instruction set defines it, in every state, the condition codes apart. -/
def Plain : Instr → Prop
  | .br conditions offset => conditions = 0 ∨ conditions = 7 ∨ offset = 0
  | .jmp base => base = 6
  | .jsrr base => base ≠ 7
  | .trap vector => TrapCode.decode (vector.setWidth 16) ≠ some .in
  | _ => True

instance : DecidablePred Plain := fun i => by
  unfold Plain
  split <;> infer_instance

theorem faithful_of_plain {i : Instr} (h : Plain i) (m : Machine Devices) : Faithful i m := by
  cases i with
  | br conditions offset =>
      rcases h with rfl | rfl | rfl
      · exact Or.inl rfl
      · exact Or.inr (Or.inr (by cases m.sign <;> rfl))
      · exact Or.inr (Or.inl rfl)
  | jmp base => exact congrArg m.regs h
  | jsrr base => exact fun heq => absurd heq h
  | trap vector => exact fun hin => absurd hin h
  | _ => trivial

/-- Some condition is asked for, but not all: a sign that meets none of them. -/
theorem exists_unmet {conditions : BitVec 3} (h₇ : conditions ≠ 7) :
    ∃ sign : Sign, sign.meets conditions = false := by
  by_contra hall
  simp only [not_exists, Bool.not_eq_false] at hall
  apply h₇
  apply BitVec.eq_of_getLsbD_eq
  intro i hi
  match i, hi with
  | 0, _ => exact hall .pos
  | 1, _ => exact hall .zero
  | 2, _ => exact hall .neg

/-- Every register holds its own number, and standard input is at its end. -/
def numbered : State :=
  { initialState noInput with registers := fun r => BitVec.ofNat 16 r.val }

theorem numbered_regs (r : RegId) (sign : Sign) :
    (numbered.processor sign).regs r = r.setWidth 16 := by
  apply BitVec.eq_of_toNat_eq
  change (BitVec.ofNat 16 r.toNat).toNat = _
  rw [BitVec.toNat_ofNat, BitVec.toNat_setWidth]

/-- An instruction that ends alike in both machines was faithful, if it ended. -/
theorem faithful_of_alike {i : Instr} {s : State} {m m' : Machine Devices} (h : Observes s m)
    (hok : exec platform i m = .ok m')
    (halike : Alike Observes (dispatch i.encode s) (exec platform i m)) : Faithful i m := by
  have hboth := exec_alike h i.encode
  rw [Instr.decode_encode, hok] at hboth
  rw [hok] at halike
  obtain ⟨t, ht, hobs⟩ := halike.exists_left
  obtain ⟨t', ht', hiff⟩ := Alike.exists_left hboth
  obtain rfl : t = t' := Except.ok.inj (ht.symm.trans ht')
  exact hiff.1 hobs

/-- An instruction that is faithful wherever it ends from `numbered` is plain. -/
theorem plain_of_faithful {i : Instr}
    (hat : ∀ sign m', exec platform i (numbered.processor sign) = .ok m' →
      Faithful i (numbered.processor sign)) : Plain i := by
  cases i with
  | br conditions offset =>
      by_cases h₇ : conditions = 7
      · exact Or.inr (Or.inl h₇)
      · obtain ⟨sign, hunmet⟩ := exists_unmet h₇
        rcases hat sign _ rfl with h | h | h
        · exact Or.inl h
        · exact Or.inr (Or.inr h)
        · change sign.meets conditions = true at h
          rw [hunmet] at h
          simp at h
  | jmp base =>
      have hregs : base.setWidth 16 = (6 : RegId).setWidth 16 := by
        rw [← numbered_regs _ .pos, ← numbered_regs _ .pos]
        exact hat .pos _ rfl
      have hlow := congrArg (fun x : Word => x.setWidth 3) hregs
      change base = 6
      simpa using hlow
  | jsrr base =>
      intro heq
      have hlink := hat .pos _ rfl heq
      exact absurd hlink (by decide)
  | trap vector =>
      intro hin
      have hservice : ∃ m', exec platform (.trap vector) (numbered.processor .pos) = .ok m' := by
        simp only [exec, platform, service, hin]
        exact ⟨_, rfl⟩
      obtain ⟨m', hok⟩ := hservice
      have hzero := hat .pos m' hok hin none noInput rfl
      exact absurd hzero (by decide)
  | _ => trivial

/-! ## Condition codes -/

/-- The flag of a sign. -/
def flagOf : Sign → Flag
  | .neg => .neg
  | .zero => .zr
  | .pos => .pos

theorem flagOf_injective : Function.Injective flagOf := by
  intro a b h
  cases a <;> cases b <;> first | rfl | exact absurd h (by decide)

theorem sign_eq_flagOf (v : Word) : Lc3.sign v = flagOf (.of v) := by
  unfold Lc3.sign Sign.of
  split
  · rfl
  · split <;> rfl

/-- The state shows what the processor does, and `R_COND` the condition codes. -/
structure ObservesCodes (s : State) (m : Machine Devices) : Prop extends Observes s m where
  codes : s.registers .cond = (flagOf m.sign).code

/-- The instructions whose handler calls `updateFlags` when they have a result. -/
def SetsCodes : Instr → Prop
  | .and .. | .ldi .. => False
  | _ => True

instance : DecidablePred SetsCodes := fun i => by
  unfold SetsCodes
  split <;> infer_instance

/-- What a handler leaves in `R_COND`. -/
theorem dispatch_cond {w : Word} {s t : State} (h : dispatch w s = .ok t) :
    t.registers .cond = if (Op.decode w).updatesFlags then
      (Lc3.sign (t.registers (destOf w))).code else s.registers .cond := by
  rw [dispatch_eq_plan] at h
  obtain ⟨⟨e, u⟩, hplan, hcommit⟩ := bind_eq_ok.1 h
  have hfits := plan_fits hplan
  have hcommits := Effect.commits_of_commit hcommit
  have hgeneral : ∀ d, e.dest = some d → d.1.General := fun d hd =>
    writesReg_general (w := w) (by rw [← hfits.dest, hd]; rfl)
  rw [hcommits.registers, e.registers_cond _ hgeneral, hfits.cond,
    (plan_readOnly hplan).registers]
  split
  · next hflags =>
      have hdest := hfits.dest
      rw [writesReg_of_hasDest (updatesFlags_hasDest hflags)] at hdest
      obtain ⟨⟨r, v⟩, hd, hr⟩ := Option.map_eq_some_iff.1 hdest
      obtain rfl : r = destOf w := hr
      rw [e.registers_general _ (destOf_general w), hd]
      simp
  · rfl

/-- The handlers that call `updateFlags` are those of the instructions with a result, `AND` and
    `LDI` apart. -/
theorem result_decode {w : Word} (h : SetsCodes (Instr.decode w)) :
    (Instr.decode w).result
      = if (Op.decode w).updatesFlags then some (w.extractLsb' 9 3) else none := by
  rw [decode_eq] at h ⊢
  cases hop : Op.decode w with
  | and | ldi =>
      rw [hop] at h
      exact h.elim
  | jsr =>
      simp only
      split <;> rfl
  | _ => rfl

/-- An instruction that sets the codes as it should keeps them the same. -/
theorem codes_of_dispatch {w : Word} {s t : State} {m m' : Machine Devices}
    (h : ObservesCodes s m) (hsets : SetsCodes (Instr.decode w)) (ht : dispatch w s = .ok t)
    (hm' : exec platform (Instr.decode w) m = .ok m') (hobs : Observes t m') :
    ObservesCodes t m' := by
  refine ⟨hobs, ?_⟩
  rw [dispatch_cond ht, exec_sign hm', result_decode hsets]
  split
  · rw [sign_eq_flagOf, destOf, low3_shift, hobs.regs]
  · exact h.codes

/-- Nothing but zeros in memory and registers. -/
def cleared : State :=
  emulateStart (initialState noInput)

/-- `AND` and `LDI` of zeros leave a zero, and `FL_POS` where it was. -/
theorem not_codes_of_result {i : Instr} {r : RegId} (hi : ¬ SetsCodes i)
    (hexec : exec platform i (cleared.processor .pos) = .ok ((cleared.processor .pos).result r 0)) :
    ¬ Alike ObservesCodes (dispatch i.encode cleared) (exec platform i (cleared.processor .pos)) := by
  intro halike
  rw [hexec] at halike
  obtain ⟨t, ht, hobs⟩ := halike.exists_left
  have hcond := hobs.codes
  have hflags : (Op.decode i.encode).updatesFlags = false := by
    have hdecode := decode_eq i.encode
    rw [Instr.decode_encode] at hdecode
    cases hop : Op.decode i.encode with
    | add | not | ld | ldr | lea =>
        rw [hop] at hdecode
        exact absurd (show SetsCodes i from hdecode ▸ trivial) hi
    | _ => rfl
  have hpos : cleared.registers .cond = Flag.pos.code := rfl
  rw [dispatch_cond ht, hflags, if_neg Bool.false_ne_true, hpos] at hcond
  have hsame : Sign.pos = .zero := flagOf_injective (Flag.code_injective hcond)
  exact absurd hsame (by decide)

/-- An `LDI` near `0x3000` reads ordinary cells. -/
theorem near_cleared (offset : BitVec 9) :
    ((0x3000 : Word) + offset.signExtend 16).toNat < 0xFE00 := by
  have hext := BitVec.toInt_signExtend_of_le (x := offset) (v := 16) (by decide)
  have hlt := BitVec.toInt_lt (x := offset)
  have hle := BitVec.le_toInt (x := offset)
  have hcond := BitVec.toInt_eq_toNat_cond (offset.signExtend 16)
  have hstart : (0x3000 : Word).toNat = 0x3000 := rfl
  rw [hext] at hcond
  rw [BitVec.toNat_add, hstart]
  split at hcond <;> omega

theorem exec_ldi_cleared (dr : RegId) (offset : BitVec 9) :
    exec platform (.ldi dr offset) (cleared.processor .pos)
      = .ok ((cleared.processor .pos).result dr 0) := by
  have hcell : ∀ a : Word, a.toNat < 0xFE00 →
      platform.read a cleared.devices = .ok (0, cleared.devices) := by
    intro a ha
    have hdev : ¬ IsDevice a := by
      rintro (rfl | rfl | rfl | rfl) <;> exact absurd ha (by decide)
    exact platform_read_cell hdev (Nat.lt_trans ha (by decide))
  have hnear := hcell _ (near_cleared offset)
  have hzero := hcell 0 (by decide)
  have hpointer : pointer platform ((cleared.processor .pos).near offset) (cleared.processor .pos)
      = .ok (0, cleared.processor .pos) := by
    rw [pointer]
    change (platform.read (0x3000 + offset.signExtend 16) cleared.devices).map _ = _
    rw [hnear]
    rfl
  rw [exec, hpointer]
  change Isa.load platform dr 0 (cleared.processor .pos) = _
  rw [Isa.load]
  change (platform.read 0 cleared.devices).map _ = _
  rw [hzero]
  rfl

/-- For every instruction: the machine executes its word as the instruction set defines it, from
    every state, the condition codes apart, if and only if it is no branch that asks for some
    conditions but not for all and goes somewhere, no `JMP` but through `R6`, no `JSRR` through `R7`
    and no `IN`; and with the condition codes, from every state in which `R_COND` shows them, if and
    only if moreover it is no `AND` and no `LDI`. -/
theorem plain_iff (i : Instr) :
    (Plain i ↔
        ∀ s m, Observes s m → Alike Observes (dispatch i.encode s) (exec platform i m)) ∧
      (Plain i ∧ SetsCodes i ↔
        ∀ s m, ObservesCodes s m → Alike ObservesCodes (dispatch i.encode s) (exec platform i m)) := by
  have hforward : Plain i → ∀ s m, Observes s m →
      Alike Observes (dispatch i.encode s) (exec platform i m) := by
    intro hplain s m h
    have hboth := exec_alike h i.encode
    rw [Instr.decode_encode] at hboth
    exact hboth.mono fun _ _ _ _ hiff => hiff.2 (faithful_of_plain hplain m)
  refine ⟨⟨hforward, fun hall => ?_⟩, ⟨fun hboth s m h => ?_, fun hall => ⟨?_, ?_⟩⟩⟩
  · exact plain_of_faithful fun sign m' hok =>
      faithful_of_alike (observes_processor _ _) hok (hall _ _ (observes_processor _ _))
  · refine (hforward hboth.1 s m h.toObserves).mono fun t m' ht hm' hobs => ?_
    have hdecode := Instr.decode_encode i
    rw [← hdecode] at hm'
    exact codes_of_dispatch h (hdecode.symm ▸ hboth.2) ht hm' hobs
  · -- `numbered`, with the flag of the sign in `R_COND`
    refine plain_of_faithful fun sign m' hok => ?_
    have hobs : ObservesCodes (numbered.setReg .cond (flagOf sign).code) (numbered.processor sign) :=
      ⟨(observes_processor numbered sign).setCond _ sign, by simp [State.processor]⟩
    exact faithful_of_alike hobs.toObserves hok
      ((hall _ _ hobs).mono fun _ _ _ _ h => h.toObserves)
  · by_contra hnot
    have hobs : ObservesCodes cleared (cleared.processor .pos) :=
      ⟨observes_processor _ _, rfl⟩
    cases i with
    | and dr sr1 op2 =>
        have hsr1 : (cleared.processor .pos).regs sr1 = 0 :=
          Function.update_of_ne (Reg.ofId_general sr1).ne_pc ..
        have hexec : exec platform (.and dr sr1 op2) (cleared.processor .pos)
            = .ok ((cleared.processor .pos).result dr 0) := by
          simp [exec, hsr1]
        exact not_codes_of_result hnot hexec (hall _ _ hobs)
    | ldi dr offset =>
        exact not_codes_of_result hnot (exec_ldi_cleared dr offset) (hall _ _ hobs)
    | _ => exact hnot trivial

/-! ## Programs in memory -/

/-- What an image file leaves in cleared memory. -/
def imageMemory (o : Word) (words : List Word) : Memory := fun j =>
  if o.toNat ≤ j.val then (words[j.val - o.toNat]?).getD 0 else 0

/-- The machine starts on an image file. -/
theorem boot_imageFile (o : Word) (words : List Word) (origin : Word) (stdin : Input Byte) :
    boot (some (imageFile o words)) origin stdin
      = .ok (emulateStart { initialState stdin with memory := imageMemory o words }) := by
  obtain ⟨m, hm, hcell⟩ := readImageFile_cells (imageFile o words) origin (initialState stdin)
  have hmem : m = imageMemory o words := by
    funext j
    rw [hcell, imageWord_imageFile, imageMemory]
    split
    · next hj =>
        have hfits : j.val - o.toNat < uint16Max - o.toNat := by omega
        rw [List.getElem?_take_of_lt hfits]
        rfl
    · rfl
  rw [boot, hm, hmem]
  rfl

/-- The instruction of the program at an address. -/
def codeAt (prog : List Instr) (a : Word) : Option Instr :=
  if 0x3000 ≤ a.toNat then prog[a.toNat - 0x3000]? else none

/-- The words of the program are in memory. -/
def InPlace (prog : List Instr) (d : Devices) : Prop :=
  ∀ a i, codeAt prog a = some i → ∃ h : a.toNat < uint16Max, d.memory ⟨a.toNat, h⟩ = i.encode

theorem codeAt_lt {prog : List Instr} {a : Word} {i : Instr} (h : codeAt prog a = some i) :
    0x3000 ≤ a.toNat ∧ a.toNat < 0x3000 + prog.length := by
  unfold codeAt at h
  split at h
  · next hle =>
      obtain ⟨hlt, -⟩ := List.getElem?_eq_some_iff.1 h
      omega
  · simp at h

/-- Services leave memory alone. -/
theorem service_memory {vector : BitVec 8} {r0 r0' : Word} {d d' : Devices}
    (h : service vector r0 d = .ok (r0', d')) : d'.memory = d.memory := by
  unfold service at h
  simp only at h
  split at h
  case h_1 | h_2 =>
    obtain ⟨⟨c, s⟩, hget, heq⟩ := map_eq_ok.1 h
    obtain ⟨-, rfl⟩ := Prod.mk.inj heq
    exact (getchar_readOnly hget).memory
  case h_4 | h_5 =>
    obtain ⟨s, hputs, heq⟩ := map_eq_ok.1 h
    obtain ⟨-, rfl⟩ := Prod.mk.inj heq
    obtain ⟨out, -, rfl⟩ := map_eq_ok.1 hputs
    rfl
  all_goals
    obtain ⟨-, rfl⟩ := Prod.mk.inj (Except.ok.inj h)
    rfl

/-- Below the device registers, nothing but a store disturbs a program. -/
theorem keeps_platform {prog : List Instr} (hlen : 0x3000 + prog.length ≤ 0xFE00) :
    Keeps platform (codeAt prog) (InPlace prog) where
  here {d a i} hI hcode := by
    obtain ⟨hlt, hcell⟩ := hI a i hcode
    have hdev : ¬ IsDevice a := by
      have hbelow := (codeAt_lt hcode).2
      rintro (rfl | rfl | rfl | rfl) <;>
        exact absurd (Nat.lt_of_lt_of_le hbelow hlen) (by decide)
    exact ⟨_, platform_read_cell hdev hlt, by rw [hcell, Instr.decode_encode]⟩
  read {d a v d'} hI hread := by
    intro b i hcode
    rw [platform_read_memory hread]
    exact hI b i hcode
  write {d a v d'} hI hspared hwrite := by
    intro b i hcode
    obtain ⟨hlt, hcell⟩ := hI b i hcode
    obtain ⟨s, hs, rfl⟩ := map_eq_ok.1 hwrite
    obtain ⟨ha, rfl⟩ := memoryWrite_eq_ok.1 hs
    have hne : (⟨b.toNat, hlt⟩ : Fin uint16Max) ≠ ⟨a.toNat, ha⟩ := by
      intro heq
      have hab : b = a := BitVec.eq_of_toNat_eq (Fin.mk.inj heq)
      rw [hab, hspared] at hcode
      simp at hcode
    exact ⟨hlt, (Function.update_of_ne hne ..).trans hcell⟩
  service {d vector r r' d'} hI hservice := by
    intro b i hcode
    rw [service_memory hservice]
    exact hI b i hcode

/-- The image of a program and its data. -/
def programImage (prog : List Instr) (data : List Word) : List Byte :=
  imageFile 0x3000 (prog.map Instr.encode ++ data)

theorem inPlace_imageMemory {prog : List Instr} (data : List Word) {d : Devices}
    (hlen : 0x3000 + prog.length ≤ 0xFE00)
    (hmem : d.memory = imageMemory 0x3000 (prog.map Instr.encode ++ data)) : InPlace prog d := by
  intro a i hcode
  obtain ⟨hle, hlt⟩ := codeAt_lt hcode
  have hfits : a.toNat < 65535 := by omega
  refine ⟨hfits, ?_⟩
  rw [codeAt, if_pos hle] at hcode
  obtain ⟨hindex, hget⟩ := List.getElem?_eq_some_iff.1 hcode
  refine (congrFun hmem _).trans ((if_pos hle).trans ?_)
  change ((prog.map Instr.encode ++ data)[a.toNat - 0x3000]?).getD 0 = _
  rw [List.getElem?_append_left (by simpa using hindex), List.getElem?_map, hcode]
  rfl

/-- The run of a program goes on in its code and does not store into it. -/
def KeepsToCode (prog : List Instr) (n : ℕ) (m₀ : Machine Devices) : Prop :=
  ∀ k < n, ∀ m, steps (stepCode platform (codeAt prog)) k m₀ = .ok m →
    (codeAt prog m.pc).isSome = true ∧ Spares platform (codeAt prog) m

theorem mem_of_codeAt {prog : List Instr} {a : Word} {i : Instr} (h : codeAt prog a = some i) :
    i ∈ prog := by
  unfold codeAt at h
  split at h
  · exact List.mem_of_getElem? h
  · simp at h

/-- In its code, a program in place is what is fetched. -/
theorem fetch_code {prog : List Instr} (hlen : 0x3000 + prog.length ≤ 0xFE00)
    {m m' : Machine Devices} {i : Instr} {w : Word} (hI : InPlace prog m.bus)
    (hcode : codeAt prog m.pc = some i) (hfetch : Isa.fetch platform m = .ok (w, m')) :
    Instr.decode w = i ∧ m' = { m with pc := m.pc + 1 } := by
  obtain ⟨w', hread, hdecode⟩ := (keeps_platform hlen).here hI hcode
  rw [Isa.fetch, hread] at hfetch
  obtain ⟨rfl, rfl⟩ := Prod.mk.inj (Except.ok.inj hfetch)
  exact ⟨hdecode, rfl⟩

/-- In its code, a program of plain instructions makes faithful steps. -/
theorem faithfulStep_of_plain {prog : List Instr} (hplain : ∀ i ∈ prog, Plain i)
    (hlen : 0x3000 + prog.length ≤ 0xFE00) {m : Machine Devices} (hI : InPlace prog m.bus)
    (hcode : (codeAt prog m.pc).isSome = true) : FaithfulStep m := by
  obtain ⟨i, hi⟩ := Option.isSome_iff_exists.1 hcode
  intro w m' hfetch
  rw [(fetch_code hlen hI hi hfetch).1]
  exact faithful_of_plain (hplain i (mem_of_codeAt hi)) m'

/-- The instructions that do not store. -/
def NoStore : Instr → Prop
  | .st .. | .sti .. | .str .. => False
  | _ => True

instance : DecidablePred NoStore := fun i => by
  unfold NoStore
  split <;> infer_instance

theorem not_storesTo {i : Instr} (h : NoStore i) (m : Machine Devices) (a : Word) :
    ¬ StoresTo platform i m a := by
  cases i <;> first | exact id | exact absurd h id

/-- In its code, a program without stores does not overwrite itself. -/
theorem spares_of_noStore {prog : List Instr} (hnone : ∀ i ∈ prog, NoStore i)
    (hlen : 0x3000 + prog.length ≤ 0xFE00) {m : Machine Devices} (hI : InPlace prog m.bus)
    (hcode : (codeAt prog m.pc).isSome = true) : Spares platform (codeAt prog) m := by
  obtain ⟨i, hi⟩ := Option.isSome_iff_exists.1 hcode
  intro w m' hfetch a ha
  rw [(fetch_code hlen hI hi hfetch).1] at ha
  exact absurd ha (not_storesTo (hnone i (mem_of_codeAt hi)) m' a)

/-- A program without stores keeps to its code as long as the program counter stays in it. -/
theorem keepsToCode_of_noStore {prog : List Instr} {n : ℕ} {m₀ : Machine Devices}
    (hnone : ∀ i ∈ prog, NoStore i) (hlen : 0x3000 + prog.length ≤ 0xFE00)
    (hI : InPlace prog m₀.bus)
    (hinside : ∀ k < n, ∀ m, steps (stepCode platform (codeAt prog)) k m₀ = .ok m →
      (codeAt prog m.pc).isSome = true) : KeepsToCode prog n m₀ := by
  induction n with
  | zero => exact fun k hk => absurd hk (Nat.not_lt_zero k)
  | succ n ih =>
      have hkeeps := ih fun k hk => hinside k (Nat.lt_succ_of_lt hk)
      intro k hk m hm
      have hcode := hinside k hk m hm
      have hIm : InPlace prog m.bus := keeps_steps (keeps_platform hlen) hI
        (fun j hj m' hm' => (hkeeps j (Nat.lt_of_lt_of_le hj (Nat.le_of_lt_succ hk)) m' hm').2) hm
      exact ⟨hcode, spares_of_noStore hnone hlen hIm hcode⟩

/-- For every program of plain instructions that fits below the device registers, all data behind
    it, every standard input and every number of steps: the machine, started on the image, and the
    program, run instruction by instruction as it reads, end alike, as long as the program neither
    leaves its code nor stores into it. -/
theorem plain_program {prog : List Instr} (data : List Word) (origin : Word) (stdin : Input Byte)
    (sign : Sign) (n : ℕ) (hplain : ∀ i ∈ prog, Plain i)
    (hlen : 0x3000 + prog.length ≤ 0xFE00) :
    ∃ s₀, boot (some (programImage prog data)) origin stdin = .ok s₀ ∧
      (KeepsToCode prog n (s₀.processor sign) →
        Alike Observes (steps emulateStep n s₀)
          (steps (stepCode platform (codeAt prog)) n (s₀.processor sign))) := by
  refine ⟨_, boot_imageFile _ _ origin stdin, fun hkeeps => ?_⟩
  generalize hs₀ : emulateStart _ = s₀ at hkeeps ⊢
  have hI : InPlace prog (s₀.processor sign).bus := by
    subst hs₀
    exact inPlace_imageMemory data hlen rfl
  have h := keeps_platform hlen
  have hspares : ∀ j ≤ n, ∀ k < j, ∀ m,
      steps (stepCode platform (codeAt prog)) k (s₀.processor sign) = .ok m →
      Spares platform (codeAt prog) m :=
    fun j hj k hk m hm => (hkeeps k (Nat.lt_of_lt_of_le hk hj) m hm).2
  rw [← steps_eq_stepsCode h hI (hspares n (Nat.le_refl n))]
  refine alike_steps_along FaithfulStep ?_ (observes_processor s₀ sign) ?_
  · intro s m hobs hfaithful
    exact (step_alike hobs).mono fun _ _ _ _ hiff => hiff.2 hfaithful
  · intro k hk m hm
    rw [steps_eq_stepsCode h hI (hspares k (Nat.le_of_lt hk))] at hm
    exact faithfulStep_of_plain hplain hlen (keeps_steps h hI (hspares k (Nat.le_of_lt hk)) hm)
      (hkeeps k hk m hm).1

/-- A count, a branch over the next instruction, `HALT`. -/
def skipping : List Instr :=
  [.add 0 0 (.imm 1), .br 7 1, .not 0 0, .trap 0x25]

/-- The program that branches, in its three steps. -/
theorem plain_program_skipping :
    ∃ s₀, boot (some (programImage skipping [])) 0 noInput = .ok s₀ ∧
      Alike Observes (steps emulateStep 3 s₀)
        (steps (stepCode platform (codeAt skipping)) 3 (s₀.processor .zero)) := by
  have hplain : ∀ i ∈ skipping, Plain i := by decide
  obtain ⟨s₀, hboot, hrun⟩ := plain_program [] 0 noInput .zero 3 hplain (by decide)
  refine ⟨s₀, hboot, hrun ?_⟩
  obtain rfl := Except.ok.inj ((boot_imageFile _ _ 0 noInput).symm.trans hboot)
  refine keepsToCode_of_noStore (by decide) (by decide) (inPlace_imageMemory [] (by decide) rfl) ?_
  intro k hk m hm
  interval_cases k
  all_goals
    obtain rfl := Except.ok.inj hm
    rfl

end Yavm.Lc3
