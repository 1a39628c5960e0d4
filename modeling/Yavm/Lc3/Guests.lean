import Yavm.Basis.Leads
import Yavm.Lc3.Endings
import Yavm.Lc3.Programs

set_option autoImplicit false

/-! # Guest programs

Programs for the machine, verified from image file to output. A guest is reasoned about on the
processor of the instruction set: `leads_at` carries what a plain instruction does there over to the
C machine, and the triples of `Basis.Leads` compose the instructions. `hello_ends` is a program that
prints any string that fits into memory, `cat_run` one that copies its input to its output, however
the input arrives. -/

namespace Yavm.Lc3

open Basis Isa

/-! ## Triples for guests -/

/-- The program is in place, and the state shows a processor with `P`. -/
def Shows (prog : List Instr) (P : Machine Devices → Prop) (s : State) : Prop :=
  InPlace prog s.devices ∧ ∃ m, Observes s m ∧ P m

/-- The processor is at `pc`, with `r0` in `R0` and these devices. -/
structure At (pc r0 : Word) (d : Devices) (m : Machine Devices) : Prop where
  pc : m.pc = pc
  r0 : m.regs 0 = r0
  bus : m.bus = d

section

variable {prog : List Instr} {i : Instr} {pc r0 : Word} {d : Devices}
  (hlen : 0x3000 + prog.length ≤ 0xFE00) (hcode : codeAt prog pc = some i)
  (hrunning : d.running = true)
include hlen hcode hrunning

/-- On a program in place, the processor executes the instruction that the program has at `pc`. -/
theorem step_at {m : Machine Devices} (hI : InPlace prog m.bus) (h : At pc r0 d m) :
    Isa.step platform m = exec platform i { m with pc := m.pc + 1 } := by
  have hstopped : platform.stopped m.bus = none := by
    rw [h.bus]
    exact if_pos hrunning
  rw [← (keeps_platform hlen).stepCode_eq hI, stepCode, h.pc, hcode]
  simp only [hstopped]

variable (hplain : Plain i)
include hplain

theorem step_shows {s : State} {m : Machine Devices} (hI : InPlace prog m.bus) (hobs : Observes s m)
    (h : At pc r0 d m) :
    Alike Observes (emulateStep s) (exec platform i { m with pc := m.pc + 1 }) := by
  have hfaithful : FaithfulStep m := by
    intro w m' hfetch
    rw [(fetch_code hlen hI (h.pc ▸ hcode) hfetch).1]
    exact faithful_of_plain hplain m'
  have hstep := step_alike hobs
  rw [step_at hlen hcode hrunning hI h] at hstep
  exact hstep.mono fun _ _ _ _ hiff => hiff.2 hfaithful

/-- **One instruction.** What a plain instruction that stores nothing does to the processor, it does
    to the machine. -/
theorem leads_at {pc' r0' : Word} {d' : Devices} (hstore : NoStore i)
    (h : ∀ m, At (pc + 1) r0 d m → ∃ m', exec platform i m = .ok m' ∧ At pc' r0' d' m') :
    Leads emulateStep 1 (Shows prog (At pc r0 d)) (Shows prog (At pc' r0' d')) := by
  refine leads_one fun s hs => ?_
  obtain ⟨hI, m, hobs, hat⟩ := hs
  rw [hobs.devices] at hI
  obtain ⟨m', hexec, hat'⟩ := h { m with pc := m.pc + 1 } ⟨by rw [hat.pc], hat.r0, hat.bus⟩
  have hstep := step_shows hlen hcode hrunning hplain hI hobs hat
  rw [hexec] at hstep
  obtain ⟨t, ht, hobs'⟩ := hstep.exists_left
  refine ⟨t, ht, ?_, m', hobs', hat'⟩
  rw [hobs'.devices]
  exact (keeps_platform hlen).exec (m := { m with pc := m.pc + 1 }) hI
    (fun a ha => absurd ha (not_storesTo hstore _ a)) hexec

/-- An instruction the processor cannot complete. -/
theorem fails_at {e : Stop}
    (h : ∀ m, At (pc + 1) r0 d m → exec platform i m = .error e) :
    Fails emulateStep 0 e (Shows prog (At pc r0 d)) := by
  refine fails_zero fun s hs => ?_
  obtain ⟨hI, m, hobs, hat⟩ := hs
  rw [hobs.devices] at hI
  have hstep := step_shows hlen hcode hrunning hplain hI hobs hat
  rw [h { m with pc := m.pc + 1 } ⟨by rw [hat.pc], hat.r0, hat.bus⟩] at hstep
  exact hstep.error_left

end

/-! ## The instructions of the guests -/

theorem exec_lea {pc r0 : Word} {d : Devices} (offset : BitVec 9) (m : Machine Devices)
    (h : At pc r0 d m) :
    ∃ m', exec platform (.lea 0 offset) m = .ok m' ∧ At pc (pc + offset.signExtend 16) d m' := by
  refine ⟨m.result 0 (m.near offset), rfl, h.pc, ?_, h.bus⟩
  change Function.update m.regs 0 (m.near offset) 0 = _
  rw [Function.update_self, Machine.near, h.pc]

theorem exec_goto {pc r0 : Word} {d : Devices} (offset : BitVec 9) (m : Machine Devices)
    (h : At pc r0 d m) :
    ∃ m', exec platform (.br 7 offset) m = .ok m' ∧ At (pc + offset.signExtend 16) r0 d m' := by
  have hmeets : m.sign.meets 7 = true := by
    cases m.sign <;> rfl
  refine ⟨_, congrArg Except.ok (if_pos hmeets), ?_, h.r0, h.bus⟩
  rw [← h.pc]
  rfl

theorem exec_trap {pc r0 r0' : Word} {d d' : Devices} {vector : BitVec 8}
    (hservice : service vector r0 d = .ok (r0', d')) (m : Machine Devices) (h : At pc r0 d m) :
    ∃ m', exec platform (.trap vector) m = .ok m' ∧ At pc r0' d' m' := by
  have hexec : exec platform (.trap vector) m
      = .ok (Machine.setReg 0 r0' { m with bus := d' }) := by
    change (service vector (m.regs 0) m.bus).map _ = _
    rw [h.r0, h.bus, hservice]
    rfl
  refine ⟨_, hexec, h.pc, ?_, rfl⟩
  rw [Machine.setReg_regs, Function.update_self]

theorem exec_trap_error {pc r0 : Word} {d : Devices} {vector : BitVec 8} {e : Stop}
    (hservice : service vector r0 d = .error e) (m : Machine Devices) (h : At pc r0 d m) :
    exec platform (.trap vector) m = .error e := by
  change (service vector (m.regs 0) m.bus).map _ = _
  rw [h.r0, h.bus, hservice]
  rfl

theorem service_getc {r0 : Word} {d : Devices} {c : Option Byte} {stdin : Input Byte}
    (h : d.stdin.getchar = some (c, stdin)) :
    service 0x20 r0 d = .ok (charCode c, { d with stdin }) := by
  change (getchar (d.state r0)).map _ = _
  have hget : getchar (d.state r0) = _ := getchar_eq_ok.2 ⟨stdin, h, rfl⟩
  rw [hget]
  rfl

theorem service_getc_blocked {r0 : Word} {d : Devices} (h : d.stdin.getchar = none) :
    service 0x20 r0 d = .error .blocked := by
  have hget : getchar (d.state r0) = .error .blocked := by
    simp only [getchar, Devices.state, h]
  change (getchar (d.state r0)).map _ = _
  rw [hget]
  rfl

theorem service_out (r0 : Word) (d : Devices) :
    service 0x21 r0 d = .ok (r0, { d with stdout := d.stdout ++ [lowByte r0] }) := by
  change Except.ok (r0, (trapOut (d.state r0)).devices) = _
  rw [trapOut, state_r0]
  rfl

theorem service_puts {str : List Byte} (hstr : 0 ∉ str) {r0 : Word} {d : Devices}
    (h : StoredAt d.memory r0.toNat (unpacked str ++ [0])) :
    service 0x22 r0 d = .ok (r0, { d with stdout := d.stdout ++ str }) := by
  have hputs : trapPuts (d.state r0) = .ok ((d.state r0).print str) :=
    trapPuts_stored hstr (by rw [state_r0]; exact h)
  change (trapPuts (d.state r0)).map _ = _
  rw [hputs]
  rfl

theorem service_puts_error {r0 : Word} {d : Devices}
    (h : ∀ j : Fin uint16Max, r0.toNat ≤ j.val → d.memory j ≠ 0) :
    service 0x22 r0 d = .error (.pointer uint16Max) := by
  have hputs : trapPuts (d.state r0) = .error (.pointer uint16Max) := by
    cases hrun : trapPuts (d.state r0) with
    | ok t =>
        obtain ⟨j, hj, hzero⟩ := (trap_ends_iff putsBytes (d.state r0)).1 ⟨t, hrun⟩
        rw [state_r0] at hj
        exact absurd hzero (h j hj)
    | error e =>
        rw [stringLoop_eq_error (map_eq_error.1 hrun)]
  change (trapPuts (d.state r0)).map _ = _
  rw [hputs]
  rfl

theorem service_halt (r0 : Word) (d : Devices) :
    service 0x25 r0 d
      = .ok (r0, { d with running := false, stdout := d.stdout ++ ascii "Halting...\n" }) :=
  rfl

/-! ## Starting a guest -/

/-- The devices of a machine that has just loaded the words of an image. -/
def loaded (words : List Word) (stdin : Input Byte) : Devices :=
  ⟨imageMemory 0x3000 words, true, stdin, []⟩

theorem shows_boot {prog : List Instr} (data : List Word) (origin : Word) (stdin : Input Byte)
    (hlen : 0x3000 + prog.length ≤ 0xFE00) :
    ∃ s₀, boot (some (programImage prog data)) origin stdin = .ok s₀ ∧
      Shows prog (At 0x3000 0 (loaded (prog.map Instr.encode ++ data) stdin)) s₀ := by
  refine ⟨_, boot_imageFile _ _ origin stdin, inPlace_imageMemory data hlen rfl, _,
    observes_processor _ .zero, rfl, rfl, rfl⟩

/-! ## Printing a string -/

/-- `LEA R0, #2`, `PUTS`, `HALT`; the string follows. -/
def hello : List Instr :=
  [.lea 0 2, .trap 0x22, .trap 0x25]

/-- The program with its string, one byte per word, and a zero word. -/
def helloLaunch (str : List Byte) (origin : Word) (stdin : Input Byte) : Launch where
  file := some (programImage hello (unpacked str ++ [0]))
  origin := origin
  stdin := stdin

theorem hello_length : 0x3000 + hello.length ≤ 0xFE00 := by decide

theorem leads_hello {d d' : Devices} (hrunning : d.running = true)
    (hputs : service 0x22 0x3003 d = .ok (0x3003, d')) (hrunning' : d'.running = true) :
    Leads emulateStep 3 (Shows hello (At 0x3000 0 d))
      (Shows hello (At 0x3003 0x3003
        { d' with running := false, stdout := d'.stdout ++ ascii "Halting...\n" })) := by
  have hlea : Leads emulateStep 1 (Shows hello (At 0x3000 0 d))
      (Shows hello (At 0x3001 0x3003 d)) :=
    leads_at hello_length rfl hrunning (by decide) (by decide) (exec_lea 2)
  have hprint : Leads emulateStep 1 (Shows hello (At 0x3001 0x3003 d))
      (Shows hello (At 0x3002 0x3003 d')) :=
    leads_at hello_length rfl hrunning (by decide) (by decide) (exec_trap hputs)
  have hhalt : Leads emulateStep 1 (Shows hello (At 0x3002 0x3003 d'))
      (Shows hello (At 0x3003 0x3003
        { d' with running := false, stdout := d'.stdout ++ ascii "Halting...\n" })) :=
    leads_at hello_length rfl hrunning' (by decide) (by decide) (exec_trap (service_halt 0x3003 d'))
  exact (hlea.trans hprint).trans hhalt

theorem fails_hello {d : Devices} (hrunning : d.running = true) {e : Stop}
    (hputs : service 0x22 0x3003 d = .error e) :
    Fails emulateStep 1 e (Shows hello (At 0x3000 0 d)) := by
  have hlea : Leads emulateStep 1 (Shows hello (At 0x3000 0 d))
      (Shows hello (At 0x3001 0x3003 d)) :=
    leads_at hello_length rfl hrunning (by decide) (by decide) (exec_lea 2)
  exact hlea.fails (fails_at hello_length rfl hrunning (by decide) (exec_trap_error hputs))

/-- Words of an image that fit are in memory. -/
theorem storedAt_imageMemory {o : Word} (before : List Word) {words : List Word}
    (hfits : o.toNat + before.length + words.length ≤ uint16Max) :
    StoredAt (imageMemory o (before ++ words)) (o.toNat + before.length) words := by
  induction words generalizing before with
  | nil => trivial
  | cons word words ih =>
      rw [List.length_cons] at hfits
      have hlt : o.toNat + before.length < uint16Max := by omega
      refine ⟨⟨hlt, ?_⟩, ?_⟩
      · rw [imageMemory, if_pos (Nat.le_add_right ..), Nat.add_sub_cancel_left,
          List.getElem?_append_right (Nat.le_refl _), Nat.sub_self]
        rfl
      · have hlen : (before ++ [word]).length = before.length + 1 := List.length_append
        have htail := ih (before ++ [word]) (by omega)
        rwa [List.append_assoc, hlen, ← Nat.add_assoc] at htail

/-- Behind a string that does not fit there is no zero word. -/
theorem imageMemory_ne_zero {o : Word} (before after : List Word) {words : List Word}
    (hwords : 0 ∉ words)
    (hlen : uint16Max ≤ o.toNat + before.length + words.length) (j : Fin uint16Max)
    (hj : o.toNat + before.length ≤ j.val) :
    imageMemory o (before ++ (words ++ after)) j ≠ 0 := by
  have hindex : j.val - o.toNat - before.length < words.length := by omega
  rw [imageMemory, if_pos (by omega), List.getElem?_append_right (by omega),
    List.getElem?_append_left hindex, List.getElem?_eq_getElem hindex]
  exact fun hzero => hwords (hzero ▸ List.getElem_mem hindex)

/-- For every string without zero bytes, every standard input and every terminal: started on `hello`
    and the string, `main` prints the string and the message of `HALT` and returns, if the string is
    shorter than `0xCFFC` bytes; if it is not, the second call in the loop leaves `memory`. -/
theorem hello_ends {str : List Byte} (hstr : 0 ∉ str) (origin : Word) (stdin : Input Byte)
    (terminal : Termios) :
    if str.length < 0xCFFC then
      ∃ p, play (Process.react (helloLaunch str origin stdin)) (List.replicate 8 .call)
          (.start terminal) = .ok p ∧
        p.phase = .ended (.exit 0 (str ++ ascii "Halting...\n"))
    else
      play (Process.react (helloLaunch str origin stdin)) (List.replicate 6 .call)
        (.start terminal) = .error (.pointer uint16Max) := by
  obtain ⟨s₀, hstarts, hshows⟩ := shows_boot (unpacked str ++ [0]) origin stdin hello_length
  have hboot : boot (helloLaunch str origin stdin).file (helloLaunch str origin stdin).origin
      (helloLaunch str origin stdin).stdin = .ok s₀ := hstarts
  have hbefore : (hello.map Instr.encode).length = 3 := rfl
  have hstrlen : (unpacked str).length = str.length := List.length_map _
  have hstart : (0x3000 : Word).toNat = 0x3000 := rfl
  split
  · next hfits =>
      have hstored : StoredAt
          (loaded (hello.map Instr.encode ++ (unpacked str ++ [0])) stdin).memory
          (0x3003 : Word).toNat (unpacked str ++ [0]) := by
        refine storedAt_imageMemory (o := 0x3000) (hello.map Instr.encode) ?_
        rw [hbefore, List.length_append, hstrlen, List.length_singleton, hstart]
        exact show 0x3000 + 3 + (str.length + 1) ≤ 65535 by omega
      obtain ⟨t, ht, -, m, hobs, hat⟩ := leads_hello rfl (service_puts hstr hstored) rfl s₀ hshows
      have hdevices : t.devices = _ := hobs.devices.trans hat.bus
      obtain ⟨p, hp, hphase⟩ := play_stopped terminal hboot ht (congrArg Devices.running hdevices)
      refine ⟨p, hp, hphase.trans ?_⟩
      rw [show t.stdout = str ++ ascii "Halting...\n" from congrArg Devices.stdout hdevices]
  · next hfits =>
      have hnone : ∀ j : Fin uint16Max, (0x3003 : Word).toNat ≤ j.val →
          (loaded (hello.map Instr.encode ++ (unpacked str ++ [0])) stdin).memory j ≠ 0 := by
        refine imageMemory_ne_zero (o := 0x3000) (hello.map Instr.encode) [0]
          (zero_notMem_unpacked hstr) ?_
        rw [hbefore, hstrlen, hstart]
        exact show 65535 ≤ 0x3000 + 3 + str.length by omega
      exact play_stuck terminal hboot (fails_hello rfl (service_puts_error hnone) s₀ hshows)
        (by simp) (by simp)

/-- A short string. -/
theorem hello_ends_hi :
    ∃ p, play (Process.react (helloLaunch [0x68, 0x69] 0 noInput)) (List.replicate 8 .call)
        (.start cookedTerminal) = .ok p ∧
      p.phase = .ended (.exit 0 ([0x68, 0x69] ++ ascii "Halting...\n")) := by
  have hends := hello_ends (show 0 ∉ ([0x68, 0x69] : List Byte) by decide) 0 noInput cookedTerminal
  rwa [if_pos (by decide)] at hends

/-! ## Copying the input -/

/-- `GETC`, `OUT`, and back. -/
def cat : List Instr :=
  [.trap 0x20, .trap 0x21, .br 7 (-3)]

theorem cat_length : 0x3000 + cat.length ≤ 0xFE00 := by decide

/-- One round, with the next byte of the input, or at its end. -/
theorem leads_cat {r0 : Word} {d : Devices} (hrunning : d.running = true) {c : Option Byte}
    {stdin : Input Byte} (hget : d.stdin.getchar = some (c, stdin)) :
    Leads emulateStep 3 (Shows cat (At 0x3000 r0 d))
      (Shows cat (At 0x3000 (charCode c)
        { d with stdin, stdout := d.stdout ++ [lowByte (charCode c)] })) := by
  have hgetc : Leads emulateStep 1 (Shows cat (At 0x3000 r0 d))
      (Shows cat (At 0x3001 (charCode c) { d with stdin })) :=
    leads_at cat_length rfl hrunning (by decide) (by decide) (exec_trap (service_getc hget))
  generalize hd' : ({ d with stdin } : Devices) = d' at hgetc ⊢
  have hrunning' : d'.running = true := hd' ▸ hrunning
  have hout : Leads emulateStep 1 (Shows cat (At 0x3001 (charCode c) d'))
      (Shows cat (At 0x3002 (charCode c)
        { d' with stdout := d'.stdout ++ [lowByte (charCode c)] })) :=
    leads_at cat_length rfl hrunning' (by decide) (by decide) (exec_trap (service_out _ d'))
  have hback : ∀ d : Devices, d.running = true →
      Leads emulateStep 1 (Shows cat (At 0x3002 (charCode c) d))
        (Shows cat (At 0x3000 (charCode c) d)) := fun d hd =>
    leads_at cat_length rfl hd (by decide) (by decide) (exec_goto (-3))
  subst hd'
  exact (hgetc.trans hout).trans (hback { d with stdin, stdout := _ } hrunning)

theorem fails_cat {r0 : Word} {d : Devices} (hrunning : d.running = true)
    (hget : d.stdin.getchar = none) :
    Fails emulateStep 0 .blocked (Shows cat (At 0x3000 r0 d)) :=
  fails_at cat_length rfl hrunning (by decide) (exec_trap_error (service_getc_blocked hget))

/-- The output after `k` rounds: the bytes of the input, and `0xFF` for each round after its end. -/
def copied (input : List Byte) (k : ℕ) : List Byte :=
  input.take k ++ List.replicate (k - input.length) 0xFF

/-- Before round `k`. -/
structure CatRound (input : Input Byte) (k : ℕ) (d : Devices) : Prop where
  running : d.running = true
  stdout : d.stdout = copied input.pending k
  pending : d.stdin.pending = input.pending.drop k
  closed : d.stdin.closed = input.closed

theorem copied_step {input : List Byte} {k : ℕ} :
    copied input (k + 1) = copied input k ++ [lowByte (charCode input[k]?)] := by
  unfold copied
  by_cases hk : k < input.length
  · rw [List.getElem?_eq_getElem hk, Nat.sub_eq_zero_of_le hk,
      Nat.sub_eq_zero_of_le (Nat.le_of_lt hk), List.take_add_one, List.getElem?_eq_getElem hk]
    simp [charCode, lowByte]
  · have hle : input.length ≤ k := Nat.le_of_not_lt hk
    rw [List.getElem?_eq_none hle, List.take_of_length_le hle, List.take_of_length_le (by omega),
      Nat.succ_sub hle, List.replicate_succ', List.append_assoc]
    rfl

/-- The next `getchar` before round `k`. -/
theorem CatRound.getchar {input : Input Byte} {k : ℕ} {d : Devices} (h : CatRound input k d)
    (hmore : input.closed = true ∨ k < input.pending.length) :
    ∃ stdin, d.stdin.getchar = some (input.pending[k]?, stdin) ∧
      stdin.pending = input.pending.drop (k + 1) ∧ stdin.closed = input.closed := by
  by_cases hk : k < input.pending.length
  · have hdrop : d.stdin.pending = input.pending[k] :: input.pending.drop (k + 1) := by
      rw [h.pending, List.drop_eq_getElem_cons hk]
    obtain ⟨b, stdin, hget⟩ := Input.getchar_of_pending (i := d.stdin) (by simp [h.pending, hk])
    obtain ⟨rfl, hrest⟩ := List.cons.inj ((Input.pending_of_getchar hget).symm.trans hdrop)
    refine ⟨stdin, ?_, hrest, (Input.closed_getchar hget).trans h.closed⟩
    rw [hget, List.getElem?_eq_getElem hk]
  · have hle : input.pending.length ≤ k := Nat.le_of_not_lt hk
    have hnil : d.stdin.pending = [] := by
      rw [h.pending, List.drop_of_length_le hle]
    have hclosed : d.stdin.closed = true := h.closed.trans (hmore.resolve_right hk)
    have hget := Input.getchar_of_pending_nil hnil
    rw [if_pos hclosed] at hget
    obtain ⟨stdin, hget⟩ := hget
    refine ⟨stdin, ?_, ?_, (Input.closed_getchar hget).trans h.closed⟩
    · rw [hget, List.getElem?_eq_none hle]
    · rw [(Input.pending_of_getchar_end hget).2, List.drop_of_length_le (by omega)]

/-- The loop invariant of `cat`: round `k` is next. -/
def BeforeRound (input : Input Byte) (k : ℕ) (s : State) : Prop :=
  ∃ r0 d, CatRound input k d ∧ Shows cat (At 0x3000 r0 d) s

theorem leads_round {input : Input Byte} {k : ℕ}
    (hmore : input.closed = true ∨ k < input.pending.length) :
    Leads emulateStep 3 (BeforeRound input k) (BeforeRound input (k + 1)) := by
  intro s hs
  obtain ⟨r0, d, hround, hshows⟩ := hs
  obtain ⟨stdin, hget, hpending, hclosed⟩ := hround.getchar hmore
  obtain ⟨t, ht, hshows'⟩ := leads_cat hround.running hget s hshows
  refine ⟨t, ht, _, { d with stdin, stdout := _ }, ⟨hround.running, ?_, hpending, hclosed⟩, hshows'⟩
  rw [copied_step, ← hround.stdout]

/-- For all data behind the program and every standard input, however it arrives: started on `cat`,
    the machine has printed the first `k` bytes of the input after `3 * k` steps, and has not taken
    any others. On an input that stays open it then waits for ever; on one that ends it goes on,
    printing `0xFF`. -/
theorem cat_run (data : List Word) (origin : Word) (input : Input Byte) :
    ∃ s₀, boot (some (programImage cat data)) origin input = .ok s₀ ∧
      (∀ k, input.closed = true ∨ k ≤ input.pending.length →
        ∃ t, steps emulateStep (3 * k) s₀ = .ok t ∧ t.stdout = copied input.pending k ∧
          t.stdin.pending = input.pending.drop k ∧ t.running = true) ∧
      (input.closed = false →
        steps emulateStep (3 * input.pending.length + 1) s₀ = .error .blocked) := by
  obtain ⟨s₀, hboot, hshows⟩ := shows_boot data origin input cat_length
  have hstart : BeforeRound input 0 s₀ := by
    refine ⟨0, _, ⟨rfl, ?_, rfl, rfl⟩, hshows⟩
    simp [copied, loaded]
  have hrounds : ∀ count, input.closed = true ∨ count ≤ input.pending.length →
      Leads emulateStep (3 * count) (BeforeRound input 0) (BeforeRound input count) := by
    intro count hcount
    refine Leads.iterate fun k hk => leads_round ?_
    exact hcount.imp_right fun hle => Nat.lt_of_lt_of_le hk hle
  refine ⟨s₀, hboot, fun k hk => ?_, fun hopen => ?_⟩
  · obtain ⟨t, ht, r0, d, hround, -, m, hobs, hat⟩ := hrounds k hk s₀ hstart
    have hdevices : t.devices = d := hobs.devices.trans hat.bus
    exact ⟨t, ht, (congrArg Devices.stdout hdevices).trans hround.stdout,
      (congrArg (fun d => d.stdin.pending) hdevices).trans hround.pending,
      (congrArg Devices.running hdevices).trans hround.running⟩
  · refine (hrounds _ (Or.inr (Nat.le_refl _))).fails (n := 0) ?_ s₀ hstart
    intro s hs
    obtain ⟨r0, d, hround, hshows⟩ := hs
    have hnil : d.stdin.pending = [] := by
      rw [hround.pending, List.drop_of_length_le (Nat.le_refl _)]
    have hget := Input.getchar_of_pending_nil hnil
    rw [hround.closed, hopen] at hget
    exact fails_cat hround.running hget s hshows

end Yavm.Lc3
