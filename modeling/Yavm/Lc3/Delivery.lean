import Mathlib.Tactic.IntervalCases
import Yavm.Lc3.Execute

set_option autoImplicit false

/-! # Delivery of keyboard input

Three kinds of instruction take a byte from standard input: `GETC`, `IN`, and the loads that reach
`MR_KBDR`. `recordDelivery` is a history variable with the bytes taken and the words the guest
program found for them in the register where it looks. `deliveryLaw_run_iff` shows that the two
agree over a whole run exactly when no `IN` drops a byte: `trapIn` echoes what it reads and leaves
`R0` alone. -/

namespace Yavm.Lc3

open Basis

/-- The register in which the guest program finds the byte an instruction takes. -/
def receiver (instruction : Word) : Reg :=
  if Op.decode instruction = .trap then .r0 else destOf instruction

/-- History variable: the bytes taken from standard input, and for every iteration that took some
    the word in its register afterwards. -/
def recordDelivery (s t : State) : List Byte × List Word → List Byte × List Word
  | (taken, delivered) =>
    let bytes := consumed (newEvents s t)
    match fetch s with
    | .ok (w, _) =>
      (taken ++ bytes, if bytes = [] then delivered else delivered ++ [t.registers (receiver w)])
    | .error _ => (taken ++ bytes, delivered)

/-- Every byte taken is delivered, once, in order and zero-extended. -/
def DeliveryLaw (p : State × List Byte × List Word) : Prop :=
  p.2.2 = p.2.1.map (BitVec.setWidth 16)

instance : DecidablePred DeliveryLaw := fun p =>
  inferInstanceAs (Decidable (p.2.2 = p.2.1.map (BitVec.setWidth 16)))

/-- The next instruction reads keys only to deliver them: neither its fetch nor the pointer read of
    an `LDI` or `STI` goes to `MR_KBDR`, and it does not read past the end of the input. -/
structure ReadsKeysAsData (s : State) : Prop where
  fetch : s.registers .pc ≠ mrKbdr
  pointer : ∀ w s₁, Lc3.fetch s = .ok (w, s₁) → Op.decode w = .ldi ∨ Op.decode w = .sti →
    pcRelative w s₁ ≠ mrKbdr
  input : ∀ t, emulateStep s = .ok t → Event.getchar none ∉ newEvents s t

/-- If the next instruction is `IN`, then `R0` already holds the byte it will take. -/
def InKept (s : State) : Prop :=
  ∀ w s₁, fetch s = .ok (w, s₁) → trapOf w = some .in →
    ∀ b, s.stdin.pending.head? = some b → s.registers .r0 = b.setWidth 16

/-! ## What the first phase does with a byte -/

/-- The calls `new` and the effect `e` of an instruction, as far as they concern the input. -/
inductive TakesByte (instruction : Word) (e : Effect) (new : List Event) : Prop
  /-- Nothing is taken. -/
  | none (hin : trapOf instruction ≠ some .in) (hnew : consumed new = [])
  /-- The result of `getchar` goes to the register. -/
  | delivered (c : Option Byte) (hin : trapOf instruction ≠ some .in)
      (hnew : consumed new = c.toList)
      (hcall : Event.getchar c ∈ new) (hdest : e.dest = some (receiver instruction, charCode c))
  /-- `IN` writes no register. -/
  | dropped (c : Option Byte) (hin : trapOf instruction = some .in) (hnew : new = [.getchar c])
      (hdest : e.dest = Option.none)

/-- A load whose data read may go to `MR_KBDR`, after reads that took nothing. -/
theorem takesByte_load {w a v : Word} {s t : State} {e : Effect} {before : List Event}
    (hop : Op.decode w ≠ .trap) (hbefore : consumed before = [])
    (hread : memoryRead a s = .ok (v, t)) (hdest : e.dest = some (destOf w, v)) :
    ∃ new, Accounts s t new ∧ TakesByte w e (before ++ new) := by
  have hin : trapOf w ≠ some .in := by simp [trapOf_of_ne hop]
  rcases memoryRead_accounts hread with hacc | ⟨-, c, rfl, hacc⟩
  · exact ⟨_, hacc, .none hin (by rw [consumed_append, hbefore]; rfl)⟩
  · refine ⟨_, hacc, .delivered c hin ?_ (by simp) ?_⟩
    · rw [consumed_append, hbefore]
      cases c <;> rfl
    · rw [hdest, receiver, if_neg hop]

/-- A read off `MR_KBDR` takes nothing. -/
theorem memoryRead_takes_nothing {a v : Word} {s t : State} (ha : a ≠ mrKbdr)
    (h : memoryRead a s = .ok (v, t)) : Accounts s t [.read a v] :=
  (memoryRead_accounts h).resolve_right fun hkbdr => ha hkbdr.1

theorem planTrap_takesByte {w : Word} {s t : State} {e : Effect} (hop : Op.decode w = .trap)
    (h : planTrap w s = .ok (e, t)) : ∃ new, Accounts s t new ∧ TakesByte w e new := by
  have htrap := trapOf_eq hop
  have hreceiver : receiver w = .r0 := if_pos hop
  unfold planTrap at h
  cases hcode : TrapCode.decode w with
  | none =>
      simp only [hcode, Except.ok.injEq, Prod.mk.injEq] at h htrap
      obtain ⟨rfl, rfl⟩ := h
      exact ⟨[], Accounts.refl s, .none (by simp [htrap]) rfl⟩
  | some code =>
      rw [hcode] at h htrap
      cases code
      all_goals
        simp only [map_eq_ok, Except.ok.injEq, Prod.mk.injEq, Prod.exists] at h
      case getc =>
        obtain ⟨c, u, hget, rfl, rfl⟩ := h
        refine ⟨_, getchar_accounts hget, .delivered c (by simp [htrap]) ?_ (by simp) ?_⟩
        · cases c <;> rfl
        · rw [hreceiver]
      case «in» =>
        obtain ⟨c, u, hget, rfl, rfl⟩ := h
        exact ⟨_, getchar_accounts hget, .dropped c htrap rfl rfl⟩
      case puts | putsp =>
        obtain ⟨out, _, rfl, rfl⟩ := h
        exact ⟨[], Accounts.refl s, .none (by simp [htrap]) rfl⟩
      case out | halt =>
        obtain ⟨rfl, rfl⟩ := h
        exact ⟨[], Accounts.refl s, .none (by simp [htrap]) rfl⟩

/-- One case per opcode: what an instruction does with a byte it takes. -/
theorem plan_takesByte {w : Word} {s t : State} {e : Effect} (h : plan w s = .ok (e, t))
    (hpointer : Op.decode w = .ldi ∨ Op.decode w = .sti → pcRelative w s ≠ mrKbdr) :
    ∃ new, Accounts s t new ∧ TakesByte w e new := by
  unfold plan at h
  cases hop : Op.decode w
  case trap =>
    rw [hop] at h
    exact planTrap_takesByte hop h
  all_goals
    have hnot : Op.decode w ≠ .trap := by simp [hop]
    have hin : trapOf w ≠ some .in := by simp [trapOf_of_ne hnot]
    rw [hop] at h
    simp only [map_eq_ok, bind_eq_ok, Except.ok.injEq, Prod.mk.injEq, Prod.exists] at h
  case ld | ldr =>
    obtain ⟨v, u, hread, rfl, rfl⟩ := h
    exact takesByte_load hnot (show consumed [] = [] from rfl) hread rfl
  case ldi =>
    obtain ⟨p, u, hread, v, u', hread', rfl, rfl⟩ := h
    have hfirst := memoryRead_takes_nothing (hpointer (Or.inl hop)) hread
    obtain ⟨new, hacc, htakes⟩ := takesByte_load (w := w) (e := { dest := some (destOf w, v) }) hnot
      (show consumed [.read (pcRelative w s) p] = [] from rfl) hread' rfl
    exact ⟨_, hfirst.trans hacc, htakes⟩
  case sti =>
    obtain ⟨p, u, hread, rfl, rfl⟩ := h
    exact ⟨_, memoryRead_takes_nothing (hpointer (Or.inr hop)) hread, .none hin rfl⟩
  all_goals
    obtain ⟨-, rfl⟩ := h
    exact ⟨[], Accounts.refl s, .none hin rfl⟩

/-! ## One step -/

/-- One case for each thing an instruction does with a byte: the iteration as a whole. -/
theorem Executes.takesByte {s t : State} {w : Word} (h : Executes s w t)
    (hplain : ReadsKeysAsData s) :
    ∃ e, Trip s w e t ∧ Accounts s t (newEvents s t) ∧
      ∃ new, TakesByte w e new ∧ consumed (newEvents s t) = consumed new ∧
        ∀ c, Event.getchar c ∈ new → Event.getchar c ∈ newEvents s t := by
  obtain ⟨s₁, e, s₂, hfetch, hplan, hread₁, hread₂, hfits, hcommit⟩ := h.cases
  obtain ⟨new, hacc, htakes⟩ := plan_takesByte hplan (hplain.pointer w s₁ hfetch)
  have hbefore : Accounts s s₁ [.read (s.registers .pc) w] := by
    have hread := memoryRead_takes_nothing hplain.fetch hfetch
    exact ⟨hread.events, hread.pending⟩
  have hall := (hbefore.trans hacc).trans hcommit.accounts
  have hnew := newEvents_eq hall.events
  refine ⟨e, trip_of_commits hread₁ hread₂ hfits hcommit, h.accounts.1, new, htakes, ?_, ?_⟩
  · rw [hnew, consumed_append, consumed_append]
    cases e.store <;> simp [consumed]
  · intro c hc
    rw [hnew]
    simp [hc]

theorem recordDelivery_eq {s s₁ t : State} {w : Word} (p : List Byte × List Word)
    (h : fetch s = .ok (w, s₁)) :
    recordDelivery s t p = (p.1 ++ consumed (newEvents s t),
      if consumed (newEvents s t) = [] then p.2
        else p.2 ++ [t.registers (receiver w)]) := by
  rw [recordDelivery, h]

/-- **Step lemma.** From a state in which every byte taken is delivered, a step that reads keys as
    data ends in such a state exactly when it is not an `IN` that drops a byte. -/
theorem deliveryLaw_step_iff {p q : State × List Byte × List Word} (hlaw : DeliveryLaw p)
    (hplain : ReadsKeysAsData p.1)
    (hstep : withHistory emulateStep recordDelivery p = .ok q) : DeliveryLaw q ↔ InKept p.1 := by
  obtain ⟨hrun, hhistory⟩ := withHistory_eq_ok.1 hstep
  obtain ⟨-, w, hexec⟩ := emulateStep_eq_ok.1 hrun
  obtain ⟨s₁, hfetch, -⟩ := id hexec
  obtain ⟨e, htrip, hacc, new, htakes, hbytes, hcalls⟩ := hexec.takesByte hplain
  have hkept : InKept p.1 ↔ (trapOf w = some .in →
      ∀ b, p.1.stdin.pending.head? = some b → p.1.registers .r0 = b.setWidth 16) := forall_ok hfetch
  have hnotEnd : ∀ c, Event.getchar c ∈ new → ∃ b, c = some b := fun c hc =>
    Option.ne_none_iff_exists'.1 fun hnone => hplain.input _ hrun (hnone ▸ hcalls c hc)
  rw [recordDelivery_eq _ hfetch, hbytes] at hhistory
  rw [hkept, DeliveryLaw, hhistory, List.map_append]
  cases htakes with
  | none hin hnew =>
      refine iff_of_true ?_ (fun h => absurd h hin)
      simp only [hnew, if_true, List.map_nil, List.append_nil]
      exact hlaw
  | delivered c hin hnew hcall hdest =>
      obtain ⟨b, rfl⟩ := hnotEnd c hcall
      refine iff_of_true ?_ (fun h => absurd h hin)
      rw [hnew, htrip.general_dest hdest, if_neg (by simp), ← hlaw]
      rfl
  | dropped c hin hnew hdest =>
      -- `R0` is as before the `IN`, so the byte counts as delivered only if it was there already
      obtain ⟨b, rfl⟩ := hnotEnd c (by simp [hnew])
      have htrap : Op.decode w = .trap := by
        by_contra hne
        simp [trapOf_of_ne hne] at hin
      have hr0 : q.1.registers (receiver w) = p.1.registers .r0 := by
        rw [receiver, if_pos htrap, htrip.general .r0 (by decide), hdest]
      have htaken : consumed new = [b] := by rw [hnew]; rfl
      have hnext : p.1.stdin.pending.head? = some b := by
        rw [hacc.pending, hbytes, htaken]
        rfl
      rw [htaken, hr0, hnext, if_neg (by simp), ← hlaw]
      simp [hin]

/-! ## Whole runs -/

/-- The bytes taken are a prefix of the input, in order, and what is still pending is the rest. -/
theorem taken_append_pending {s₀ s : State} {taken : List Byte} {delivered : List Word} {n : ℕ}
    (hrun : steps (withHistory emulateStep recordDelivery) n (s₀, [], [])
      = .ok (s, taken, delivered)) : s₀.stdin.pending = taken ++ s.stdin.pending := by
  refine steps_invariant (fun p => s₀.stdin.pending = p.2.1 ++ p.1.stdin.pending)
    (fun p q hp hstep => ?_) (by rfl) hrun
  obtain ⟨hnext, hhistory⟩ := withHistory_eq_ok.1 hstep
  obtain ⟨-, w, hexec⟩ := emulateStep_eq_ok.1 hnext
  obtain ⟨s₁, hfetch, -⟩ := id hexec
  rw [recordDelivery_eq _ hfetch] at hhistory
  rw [hp, hhistory, hexec.accounts.1.pending, List.append_assoc]

/-- For every input and every run of `emulate` that reads keys as data: the bytes taken are the
    input in order; and in every state reached each of them has been delivered exactly once, in
    order and zero-extended, in `R0` after a trap and in the destination register after a load, if
    and only if every `IN` executed finds in `R0` the byte it is about to take. -/
theorem deliveryLaw_run_iff {s₀ s : State} {n : ℕ} (hrun : steps emulateStep n s₀ = .ok s)
    (hplain : ∀ k < n, ∀ t, steps emulateStep k s₀ = .ok t → ReadsKeysAsData t) :
    (∀ k ≤ n, ∀ t taken delivered,
        steps (withHistory emulateStep recordDelivery) k (s₀, [], []) = .ok (t, taken, delivered) →
        s₀.stdin.pending = taken ++ t.stdin.pending) ∧
      ((∀ k ≤ n, ∀ p, steps (withHistory emulateStep recordDelivery) k (s₀, [], []) = .ok p →
          DeliveryLaw p) ↔
        (∀ k < n, ∀ t, steps emulateStep k s₀ = .ok t → InKept t)) := by
  refine ⟨fun _ _ _ _ _ hk => taken_append_pending hk, ?_⟩
  obtain ⟨history, hhistory⟩ := exists_history recordDelivery ([], []) hrun
  have hplain' : ∀ k < n, ∀ p,
      steps (withHistory emulateStep recordDelivery) k (s₀, [], []) = .ok p →
        ReadsKeysAsData p.1 :=
    fun k hk => forall_history_iff.2 (hplain k hk)
  have hstart : DeliveryLaw (s₀, [], []) := rfl
  rw [forall_steps_iff (P := fun _ => DeliveryLaw) (Q := fun p => InKept p.1) hstart hhistory
    fun k hk p q hp hlaw hstep => deliveryLaw_step_iff hlaw (hplain' k hk p hp) hstep]
  exact forall₂_congr fun _ _ => forall_history_iff

/-- A standard input with one byte to come. -/
def oneByte (b : Byte) : Input Byte :=
  { noInput with arrivals := [[b]] }

/-- `GETC`, `OUT`, `GETC` on two bytes of input, which arrive one after the other: there is no `IN`,
    and both are taken and delivered. -/
theorem deliveryLaw_run_iff_two_bytes :
    ∃ s₀ s, Booted s₀ ∧ s₀.stdin.pending = [0x61, 0x62] ∧ steps emulateStep 3 s₀ = .ok s ∧
      s.stdin.pending = [] ∧
      (∀ k ≤ 3, ∀ t taken delivered,
        steps (withHistory emulateStep recordDelivery) k (s₀, [], []) = .ok (t, taken, delivered) →
        s₀.stdin.pending = taken ++ t.stdin.pending) ∧
      ∀ k ≤ 3, ∀ p, steps (withHistory emulateStep recordDelivery) k (s₀, [], []) = .ok p →
        DeliveryLaw p := by
  have hstart : ∃ s₀ s, Booted s₀ ∧ s₀.stdin.pending = [0x61, 0x62] ∧
      steps emulateStep 3 s₀ = .ok s ∧ s.stdin.pending = [] ∧
      ∀ k < 3, ∀ t, steps emulateStep k s₀ = .ok t → ReadsKeysAsData t ∧ InKept t := by
    refine ⟨_, _, ⟨some (imageFile 0x3000 [0xF020, 0xF021, 0xF020]), 0,
      { noInput with arrivals := [[0x61], [0x62]] }, rfl⟩, rfl, rfl, rfl, ?_⟩
    intro k hk t ht
    interval_cases k
    all_goals
      obtain rfl := Except.ok.inj ht
      refine ⟨⟨by decide, (forall_ok rfl).2 (by decide), fun u hu => ?_⟩,
        (forall_ok rfl).2 fun hin => absurd hin (by decide)⟩
      obtain rfl := Except.ok.inj hu
      decide
  obtain ⟨s₀, s, hboot, hinput, hrun, hempty, hsteps⟩ := hstart
  obtain ⟨htaken, hlaw⟩ := deliveryLaw_run_iff hrun fun k hk t ht => (hsteps k hk t ht).1
  exact ⟨s₀, s, hboot, hinput, hrun, hempty, htaken, hlaw.2 fun k hk t ht => (hsteps k hk t ht).2⟩

/-- `IN` as the first instruction takes a byte and leaves `R0` zero. -/
theorem deliveryLaw_broken_by_in :
    ∃ s₀ p, Booted s₀ ∧ s₀.stdin.pending = [0x61] ∧ ReadsKeysAsData s₀ ∧
      steps (withHistory emulateStep recordDelivery) 1 (s₀, [], []) = .ok p ∧
      p.2.1 = [0x61] ∧ p.1.registers .r0 = 0 ∧ ¬ DeliveryLaw p := by
  refine ⟨_, _, ⟨some (imageFile 0x3000 [0xF023]), 0, oneByte 0x61, rfl⟩, rfl,
    ⟨by decide, (forall_ok rfl).2 (by decide), fun t ht => ?_⟩, rfl, rfl, rfl, fun h => ?_⟩
  · obtain rfl := Except.ok.inj ht
    decide
  · exact absurd h (by decide)

end Yavm.Lc3
