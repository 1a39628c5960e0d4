import Yavm.Lc3.Effect

set_option autoImplicit false

/-! # The calls an instruction makes

The first phase of an instruction is a sequence of calls: of `memoryRead` (`MemReads`), or of
`getchar` in the two traps that read a key (`plan_reads`). What holds of one such call and composes
holds of every instruction; this file draws the consequences for the ghost record of calls
(`newEvents`), which lists every word read and every byte consumed. -/

namespace Yavm.Lc3

open Basis

/-- `t` is `s` after some calls of `memoryRead`. -/
inductive MemReads (s : State) : State → Prop
  | refl : MemReads s s
  | read {t u : State} {a v : Word} : MemReads s t → memoryRead a t = .ok (v, u) → MemReads s u

theorem MemReads.one {s t : State} {a v : Word} (h : memoryRead a s = .ok (v, t)) : MemReads s t :=
  .read .refl h

theorem MemReads.readOnly {s t : State} (h : MemReads s t) : ReadOnly s t := by
  induction h with
  | refl => exact ReadOnly.refl s
  | read _ hread ih => exact ih.trans (memoryRead_readOnly hread)

/-- The traps that call `getchar`. -/
def readsKey (instruction : Word) : Prop :=
  Op.decode instruction = .trap ∧
    (TrapCode.decode instruction = some .getc ∨ TrapCode.decode instruction = some .in)

theorem planTrap_reads {w : Word} {s t : State} {e : Effect} (hop : Op.decode w = .trap)
    (h : planTrap w s = .ok (e, t)) : t = s ∨ (readsKey w ∧ ∃ c, getchar s = .ok (c, t)) := by
  unfold planTrap at h
  cases hcode : TrapCode.decode w with
  | none =>
      simp only [hcode, Except.ok.injEq, Prod.mk.injEq] at h
      exact Or.inl h.2.symm
  | some code =>
      rw [hcode] at h
      cases code
      all_goals
        simp only [map_eq_ok, Except.ok.injEq, Prod.mk.injEq, Prod.exists] at h
      case getc =>
        obtain ⟨c, u, hget, rfl, rfl⟩ := h
        exact Or.inr ⟨⟨hop, Or.inl hcode⟩, c, hget⟩
      case «in» =>
        obtain ⟨c, u, hget, rfl, rfl⟩ := h
        exact Or.inr ⟨⟨hop, Or.inr hcode⟩, c, hget⟩
      case puts | putsp =>
        obtain ⟨out, _, rfl, rfl⟩ := h
        exact Or.inl rfl
      case out | halt => exact Or.inl h.2.symm

/-- One case per opcode: an instruction reads through `memoryRead`, or it is a trap that calls
    `getchar` once. -/
theorem plan_reads {w : Word} {s t : State} {e : Effect} (h : plan w s = .ok (e, t)) :
    MemReads s t ∨ (readsKey w ∧ ∃ c, getchar s = .ok (c, t)) := by
  unfold plan at h
  cases hop : Op.decode w
  case trap =>
    rw [hop] at h
    rcases planTrap_reads hop h with rfl | hkey
    · exact Or.inl .refl
    · exact Or.inr hkey
  all_goals
    left
    rw [hop] at h
    simp only [map_eq_ok, bind_eq_ok, Except.ok.injEq, Prod.mk.injEq, Prod.exists] at h
  case ld | ldr | sti =>
    obtain ⟨v, u, hread, rfl, rfl⟩ := h
    exact .one hread
  case ldi =>
    obtain ⟨p, u, hread, v, u', hread', rfl, rfl⟩ := h
    exact .read (.one hread) hread'
  all_goals exact h.2 ▸ MemReads.refl

/-- Planning only reads. -/
theorem plan_readOnly {w : Word} {s t : State} {e : Effect} (h : plan w s = .ok (e, t)) :
    ReadOnly s t := by
  rcases plan_reads h with hreads | ⟨-, c, hget⟩
  · exact hreads.readOnly
  · exact getchar_readOnly hget

/-! ## The record of calls -/

/-- The calls recorded between two states. -/
def newEvents (s t : State) : List Event :=
  t.events.drop s.events.length

theorem newEvents_eq {s t : State} {new : List Event} (h : t.events = s.events ++ new) :
    newEvents s t = new := by
  rw [newEvents, h, List.drop_left]

theorem ReadOnly.events_eq {s t : State} (h : ReadOnly s t) :
    t.events = s.events ++ newEvents s t := by
  obtain ⟨new, hnew⟩ := h.events
  rw [newEvents_eq hnew, hnew]

/-- The bytes `getchar` returned. -/
def consumed (events : List Event) : List Byte :=
  events.filterMap fun
    | .getchar result => result
    | _ => none

@[simp]
theorem consumed_append (xs ys : List Event) : consumed (xs ++ ys) = consumed xs ++ consumed ys :=
  List.filterMap_append

/-- `new` is recorded between `s` and `t`, and accounts for the input between them: the bytes that
    were pending are those consumed and those still pending. -/
structure Accounts (s t : State) (new : List Event) : Prop where
  events : t.events = s.events ++ new
  pending : s.stdin.pending = consumed new ++ t.stdin.pending

theorem Accounts.refl (s : State) : Accounts s s [] :=
  ⟨by simp, rfl⟩

theorem Accounts.trans {s t u : State} {new new' : List Event} (h : Accounts s t new)
    (h' : Accounts t u new') : Accounts s u (new ++ new') := by
  refine ⟨?_, ?_⟩
  · rw [h'.events, h.events, List.append_assoc]
  · rw [h.pending, h'.pending, consumed_append, List.append_assoc]

theorem getchar_accounts {s t : State} {c : Option Byte} (h : getchar s = .ok (c, t)) :
    Accounts s t [.getchar c] := by
  obtain ⟨stdin, hget, rfl⟩ := getchar_eq_ok.1 h
  refine ⟨rfl, ?_⟩
  cases c with
  | none =>
      obtain ⟨hs, ht⟩ := Input.pending_of_getchar_end hget
      rw [hs]
      exact ht.symm
  | some b => exact Input.pending_of_getchar hget

/-- What `memoryRead` records: itself, after the `getchar` it may make when the address is
    `MR_KBDR`. -/
theorem memoryRead_accounts {a v : Word} {s t : State} (h : memoryRead a s = .ok (v, t)) :
    Accounts s t [.read a v] ∨
      (a = mrKbdr ∧ ∃ c, v = charCode c ∧ Accounts s t [.getchar c, .read a v]) := by
  obtain ⟨u, hread, rfl⟩ := memoryRead_eq_ok.1 h
  have hpolled : Accounts s (pollKeyboard s).2 [] :=
    ⟨by simp [pollKeyboard], (Input.pending_receive s.stdin).symm⟩
  have hrecord : ∀ t, Accounts t (t.record (.read a v)) [.read a v] := fun t => ⟨rfl, rfl⟩
  unfold readAt at hread
  split_ifs at hread with hkbsr hkbdr
  · simp only [Except.ok.injEq] at hread
    rw [hread] at hpolled
    exact Or.inl (hpolled.trans (hrecord _))
  · dsimp only at hread
    split_ifs at hread
    · obtain ⟨⟨c, u'⟩, hget, heq⟩ := map_eq_ok.1 hread
      simp only [Prod.mk.injEq] at heq
      obtain ⟨rfl, rfl⟩ := heq
      exact Or.inr ⟨hkbdr, c, rfl, (hpolled.trans (getchar_accounts hget)).trans (hrecord _)⟩
    · simp only [Except.ok.injEq, Prod.mk.injEq] at hread
      obtain ⟨rfl, rfl⟩ := hread
      exact Or.inl (hpolled.trans (hrecord _))
  all_goals
    simp only [Except.ok.injEq, Prod.mk.injEq] at hread
    obtain ⟨rfl, rfl⟩ := hread
    exact Or.inl (hrecord _)

/-- A sequence of reads accounts for the input, and consumes bytes only by reading `MR_KBDR`. -/
theorem MemReads.accounts {s t : State} (h : MemReads s t) :
    ∃ new, Accounts s t new ∧ (consumed new = [] ∨ ∃ v, Event.read mrKbdr v ∈ new) := by
  induction h with
  | refl => exact ⟨[], Accounts.refl s, Or.inl rfl⟩
  | read _ hread ih =>
      obtain ⟨new, hnew, hkey⟩ := ih
      rcases memoryRead_accounts hread with hacc | ⟨rfl, c, -, hacc⟩
      · refine ⟨_, hnew.trans hacc, ?_⟩
        rcases hkey with hkey | ⟨v, hv⟩
        · exact Or.inl (by rw [consumed_append, hkey]; rfl)
        · exact Or.inr ⟨v, List.mem_append_left _ hv⟩
      · exact ⟨_, hnew.trans hacc, Or.inr ⟨_, List.mem_append_right _
          (List.mem_cons_of_mem _ (List.mem_singleton_self _))⟩⟩

/-- Every word read from an ordinary address is the word in its cell. -/
theorem MemReads.cells {s t : State} (h : MemReads s t) {a v : Word}
    (hmem : Event.read a v ∈ newEvents s t) (hdev : ¬ IsDevice a) :
    ∃ hlt : a.toNat < uint16Max, v = s.memory ⟨a.toNat, hlt⟩ := by
  induction h with
  | refl => simp [newEvents] at hmem
  | @read t u b x hreads hread ih =>
      have hbefore := hreads.readOnly
      have hold : Event.read a v ∈ newEvents s t → ∃ hlt : a.toNat < uint16Max,
          v = s.memory ⟨a.toNat, hlt⟩ := ih
      have hthis : a = b → v = x → ∃ hlt : a.toNat < uint16Max, v = s.memory ⟨a.toNat, hlt⟩ := by
        rintro rfl rfl
        have hlt := lt_uint16Max_iff.2 (ne_top_of_memoryRead hread)
        rw [memoryRead_cell t hdev hlt, Except.ok.injEq, Prod.mk.injEq] at hread
        exact ⟨hlt, hread.1 ▸ congrFun hbefore.memory _⟩
      have hnew : ∀ new, Accounts t u new → newEvents s u = newEvents s t ++ new := fun new hacc =>
        newEvents_eq (by rw [hacc.events, hbefore.events_eq, List.append_assoc])
      rcases memoryRead_accounts hread with hacc | ⟨-, c, -, hacc⟩
      all_goals
        rw [hnew _ hacc] at hmem
        simp only [List.mem_append, List.mem_cons, List.not_mem_nil, or_false, Event.read.injEq,
          reduceCtorEq, false_or] at hmem
        exact hmem.elim hold fun heq => hthis heq.1 heq.2

end Yavm.Lc3
