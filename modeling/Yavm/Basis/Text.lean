import Mathlib.Data.Int.Init
import Mathlib.Data.List.Basic
import Mathlib.Tactic.Common

set_option autoImplicit false

/-! # Printed reports

Numbers as `printf` prints them, names that stand for numbers, and reports made of labelled lines.
Each of them can be read back: different numbers are printed differently, a name says which number
it stands for as far as no other has the same name (`nameOf_eq_iff`), and two reports with the same
labels are equal exactly when their values are (`lines_append_inj`), however long the values are, as
long as no value has a line break in it. -/

namespace Basis

def text (s : String) : List Char := s.toList

theorem text_inj {s t : String} : text s = text t ↔ s = t := String.toList_inj

def newline : Char := '\n'

/-! ## Numbers -/

/-- `%x`. -/
def hexadecimal (n : ℕ) : List Char := Nat.toDigits 16 n

/-- `%d`. -/
def decimal (v : ℤ) : List Char :=
  if v < 0 then '-' :: Nat.toDigits 10 v.natAbs else Nat.toDigits 10 v.natAbs

section

variable {b : ℕ} (hb : 1 < b)
include hb

/-- By strong induction on the number: what `toDigits` puts out are digits. -/
theorem mem_toDigits {n : ℕ} {c : Char} (h : c ∈ Nat.toDigits b n) :
    ∃ d < b, c = d.digitChar := by
  induction n using Nat.strongRecOn with
  | ind n ih =>
      rw [Nat.toDigits_eq_if hb] at h
      split at h
      · next hlt => exact ⟨n, hlt, List.mem_singleton.1 h⟩
      · next hle =>
          rcases List.mem_append.1 h with hhigh | hlast
          · exact ih (n / b) (Nat.div_lt_self (by omega) hb) hhigh
          · exact ⟨n % b, Nat.mod_lt _ (by omega), List.mem_singleton.1 hlast⟩

theorem notMem_toDigits {c : Char} (hc : ∀ d < b, d.digitChar ≠ c) (n : ℕ) :
    c ∉ Nat.toDigits b n := by
  intro hmem
  obtain ⟨d, hd, rfl⟩ := mem_toDigits hb hmem
  exact hc d hd rfl

/-- Different numbers have different digits, in every base with different digits. -/
theorem toDigits_injective (hdigits : ∀ d < b, ∀ e < b, d.digitChar = e.digitChar → d = e) :
    Function.Injective (Nat.toDigits b) := by
  intro m n h
  induction m using Nat.strongRecOn generalizing n with
  | ind m ih =>
      rw [Nat.toDigits_eq_if hb (n := m), Nat.toDigits_eq_if hb (n := n)] at h
      split at h <;> split at h
      · next hm hn => exact hdigits m hm n hn (List.singleton_inj.1 h)
      · have hnil : [] ++ [m.digitChar] = Nat.toDigits b (n / b) ++ [(n % b).digitChar] := h
        exact absurd (List.append_inj' hnil rfl).1.symm Nat.toDigits_ne_nil
      · have hnil : Nat.toDigits b (m / b) ++ [(m % b).digitChar] = [] ++ [n.digitChar] := h
        exact absurd (List.append_inj' hnil rfl).1 Nat.toDigits_ne_nil
      · next hm hn =>
          obtain ⟨hhigh, hlast⟩ := List.append_inj' h rfl
          have hdiv := ih (m / b) (Nat.div_lt_self (by omega) hb) hhigh
          have hmod := hdigits _ (Nat.mod_lt _ (by omega)) _ (Nat.mod_lt _ (by omega))
            (List.singleton_inj.1 hlast)
          rw [← Nat.div_add_mod m b, ← Nat.div_add_mod n b, hdiv, hmod]

end

theorem hexadecimal_injective : Function.Injective hexadecimal :=
  toDigits_injective (by decide) (by decide)

theorem newline_notMem_hexadecimal (n : ℕ) : newline ∉ hexadecimal n :=
  notMem_toDigits (by decide) (by decide) n

theorem decimal_injective : Function.Injective decimal := by
  have hinj : Function.Injective (Nat.toDigits 10) := toDigits_injective (by decide) (by decide)
  have hminus : ∀ n, '-' ∉ Nat.toDigits 10 n := notMem_toDigits (by decide) (by decide)
  intro v w h
  unfold decimal at h
  split at h <;> split at h
  · have hnat := hinj (List.cons.inj h).2
    omega
  · exact absurd (h ▸ List.mem_cons_self ..) (hminus _)
  · exact absurd (h ▸ List.mem_cons_self ..) (hminus _)
  · have hnat := hinj h
    omega

/-- A letter behind a number ends it. -/
theorem notMem_decimal {c : Char} (hminus : c ≠ '-') (hc : ∀ d < 10, d.digitChar ≠ c) (v : ℤ) :
    c ∉ decimal v := by
  have hdigits := notMem_toDigits (b := 10) (by decide) hc v.natAbs
  unfold decimal
  split
  · rw [List.mem_cons, not_or]
    exact ⟨hminus, hdigits⟩
  · exact hdigits

/-! ## Names -/

/-- The name of a number: a `switch` with a default. -/
def nameOf (names : List (ℕ × String)) (other : String) (n : ℕ) : String :=
  (names.lookup n).getD other

theorem mem_of_lookup {names : List (ℕ × String)} {n : ℕ} {name : String}
    (h : names.lookup n = some name) : (n, name) ∈ names := by
  obtain ⟨before, after, hnames, -⟩ := List.lookup_eq_some_iff.1 h
  simp [hnames]

/-- `nameOf` gives the same name to both numbers: they have the same one in the table, or neither is
    in it. -/
theorem nameOf_eq_iff {names : List (ℕ × String)} {other : String}
    (hother : other ∉ names.map Prod.snd) {m n : ℕ} :
    nameOf names other m = nameOf names other n ↔ names.lookup m = names.lookup n := by
  have hnamed : ∀ {k name}, names.lookup k = some name → other ≠ name := by
    rintro k name hlookup rfl
    exact hother (List.mem_map.2 ⟨_, mem_of_lookup hlookup, rfl⟩)
  unfold nameOf
  constructor
  · intro h
    cases hm : names.lookup m with
    | none =>
        cases hn : names.lookup n with
        | none => rfl
        | some name =>
            rw [hm, hn] at h
            exact absurd h (hnamed hn)
    | some name =>
        cases hn : names.lookup n with
        | none =>
            rw [hm, hn] at h
            exact absurd h.symm (hnamed hm)
        | some name' =>
            rw [hm, hn] at h
            exact congrArg some h
  · intro h
    rw [h]

/-! ## Lines -/

/-- What stands before the first `c` can be told from what stands behind it. -/
theorem append_cons_inj {c : Char} {x y r s : List Char} (hx : c ∉ x) (hy : c ∉ y) :
    x ++ c :: r = y ++ c :: s ↔ x = y ∧ r = s := by
  constructor
  · intro h
    induction x generalizing y with
    | nil =>
        cases y with
        | nil => exact ⟨rfl, (List.cons.inj h).2⟩
        | cons b y => exact absurd ((List.cons.inj h).1 ▸ List.mem_cons_self ..) hy
    | cons a x ih =>
        cases y with
        | nil => exact absurd ((List.cons.inj h).1 ▸ List.mem_cons_self ..) hx
        | cons b y =>
            obtain ⟨rfl, htail⟩ := List.cons.inj h
            obtain ⟨rfl, hrest⟩ := ih (fun hmem => hx (List.mem_cons_of_mem a hmem))
              (fun hmem => hy (List.mem_cons_of_mem a hmem)) htail
            exact ⟨rfl, hrest⟩
  · rintro ⟨rfl, rfl⟩
    rfl

def line (label : String) (value : List Char) : List Char :=
  text label ++ value ++ [newline]

/-- A report: labels and values. -/
def lines (entries : List (String × List Char)) : List Char :=
  entries.flatMap fun entry => line entry.1 entry.2

/-- The values can be printed on a line each. -/
def OneLine (entries : List (String × List Char)) : Prop :=
  ∀ entry ∈ entries, newline ∉ entry.2

/-- Reports with the same labels say the same only with the same values. -/
theorem lines_append_inj {es fs : List (String × List Char)} {r s : List Char}
    (hlabels : es.map Prod.fst = fs.map Prod.fst) (hes : OneLine es) (hfs : OneLine fs) :
    lines es ++ r = lines fs ++ s ↔ es = fs ∧ r = s := by
  induction es generalizing fs with
  | nil =>
      obtain rfl := List.map_eq_nil_iff.1 hlabels.symm
      simp [lines]
  | cons e es ih =>
      cases fs with
      | nil => simp at hlabels
      | cons f fs =>
          obtain ⟨hlabel, htail⟩ := List.cons.inj hlabels
          have hhead := ih htail (fun entry hentry => hes entry (List.mem_cons_of_mem e hentry))
            (fun entry hentry => hfs entry (List.mem_cons_of_mem f hentry))
          have hvalue : e.2 ++ newline :: (lines es ++ r) = f.2 ++ newline :: (lines fs ++ s) ↔ _ :=
            append_cons_inj (hes e (List.mem_cons_self ..)) (hfs f (List.mem_cons_self ..))
          have hline : ∀ (entry : String × List Char) entries rest, lines (entry :: entries) ++ rest
              = text entry.1 ++ (entry.2 ++ newline :: (lines entries ++ rest)) := by
            intro entry entries rest
            simp [lines, line]
          rw [hline, hline, hlabel, List.append_cancel_left_eq, hvalue, hhead, ← and_assoc]
          refine and_congr_left fun _ => ?_
          rw [List.cons.injEq, Prod.ext_iff]
          exact ⟨fun h => ⟨⟨hlabel, h.1⟩, h.2⟩, fun h => ⟨h.1.2, h.2⟩⟩

end Basis
