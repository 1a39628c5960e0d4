import Yavm.Java.Loader

set_option autoImplicit false

/-! # How the Java machine ends (`main`)

The loop of `main` does nothing but count its program counter up, so it goes on until the counter
leaves `memory` (`steps_mainStep`). `main_outcome` is what becomes of a call of `main`: it throws,
always, and of the file only its presence and its first three bytes matter. -/

namespace Yavm.Java

open Basis
open Lc3 (Byte)

/-- What a call of `main` ends with. -/
inductive Ending
  /-- An exception of `readImageFile`. -/
  | stream (e : StreamException)
  /-- The loop was left, or an exception was thrown in it. -/
  | loop (e : Stop)
  deriving DecidableEq, Repr

/-- `main`, up to its trip number `trips` round the loop. -/
def main (file : Option (List Byte)) (trips : ℕ) (s : State) : Except Ending State :=
  match (readImageFile file).run.run s with
  | (.error e, _) => .error (.stream e)
  | (.ok (), s) => (steps mainStep trips { s with running := true }).mapError .loop

/-! ## The loop -/

/-- The trips that are made before the program counter is outside `memory`. -/
def tripsLeft (pc : JavaInt) : ℕ :=
  if 0 ≤ pc.toInt then (uint16Max - pc.toInt).toNat else 0

/-- The state after `trips` of them. -/
def State.counted (s : State) (trips : ℕ) : State :=
  s.setReg .pc (s.registers .pc + BitVec.ofNat 32 trips)

/-- **Step lemma.** A trip increments the program counter if it is inside `memory`, and throws if it
    is not. -/
theorem mainStep_eq {s : State} (hrun : s.running = true) :
    mainStep s = if 0 ≤ (s.registers .pc).toInt ∧ (s.registers .pc).toInt < uint16Max
      then .ok (s.counted 1) else .error (.arrayIndex (s.registers .pc).toInt) := by
  rw [mainStep, if_pos hrun, iteration]
  by_cases hpc : 0 ≤ (s.registers .pc).toInt ∧ (s.registers .pc).toInt < uint16Max
  · have hindex : (s.registers .pc).toInt.toNat < uint16Max ∧ 0 ≤ (s.registers .pc).toInt := by
      omega
    rw [if_pos hpc, memoryRead, dif_pos hindex]
    rfl
  · have hindex : ¬ ((s.registers .pc).toInt.toNat < uint16Max ∧ 0 ≤ (s.registers .pc).toInt) := by
      omega
    rw [if_neg hpc, memoryRead, dif_neg hindex]
    rfl

theorem counted_zero (s : State) : s.counted 0 = s := by
  simp [State.counted, State.setReg]

theorem counted_counted (s : State) (m n : ℕ) : (s.counted m).counted n = s.counted (m + n) := by
  simp [State.counted, State.setReg, BitVec.ofNat_add, BitVec.add_assoc]

/-- As long as the counter has not passed the end of `memory`, it does not overflow. -/
theorem toInt_counted {s : State} {trips : ℕ} (h : trips ≤ tripsLeft (s.registers .pc)) :
    ((s.counted trips).registers .pc).toInt = (s.registers .pc).toInt + trips := by
  rw [State.counted, State.setReg_self]
  rw [tripsLeft] at h
  split at h
  · have hmax : (uint16Max : ℤ) = 65536 := rfl
    have hpc := BitVec.toInt_lt (x := s.registers .pc)
    have htrips : (trips : ℤ) ≤ 65536 := by omega
    have hsmall : (trips : ℤ).bmod (2 ^ 32) = trips := Int.bmod_eq_of_le (by omega) (by omega)
    rw [BitVec.toInt_add, BitVec.toInt_ofNat', hsmall]
    exact Int.bmod_eq_of_le (by omega) (by omega)
  · obtain rfl : trips = 0 := by omega
    simp

/-- **Run lemma.** The loop makes the trips that are left and throws in the next one. -/
theorem steps_mainStep {s : State} (hrun : s.running = true) (trips : ℕ) :
    steps mainStep trips s = if trips ≤ tripsLeft (s.registers .pc) then .ok (s.counted trips)
      else .error (.arrayIndex ((s.registers .pc).toInt + tripsLeft (s.registers .pc))) := by
  induction trips with
  | zero => rw [if_pos (Nat.zero_le _), counted_zero, steps_zero]
  | succ trips ih =>
      rw [steps, ih]
      by_cases hleft : trips ≤ tripsLeft (s.registers .pc)
      · have hrun' : (s.counted trips).running = true := hrun
        have hpc := toInt_counted hleft
        rw [if_pos hleft]
        change mainStep (s.counted trips) = _
        rw [mainStep_eq hrun', hpc, counted_counted]
        by_cases hnext : trips + 1 ≤ tripsLeft (s.registers .pc)
        · have hin : 0 ≤ (s.registers .pc).toInt + trips ∧
              (s.registers .pc).toInt + trips < uint16Max := by
            rw [tripsLeft] at hnext
            split at hnext <;> omega
          rw [if_pos hin, if_pos hnext]
        -- the last trip has been made: the counter is at the end of `memory`, or was never inside
        · have hlast : trips = tripsLeft (s.registers .pc) := by omega
          have hout : ¬ (0 ≤ (s.registers .pc).toInt + trips ∧
              (s.registers .pc).toInt + trips < uint16Max) := by
            rw [tripsLeft] at hlast
            split at hlast <;> omega
          rw [if_neg hout, if_neg hnext, hlast]
      · rw [if_neg hleft, if_neg (by omega)]
        rfl

/-! ## `main` -/

/-- What the loader does: it throws on fewer than three bytes, and leaves the fields alone. -/
theorem run_readImageFile (file : Option (List Byte)) (s : State) :
    (readImageFile file).run.run s = (match file with
      | none => .error .fileNotFound
      | some bytes => if bytes.length < 3 then .error .eof else .ok (), s) := by
  match file with
  | none => rfl
  | some [] => rfl
  | some [_] => rfl
  | some [_, _] => rfl
  | some (_ :: _ :: _ :: rest) =>
      have hlen : ¬ rest.length + 1 + 1 + 1 < 3 := by omega
      simp only [List.length_cons, if_neg hlen]
      rfl

/-- For every file and whatever the static fields hold: `main` throws in the loader if there is no
    file or it has fewer than three bytes. Otherwise its loop counts the program counter up, with no
    other effect, to the end of `memory`, and throws there; a program counter that is not inside
    `memory` at first makes it throw at once. It never returns, and never prints. -/
theorem main_outcome (file : Option (List Byte)) (trips : ℕ) (s : State) :
    (∀ e, main file trips s = .error e ↔
      (file = none ∧ e = .stream .fileNotFound) ∨
      (∃ bytes, file = some bytes ∧ bytes.length < 3 ∧ e = .stream .eof) ∨
      (∃ bytes, file = some bytes ∧ 3 ≤ bytes.length ∧ tripsLeft (s.registers .pc) < trips ∧
        e = .loop (.arrayIndex ((s.registers .pc).toInt + tripsLeft (s.registers .pc))))) ∧
    (∀ t, main file trips s = .ok t ↔
      ∃ bytes, file = some bytes ∧ 3 ≤ bytes.length ∧ trips ≤ tripsLeft (s.registers .pc) ∧
        t = ({ s with running := true } : State).counted trips) := by
  rw [main, run_readImageFile]
  match file with
  | none => simp [eq_comm]
  | some bytes =>
      by_cases hlen : bytes.length < 3
      · simp [hlen, eq_comm]
      · have hloop := steps_mainStep (s := { s with running := true }) rfl trips
        simp only [if_neg hlen, hloop]
        have hthree : 3 ≤ bytes.length := by omega
        by_cases htrips : trips ≤ tripsLeft (s.registers .pc)
        · simp [htrips, hlen, hthree, Except.mapError, eq_comm]
        · simp [htrips, Nat.lt_of_not_le htrips, hlen, hthree, Except.mapError, eq_comm]

end Yavm.Java
