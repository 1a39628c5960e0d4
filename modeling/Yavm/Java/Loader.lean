import Yavm.Java.Machine
import Yavm.Lc3.Image

set_option autoImplicit false

/-! # The image loader of the Java machine

`readImageFile` takes one byte for the origin, drops the next two and reads the rest of the file
into a local array. It assigns to no static field, so `memory` is what it was whether the method
returns or throws (`readImageFile_state`), and the image is in the memory of the C machine only: the
two loaders agree exactly when every word the C loader places is zero (`loadersAgree_iff`). -/

namespace Yavm.Java

open Basis
open Lc3 (Word Byte imageFile imageWord)

/-! ## Streams -/

/-- What the methods of a `DataInputStream` on a file throw. -/
inductive StreamException
  | fileNotFound
  | eof
  deriving DecidableEq, Repr

/-- `new DataInputStream(new BufferedInputStream(new FileInputStream(path)))`; `file` is what there
    is at the path. -/
def openStream (file : Option (List Byte)) : Except StreamException (List Byte) :=
  match file with
  | none => .error .fileNotFound
  | some stream => .ok stream

/-- `readByte()`, and the rest of the stream. -/
def readByte : List Byte → Except StreamException (Byte × List Byte)
  | [] => .error .eof
  | b :: stream => .ok (b, stream)

/-- `readShort()`: the high byte comes first. -/
def readShort : List Byte → Except StreamException (BitVec 16 × List Byte)
  | hi :: lo :: stream => .ok (hi ++ lo, stream)
  | _ => .error .eof

/-- `read(b)`: the number of bytes read, or -1 at the end of the stream, and the array. -/
def read (b stream : List Byte) : ℤ × List Byte :=
  (if stream = [] then -1 else (stream.take b.length).length,
    stream.take b.length ++ b.drop stream.length)

/-! ## The loader -/

def swap16 (x : JavaInt) : JavaInt :=
  (x <<< 8) ||| (x.sshiftRight 8)

/-- `origin = (byte) swap16(origin)`, on a `byte` that is widened to an `int`. -/
def swapOrigin (origin : Byte) : Byte :=
  (swap16 (origin.signExtend 32)).setWidth 8

/-- `readImageFile(path)`. Nothing uses `maxRead`, `readBytes` and what is read into `data`. -/
def readImageFile (file : Option (List Byte)) : ExceptT StreamException (StateM State) Unit := do
  let dataInStream ← openStream file
  let (origin, dataInStream) ← readByte dataInStream
  let origin := swapOrigin origin
  let _maxRead : JavaInt := BitVec.ofNat 32 uint16Max - origin.signExtend 32
  let (_, dataInStream) ← readShort dataInStream
  let data : List Byte := List.replicate uint16Max 0
  let (_readBytes, _data) := read data dataInStream
  return

/-- However the method ends, every field is what it was. -/
theorem readImageFile_state (file : Option (List Byte)) (s : State) :
    ((readImageFile file).run.run s).2 = s := by
  match file with
  | none => rfl
  | some [] => rfl
  | some [_] => rfl
  | some [_, _] => rfl
  | some (_ :: _ :: _ :: _) => rfl

/-- On an image the method returns, unless the origin is all there is. -/
theorem readImageFile_returns_iff (o : Word) (words : List Word) (s : State) :
    ((readImageFile (some (imageFile o words))).run.run s).1 = .ok () ↔ words ≠ [] := by
  cases words with
  | nil => exact iff_of_false (by intro h; cases h) (fun hne => hne rfl)
  | cons word words => exact iff_of_true rfl (List.cons_ne_nil word words)

/-! ## Both loaders -/

/-- After loading the same image, the memories are equal on every address the C machine has. -/
def LoadersAgree (o : Word) (words : List Word) (origin : Word) (c : Lc3.State) (j : State) :
    Prop :=
  ∃ c', Lc3.readImageFile (some (imageFile o words)) origin c = .ok c' ∧
    ∀ k : Fin Lc3.uint16Max,
      ((readImageFile (some (imageFile o words))).run.run j).2.memory k.castSucc
        = (c'.memory k).setWidth 32

/-- On a memory of zeros the image leaves zeros exactly when the words that are placed are zero. -/
theorem imageWord_eq_zero_iff (o : Word) (words : List Word) (origin : Word) :
    (∀ k : Fin Lc3.uint16Max, imageWord (imageFile o words) origin 0 k = 0) ↔
      ∀ word ∈ words.take (Lc3.uint16Max - o.toNat), word = 0 := by
  simp only [Lc3.imageWord_imageFile]
  constructor
  · intro h word hword
    obtain ⟨i, hi⟩ := List.mem_iff_getElem?.1 hword
    have hlen : i < Lc3.uint16Max - o.toNat := by
      have hin := (List.getElem?_eq_some_iff.1 hi).1
      rw [List.length_take] at hin
      omega
    have hcell := h ⟨o.toNat + i, by omega⟩
    rwa [if_pos (Nat.le_add_right ..), Nat.add_sub_cancel_left, hi, Option.getD_some] at hcell
  · intro h k
    split
    · cases hword : (words.take (Lc3.uint16Max - o.toNat))[k.val - o.toNat]? with
      | none => rfl
      | some word => exact h word (List.mem_of_getElem? hword)
    · rfl

/-- For every origin and list of words, from memories of zeros: the memories agree after both
    loaders if and only if every word that fits below `uint16Max` is zero. The Java method returns
    if and only if there is a word at all. -/
theorem loadersAgree_iff (o : Word) (words : List Word) (origin : Word) {c : Lc3.State} {j : State}
    (hc : ∀ k, c.memory k = 0) (hj : ∀ k, j.memory k = 0) :
    (LoadersAgree o words origin c j ↔ ∀ word ∈ words.take (Lc3.uint16Max - o.toNat), word = 0) ∧
      (((readImageFile (some (imageFile o words))).run.run j).1 = .ok () ↔ words ≠ []) := by
  refine ⟨?_, readImageFile_returns_iff o words j⟩
  obtain ⟨m, hm, hcell⟩ := Lc3.readImageFile_cells (imageFile o words) origin c
  simp only [hc] at hcell
  rw [← imageWord_eq_zero_iff o words origin]
  constructor
  · intro ⟨c', hc', hagree⟩ k
    obtain rfl : { c with memory := m } = c' := Except.ok.inj (hm.symm.trans hc')
    have hequal := hagree k
    rw [readImageFile_state, hj] at hequal
    rw [← hcell]
    exact setWidth_32_inj.1 hequal.symm
  · intro hzero
    refine ⟨_, hm, fun k => ?_⟩
    have hk : m k = 0 := (hcell k).trans (hzero k)
    change _ = (m k).setWidth 32
    rw [readImageFile_state, hj, hk]
    rfl

/-- Two words of zero at `0x3000`. -/
theorem loadersAgree_zeros :
    LoadersAgree 0x3000 [0, 0] 0 (Lc3.initialState Lc3.noInput) initialState := by
  have hzero : ∀ word ∈ ([0, 0] : List Word), word = 0 := by simp
  have h := loadersAgree_iff 0x3000 [0, 0] 0 (c := Lc3.initialState Lc3.noInput)
    (j := initialState) (fun _ => rfl) (fun _ => rfl)
  exact h.1.2 fun word hword => hzero word (List.mem_of_mem_take hword)

/-- The image of one word that is not zero. -/
theorem loadersAgree_broken_by_word :
    (∀ k, (Lc3.initialState Lc3.noInput).memory k = 0) ∧ (∀ k, initialState.memory k = 0) ∧
      ¬ LoadersAgree 0x3000 [0x1021] 0 (Lc3.initialState Lc3.noInput) initialState := by
  refine ⟨fun _ => rfl, fun _ => rfl, ?_⟩
  intro ⟨c', hc', hagree⟩
  have hword := Lc3.readImageFile_memory hc' ⟨0x3000, by decide⟩
  have hequal := hagree ⟨0x3000, by decide⟩
  rw [hword] at hequal
  exact absurd hequal (by decide)

end Yavm.Java
