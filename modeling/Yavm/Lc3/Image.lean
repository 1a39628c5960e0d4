import Yavm.Lc3.Instructions

set_option autoImplicit false

/-! # Loading an image (`readImageFile`) and starting the machine (`main`)

`fread` copies the file's bytes in order into the array, on a little-endian host; the byte of a
trailing incomplete element is copied without being counted. The local `origin` is indeterminate
before the first `fread`, so its initial contents are an argument.

The clamp `UINT16_MAX - origin` keeps both loops inside the array, so loading a file that can be
opened always succeeds and changes nothing but `memory` (`readImageFile_ok`). An image file goes to
the cells behind its origin (`loadImage`); what a file of any length does to the other cells is
stated by `restLaw_iff`. -/

namespace Yavm.Lc3

open Basis

/-- `toLittleEndian16(x)`. -/
def toLittleEndian16 (x : Word) : Word :=
  (x <<< 8) ||| (x >>> 8)

/-- `fread(&origin, sizeof(origin), 1, file)`. -/
def freadOrigin (origin : Word) : List Byte → Word
  | [] => origin
  | [lo] => (origin &&& 0xFF00) ||| lo.setWidth 16
  | lo :: hi :: _ => hi ++ lo

/-- Assign to `memory[i]` through a pointer. -/
def updateCell (memory : Memory) (i : ℕ) (f : Word → Word) : Except Stop Memory :=
  if h : i < uint16Max then
    .ok (Function.update memory ⟨i, h⟩ (f (memory ⟨i, h⟩)))
  else
    .error (.pointer i)

/-- The bytes `fread` copies to `memory + i`, two to an element. -/
def storeBytes (memory : Memory) (i : ℕ) : List Byte → Except Stop Memory
  | [] => .ok memory
  | [lo] => updateCell memory i fun old => (old &&& 0xFF00) ||| lo.setWidth 16
  | lo :: hi :: rest => do
    let memory ← updateCell memory i fun _ => hi ++ lo
    storeBytes memory (i + 1) rest

/-- `while (read-- > 0) { *ptr = toLittleEndian16(*ptr); ++ptr; }` with `ptr = memory + i`. -/
def swapLoop (memory : Memory) (i : ℕ) : ℕ → Except Stop Memory
  | 0 => .ok memory
  | read + 1 => do
    let memory ← updateCell memory i toLittleEndian16
    swapLoop memory (i + 1) read

/-- `readImageFile(path)`; `file` is what `fopen(path)` opens. -/
def readImageFile (file : Option (List Byte)) (origin : Word) (s : State) : Except Stop State :=
  match file with
  | none => .error (.exit (-1) "Wrong path")
  | some bytes => do
    let origin := toLittleEndian16 (freadOrigin origin bytes)
    -- `origin` is at most `UINT16_MAX`, so the `uint16_t` difference does not wrap
    let maxRead := uint16Max - origin.toNat
    let data := (bytes.drop 2).take (2 * maxRead)
    let memory ← storeBytes s.memory origin.toNat data
    let memory ← swapLoop memory origin.toNat (data.length / 2)
    return { s with memory := memory }

/-- The process before `main`: every file-scope variable is zero. -/
def initialState (stdin : Input Byte) : State where
  memory := fun _ => 0
  registers := fun _ => 0
  running := false
  stdin := stdin
  stdout := []
  events := []

/-- `main` up to the loop of `emulate`, with the image path given. -/
def boot (file : Option (List Byte)) (origin : Word) (stdin : Input Byte) : Except Stop State :=
  (readImageFile file origin (initialState stdin)).map emulateStart

/-- A state in which the loop of `emulate` starts, for some image and some input. -/
def Booted (s : State) : Prop :=
  ∃ file origin stdin, boot file origin stdin = .ok s

/-- An image file: the origin and the words, big-endian. -/
def imageFile (origin : Word) (words : List Word) : List Byte :=
  (origin :: words).flatMap fun word : Word => [lowByte (word >>> 8), lowByte word]

/-- A standard input that is at its end from the start. -/
def noInput : Input Byte where
  size := 1024
  size_pos := by decide
  buffered := []
  queued := []
  arrivals := []
  closed := true

/-! ## Loading stays inside the array -/

theorem updateCell_ok {m : Memory} {i : ℕ} (f : Word → Word) (h : i < uint16Max) :
    ∃ m', updateCell m i f = .ok m' :=
  ⟨_, dif_pos h⟩

theorem storeBytes_ok (memory : Memory) (i : ℕ) (bytes : List Byte)
    (h : 2 * i + bytes.length ≤ 2 * uint16Max) : ∃ m, storeBytes memory i bytes = .ok m := by
  induction memory, i, bytes using storeBytes.induct with
  | case1 memory i => exact ⟨memory, rfl⟩
  | case2 memory i lo =>
      simp only [List.length_cons, List.length_nil] at h
      exact updateCell_ok _ (by omega)
  | case3 memory i lo hi rest ih =>
      simp only [List.length_cons] at h
      obtain ⟨m, hm⟩ := updateCell_ok (m := memory) (fun _ => hi ++ lo)
        (show i < uint16Max by omega)
      obtain ⟨m', hm'⟩ := ih m (by omega)
      exact ⟨m', bind_eq_ok.2 ⟨m, hm, hm'⟩⟩

theorem swapLoop_ok (memory : Memory) (i read : ℕ) (h : i + read ≤ uint16Max) :
    ∃ m, swapLoop memory i read = .ok m := by
  induction read generalizing memory i with
  | zero => exact ⟨memory, rfl⟩
  | succ read ih =>
      obtain ⟨m, hm⟩ := updateCell_ok (m := memory) toLittleEndian16
        (show i < uint16Max by omega)
      obtain ⟨m', hm'⟩ := ih m (i + 1) (by omega)
      exact ⟨m', bind_eq_ok.2 ⟨m, hm, hm'⟩⟩

/-- Loading a file that can be opened succeeds and changes only `memory`. -/
theorem readImageFile_ok (bytes : List Byte) (origin : Word) (s : State) :
    ∃ m, readImageFile (some bytes) origin s = .ok { s with memory := m } := by
  let o := toLittleEndian16 (freadOrigin origin bytes)
  let data := (bytes.drop 2).take (2 * (uint16Max - o.toNat))
  have ho : o.toNat ≤ uint16Max := Nat.le_of_lt_succ o.isLt
  have hdata : data.length ≤ 2 * (uint16Max - o.toNat) := List.length_take_le _ _
  obtain ⟨m, hm⟩ := storeBytes_ok s.memory o.toNat data (by omega)
  obtain ⟨m', hm'⟩ := swapLoop_ok m o.toNat (data.length / 2) (by omega)
  exact ⟨m', bind_eq_ok.2 ⟨m, hm, bind_eq_ok.2 ⟨m', hm', rfl⟩⟩⟩

/-- Nothing has been printed when the loop of `emulate` starts. -/
theorem Booted.stdout {s : State} (h : Booted s) : s.stdout = [] := by
  obtain ⟨file, origin, stdin, hboot⟩ := h
  obtain ⟨loaded, hload, rfl⟩ := map_eq_ok.1 hboot
  cases file with
  | none => simp [readImageFile] at hload
  | some bytes =>
      obtain ⟨m, hm⟩ := readImageFile_ok bytes origin (initialState stdin)
      obtain rfl := Except.ok.inj (hm.symm.trans hload)
      rfl

/-! ## What an image leaves in memory -/

/-- The word at cell `i` once the image is loaded: a complete big-endian word of the file, or one
    more byte in the low half of the cell, or what was there. -/
def imageWord (bytes : List Byte) (origin old : Word) (i : ℕ) : Word :=
  let o := (toLittleEndian16 (freadOrigin origin bytes)).toNat
  if o ≤ i then
    match ((bytes.drop 2).take (2 * (uint16Max - o))).drop (2 * (i - o)) with
    | first :: second :: _ => first ++ second
    | [last] => (old &&& 0xFF00) ||| last.setWidth 16
    | [] => old
  else
    old

/-- The swap turns the bytes `fread` copied back into the big-endian word of the file. -/
theorem toLittleEndian16_append (hi lo : Byte) : toLittleEndian16 (hi ++ lo) = lo ++ hi := by
  apply BitVec.eq_of_getLsbD_eq
  intro i hi'
  simp only [toLittleEndian16, BitVec.getLsbD_or, BitVec.getLsbD_shiftLeft,
    BitVec.getLsbD_ushiftRight, BitVec.getLsbD_append]
  by_cases h : i < 8
  · have h8 : ¬ 8 + i < 8 := by omega
    simp [h, h8]
  · have h8 : ¬ 8 + i < 8 := by omega
    have hlo : i - 8 < 8 := by omega
    have hhi : hi.getLsbD i = false := BitVec.getLsbD_of_ge hi i (by omega)
    simp [h, h8, hlo, hi', hhi]

theorem updateCell_eq_ok {m m' : Memory} {i : ℕ} {f : Word → Word}
    (h : updateCell m i f = .ok m') (j : Fin uint16Max) :
    m' j = if j.val = i then f (m j) else m j := by
  unfold updateCell at h
  split at h
  · next hi =>
      have h := (Except.ok.inj h)
      subst h
      by_cases hj : j.val = i
      · obtain rfl : j = ⟨i, hi⟩ := Fin.ext hj
        simp
      · rw [if_neg hj, Function.update_of_ne (fun heq => hj (congrArg Fin.val heq))]
  · simp at h

theorem storeBytes_eq_ok {m m' : Memory} {i : ℕ} {bytes : List Byte}
    (h : storeBytes m i bytes = .ok m') (j : Fin uint16Max) :
    m' j = if i ≤ j.val then freadOrigin (m j) (bytes.drop (2 * (j.val - i))) else m j := by
  induction m, i, bytes using storeBytes.induct with
  | case1 m i =>
      obtain rfl := Except.ok.inj h
      simp [freadOrigin]
  | case2 m i lo =>
      rw [updateCell_eq_ok h j]
      rcases Nat.lt_trichotomy j.val i with hlt | heq | hgt
      · rw [if_neg (by omega), if_neg (by omega)]
      · simp [heq, freadOrigin]
      · obtain ⟨d, hd⟩ : ∃ d, 2 * (j.val - i) = d + 1 := ⟨2 * (j.val - i) - 1, by omega⟩
        rw [if_neg (by omega), if_pos (by omega), hd]
        simp [freadOrigin]
  | case3 m i lo hi rest ih =>
      obtain ⟨m₁, h₁, h₂⟩ := bind_eq_ok.1 h
      rw [ih m₁ h₂, updateCell_eq_ok h₁ j]
      rcases Nat.lt_trichotomy j.val i with hlt | heq | hgt
      · rw [if_neg (by omega), if_neg (by omega), if_neg (by omega)]
      · rw [if_neg (by omega), if_pos heq, if_pos (by omega), heq]
        simp [freadOrigin]
      · obtain ⟨d, hd⟩ : ∃ d, j.val - i = d + 1 := ⟨j.val - i - 1, by omega⟩
        have hd' : j.val - (i + 1) = d := by omega
        rw [if_pos (by omega), if_neg (by omega), if_pos (by omega), hd, hd']
        rfl

theorem swapLoop_eq_ok {m m' : Memory} {i read : ℕ} (h : swapLoop m i read = .ok m')
    (j : Fin uint16Max) :
    m' j = if i ≤ j.val ∧ j.val < i + read then toLittleEndian16 (m j) else m j := by
  induction read generalizing m i with
  | zero =>
      obtain rfl := Except.ok.inj h
      rw [if_neg (by omega)]
  | succ read ih =>
      obtain ⟨m₁, h₁, h₂⟩ := bind_eq_ok.1 h
      rw [ih h₂, updateCell_eq_ok h₁ j]
      by_cases hj : j.val = i
      · rw [if_neg (by omega), if_pos hj, if_pos (by omega)]
      · by_cases hin : i ≤ j.val ∧ j.val < i + (read + 1)
        · rw [if_pos (by omega), if_neg hj, if_pos hin]
        · rw [if_neg (by omega), if_neg hj, if_neg hin]

/-- What loading a file leaves in every cell. -/
theorem readImageFile_memory {bytes : List Byte} {origin : Word} {s t : State}
    (h : readImageFile (some bytes) origin s = .ok t) (j : Fin uint16Max) :
    t.memory j = imageWord bytes origin (s.memory j) j := by
  obtain ⟨m₁, h₁, h⟩ := bind_eq_ok.1 h
  obtain ⟨m₂, h₂, h⟩ := bind_eq_ok.1 h
  have hmem : t.memory = m₂ := (congrArg State.memory (Except.ok.inj h)).symm
  rw [hmem, swapLoop_eq_ok h₂, storeBytes_eq_ok h₁, imageWord]
  generalize (toLittleEndian16 (freadOrigin origin bytes)).toNat = o
  generalize (bytes.drop 2).take (2 * (uint16Max - o)) = data
  -- the swap covers the complete elements only: two bytes of data from the cell on, one, or none
  by_cases hj : o ≤ j.val
  · simp only [hj, true_and, if_true]
    have hlen : (data.drop (2 * (j.val - o))).length = data.length - 2 * (j.val - o) :=
      List.length_drop
    cases hdata : data.drop (2 * (j.val - o)) with
    | nil =>
        rw [hdata, List.length_nil] at hlen
        rw [if_neg (by omega)]
        rfl
    | cons first rest =>
        cases rest with
        | nil =>
            rw [hdata, List.length_singleton] at hlen
            rw [if_neg (by omega)]
            rfl
        | cons second rest =>
            rw [hdata, List.length_cons, List.length_cons] at hlen
            rw [if_pos (by omega)]
            exact toLittleEndian16_append second first
  · rw [if_neg (fun h => hj h.1), if_neg hj, if_neg hj]

/-- A file that can be opened is loaded, with `imageWord` in every cell. -/
theorem readImageFile_cells (bytes : List Byte) (origin : Word) (s : State) :
    ∃ m, readImageFile (some bytes) origin s = .ok { s with memory := m } ∧
      ∀ j, m j = imageWord bytes origin (s.memory j) j := by
  obtain ⟨m, hm⟩ := readImageFile_ok bytes origin s
  exact ⟨m, hm, fun j => readImageFile_memory hm j⟩

/-! ## Loading an image file -/

/-- A word as an image file has it. -/
def bigEndian (word : Word) : List Byte :=
  [lowByte (word >>> 8), lowByte word]

theorem lowByte_append (word : Word) : lowByte (word >>> 8) ++ lowByte word = word := by
  apply BitVec.eq_of_getLsbD_eq
  intro i hi
  simp only [lowByte, BitVec.getLsbD_append, BitVec.getLsbD_setWidth, BitVec.getLsbD_ushiftRight]
  by_cases h : i < 8
  · simp [h]
  · have hback : 8 + (i - 8) = i := by omega
    have hin : i - 8 < 8 := by omega
    simp [h, hback, hin]

/-- Dropping whole words from a file. -/
theorem drop_flatMap_bigEndian (words : List Word) (n : ℕ) :
    (words.flatMap bigEndian).drop (2 * n) = (words.drop n).flatMap bigEndian := by
  induction n generalizing words with
  | zero => rfl
  | succ n ih =>
      cases words with
      | nil => simp
      | cons word words => exact ih words

/-- Reading whole words from a file. -/
theorem take_flatMap_bigEndian (words : List Word) (n : ℕ) :
    (words.flatMap bigEndian).take (2 * n) = (words.take n).flatMap bigEndian := by
  induction n generalizing words with
  | zero => rfl
  | succ n ih =>
      cases words with
      | nil => simp
      | cons word words =>
          have htail := ih words
          simp only [List.flatMap_cons, List.take_succ_cons, ← htail]
          rfl

/-- The origin of an image file is read as it is, whatever the local held before. -/
theorem origin_imageFile (o : Word) (words : List Word) (origin : Word) :
    toLittleEndian16 (freadOrigin origin (imageFile o words)) = o :=
  (toLittleEndian16_append _ _).trans (lowByte_append o)

/-- The cells an image file fills, and with what. -/
theorem imageWord_imageFile (o : Word) (words : List Word) (origin old : Word) (i : ℕ) :
    imageWord (imageFile o words) origin old i
      = if o.toNat ≤ i then ((words.take (uint16Max - o.toNat))[i - o.toNat]?).getD old
        else old := by
  have hdata : (((imageFile o words).drop 2).take (2 * (uint16Max - o.toNat))).drop
      (2 * (i - o.toNat))
      = ((words.take (uint16Max - o.toNat)).drop (i - o.toNat)).flatMap bigEndian := by
    rw [← drop_flatMap_bigEndian, ← take_flatMap_bigEndian]
    rfl
  simp only [imageWord, origin_imageFile, hdata]
  generalize words.take (uint16Max - o.toNat) = loaded
  congr 1
  rw [← List.head?_drop]
  cases loaded.drop (i - o.toNat) with
  | nil => rfl
  | cons word rest => exact lowByte_append word

/-- For every origin, list of words and state: loading the image file succeeds, so that no index
    outside the array is formed. It puts the words that fit below `uint16Max` at the origin and the
    cells behind it, and changes nothing else. -/
theorem loadImage (o : Word) (words : List Word) (origin : Word) (s : State) :
    ∃ m, readImageFile (some (imageFile o words)) origin s = .ok { s with memory := m } ∧
      (∀ (i : ℕ) (hi : i < min words.length (uint16Max - o.toNat)),
        m ⟨o.toNat + i, by omega⟩ = words[i]) ∧
      ∀ j : Fin uint16Max, (∀ i < min words.length (uint16Max - o.toNat), j.val ≠ o.toNat + i) →
        m j = s.memory j := by
  obtain ⟨m, hm, hcell⟩ := readImageFile_cells (imageFile o words) origin s
  simp only [imageWord_imageFile] at hcell
  refine ⟨m, hm, ?_, ?_⟩
  · intro i hi
    have hlen : i < (words.take (uint16Max - o.toNat)).length := by
      rw [List.length_take]
      omega
    rw [hcell, if_pos (Nat.le_add_right ..), Nat.add_sub_cancel_left,
      List.getElem?_eq_getElem hlen, Option.getD_some, List.getElem_take]
  · intro j hj
    rw [hcell]
    split
    · next hle =>
        have hlen : (words.take (uint16Max - o.toNat)).length ≤ j.val - o.toNat := by
          by_contra hlt
          rw [List.length_take] at hlt
          exact hj (j.val - o.toNat) (by omega) (by omega)
        rw [List.getElem?_eq_none hlen, Option.getD_none]
    · rfl

/-! ## Files that are no image -/

/-- The origin the file is loaded at, as an index into `memory`. -/
def originIn (bytes : List Byte) (origin : Word) : ℕ :=
  (toLittleEndian16 (freadOrigin origin bytes)).toNat

/-- The number of complete words behind the origin that fit below `uint16Max`. -/
def completeWords (bytes : List Byte) (origin : Word) : ℕ :=
  min ((bytes.length - 2) / 2) (uint16Max - originIn bytes origin)

/-- Loading the file leaves every cell without a complete word as it was. -/
def RestLaw (bytes : List Byte) (origin : Word) (s : State) : Prop :=
  ∀ t, readImageFile (some bytes) origin s = .ok t → ∀ j : Fin uint16Max,
    ¬ (originIn bytes origin ≤ j.val ∧
      j.val < originIn bytes origin + completeWords bytes origin) →
    t.memory j = s.memory j

/-- The cell that gets the last byte of the file, half of a word. -/
def GetsHalfWord (bytes : List Byte) (origin : Word) (j : Fin uint16Max) : Prop :=
  3 ≤ bytes.length ∧ bytes.length % 2 = 1 ∧
    j.val = originIn bytes origin + (bytes.length - 2) / 2

/-- A byte in the low half of a cell changes the cell, unless it is there already. -/
theorem lowHalf_eq_iff {old : Word} {b : Byte} :
    (old &&& 0xFF00) ||| b.setWidth 16 = old ↔ b = lowByte old := by
  have hmask : ∀ i < 16, (0xFF00 : Word).getLsbD i = decide (8 ≤ i) := by decide
  constructor
  · intro h
    apply BitVec.eq_of_getLsbD_eq
    intro i hi
    have hbit := congrArg (fun x : Word => x.getLsbD i) h
    have hlow : ¬ 8 ≤ i := by omega
    have hin : i < 16 := by omega
    simp only [BitVec.getLsbD_or, BitVec.getLsbD_and, hmask i hin, hlow, decide_false,
      Bool.and_false, Bool.false_or, BitVec.getLsbD_setWidth, hin, decide_true,
      Bool.true_and] at hbit
    rw [hbit, lowByte, BitVec.getLsbD_setWidth]
    simp [hi]
  · intro hb
    subst hb
    apply BitVec.eq_of_getLsbD_eq
    intro i hi
    simp only [BitVec.getLsbD_or, BitVec.getLsbD_and, hmask i hi, lowByte,
      BitVec.getLsbD_setWidth, hi, decide_true, Bool.true_and]
    by_cases hlow : i < 8
    · have hmasked : ¬ 8 ≤ i := by omega
      simp [hlow, hmasked]
    · have hkept : 8 ≤ i := by omega
      simp [hlow, hkept]

/-- Outside the complete words, what is left of the file from the cell on is at most one byte. -/
theorem imageWord_rest {bytes : List Byte} {origin : Word} (old : Word) {j : ℕ}
    (hj : j < uint16Max)
    (hrest : ¬ (originIn bytes origin ≤ j ∧
      j < originIn bytes origin + completeWords bytes origin)) :
    imageWord bytes origin old j =
      if originIn bytes origin ≤ j then
        freadOrigin old (bytes.drop (2 + 2 * (j - originIn bytes origin)))
      else old := by
  rw [imageWord]
  change (if originIn bytes origin ≤ j then _ else old) = _
  by_cases ho : originIn bytes origin ≤ j
  · have hshort : (bytes.drop (2 + 2 * (j - originIn bytes origin))).length ≤ 1 := by
      rw [completeWords] at hrest
      rw [List.length_drop]
      omega
    have hdata : ((bytes.drop 2).take (2 * (uint16Max - originIn bytes origin))).drop
        (2 * (j - originIn bytes origin))
        = bytes.drop (2 + 2 * (j - originIn bytes origin)) := by
      rw [List.drop_take, List.drop_drop, List.take_of_length_le]
      omega
    change (if _ then (match ((bytes.drop 2).take (2 * (uint16Max - originIn bytes origin))).drop
      (2 * (j - originIn bytes origin)) with
      | first :: second :: _ => first ++ second
      | [last] => (old &&& 0xFF00) ||| last.setWidth 16
      | [] => old) else old) = _
    rw [if_pos ho, if_pos ho, hdata]
    match bytes.drop (2 + 2 * (j - originIn bytes origin)), hshort with
    | [], _ => rfl
    | [last], _ => rfl
  · rw [if_neg ho, if_neg ho]

/-- A cell outside the complete words is left as it was, unless it gets half a word it does not
    have. -/
theorem imageWord_eq_old_iff {bytes : List Byte} {origin old : Word} {j : Fin uint16Max}
    (hrest : ¬ (originIn bytes origin ≤ j.val ∧
      j.val < originIn bytes origin + completeWords bytes origin)) :
    imageWord bytes origin old j = old ↔
      (GetsHalfWord bytes origin j → bytes.getLast? = some (lowByte old)) := by
  rw [imageWord_rest old j.isLt hrest, GetsHalfWord]
  have hcount : completeWords bytes origin
      = min ((bytes.length - 2) / 2) (uint16Max - originIn bytes origin) := rfl
  by_cases ho : originIn bytes origin ≤ j.val
  · rw [if_pos ho]
    have hlast := List.getLast?_drop (l := bytes) (i := 2 + 2 * (j.val - originIn bytes origin))
    have hlen := List.length_drop (l := bytes) (i := 2 + 2 * (j.val - originIn bytes origin))
    match hdrop : bytes.drop (2 + 2 * (j.val - originIn bytes origin)) with
    | [] =>
      rw [hdrop, List.length_nil] at hlen
      refine iff_of_true rfl fun ⟨hlong, hodd, hj⟩ => ?_
      omega
    | [last] =>
      rw [hdrop, List.length_singleton] at hlen
      rw [hdrop, if_neg (by omega)] at hlast
      have hhalf : 3 ≤ bytes.length ∧ bytes.length % 2 = 1 ∧
          j.val = originIn bytes origin + (bytes.length - 2) / 2 := by omega
      rw [← hlast]
      simp only [hhalf, and_self, true_imp_iff, List.getLast?_singleton, Option.some.injEq]
      exact lowHalf_eq_iff
    | first :: second :: rest =>
      rw [hdrop, List.length_cons, List.length_cons] at hlen
      omega
  · rw [if_neg ho]
    exact iff_of_true rfl fun ⟨_, _, hj⟩ => absurd hj (by omega)

theorem RestLaw.halfWord {bytes : List Byte} {origin : Word} {s : State}
    (h : RestLaw bytes origin s) {j : Fin uint16Max} (hj : GetsHalfWord bytes origin j) :
    bytes.getLast? = some (lowByte (s.memory j)) := by
  obtain ⟨m, hm, hcells⟩ := readImageFile_cells bytes origin s
  have hrest : ¬ (originIn bytes origin ≤ j.val ∧
      j.val < originIn bytes origin + completeWords bytes origin) := by
    have hcell := hj.2.2
    rw [completeWords]
    omega
  have hold : m j = s.memory j := h _ hm j hrest
  rw [hcells] at hold
  exact (imageWord_eq_old_iff hrest).1 hold hj

/-- For every file content, every value of the uninitialised local and every state: loading leaves
    the cells without a complete word alone if and only if the cell that gets the last byte of a
    file of odd length, if there is one, has that byte in its low half already. In particular a file
    of less than three bytes changes nothing. -/
theorem restLaw_iff (bytes : List Byte) (origin : Word) (s : State) :
    RestLaw bytes origin s ↔
      ∀ j, GetsHalfWord bytes origin j → bytes.getLast? = some (lowByte (s.memory j)) := by
  constructor
  · exact fun h j hj => h.halfWord hj
  · intro h t ht j hrest
    rw [readImageFile_memory ht]
    exact (imageWord_eq_old_iff hrest).2 (h j)

/-- The third byte of a file with origin `0x3000` ends up in the low half of that cell, which the
    file has no word for. -/
theorem restLaw_broken_by_third_byte : ¬ RestLaw [0x30, 0x00, 0x41] 0 (initialState noInput) := by
  intro hlaw
  have hlast := hlaw.halfWord (j := ⟨0x3000, by decide⟩) ⟨by decide, by decide, by decide⟩
  exact absurd hlast (by decide)

end Yavm.Lc3
