import Yavm.Elf.Decode
import Yavm.Elf.Format

set_option autoImplicit false

/-! # What `parseElfHeader` writes

A record is filled member by member. A table (`List Write`) lists the members and their values; when
they do not overlap, each member of the record ends up with its value (`get_writeAll`), and
functions that each perform one entry of the table write all of it (`foldl_performs`).

`members` is the table of `parseMembers` and `identMembers` that of the identification bytes.
`headerRecord` is the record with both. -/

namespace Yavm.Elf

open Basis

/-! ## Tables of members -/

/-- A member and the value it is given. -/
structure Write where
  {n : ℕ}
  member : Field n
  value : BitVec (8 * n)

namespace Write

def apply (w : Write) (r : Record) : Record :=
  w.member.set w.value r

/-- The bytes a member occupies: their first offset and their number. -/
def span (w : Write) : ℕ × ℕ :=
  (w.member.offset, w.n)

end Write

/-- The members at these places do not overlap. -/
def Apart (a b : ℕ × ℕ) : Prop :=
  a.1 + a.2 ≤ b.1 ∨ b.1 + b.2 ≤ a.1

instance : DecidableRel Apart := fun a b =>
  inferInstanceAs (Decidable (a.1 + a.2 ≤ b.1 ∨ b.1 + b.2 ≤ a.1))

/-- All members written, in order. -/
def writeAll (ws : List Write) (r : Record) : Record :=
  ws.foldl (fun r w => w.apply r) r

theorem get_writeAll_of_apart {n : ℕ} (f : Field n) {ws : List Write} (r : Record)
    (h : ∀ w ∈ ws, Apart (f.offset, n) w.span) : f.get (writeAll ws r) = f.get r := by
  induction ws generalizing r with
  | nil => rfl
  | cons w ws ih =>
      have hw := h w (List.mem_cons_self ..)
      change f.get (writeAll ws (w.apply r)) = f.get r
      rw [ih _ fun w' hw' => h w' (List.mem_cons_of_mem w hw')]
      exact Field.get_set_of_disjoint _ r hw

/-- Members that do not overlap end up with their values. -/
theorem get_writeAll {ws : List Write} (hapart : (ws.map Write.span).Pairwise Apart) {w : Write}
    (hw : w ∈ ws) (r : Record) : w.member.get (writeAll ws r) = w.value := by
  induction ws generalizing r with
  | nil => simp at hw
  | cons w' ws ih =>
      rw [List.map_cons, List.pairwise_cons] at hapart
      change w.member.get (writeAll ws (w'.apply r)) = w.value
      rcases List.mem_cons.1 hw with rfl | hmem
      · rw [get_writeAll_of_apart _ _ fun u hu => hapart.1 _ (List.mem_map_of_mem hu)]
        exact Field.get_set_self ..
      · exact ih hapart.2 hmem _

/-! ## `parseElfHeader` -/

namespace ElfClass

/-- What `bit_depth` is set to. -/
def depth : ElfClass → BitVec 16
  | .elf32 => 32
  | .elf64 => 64

/-- What a 64-bit member ends up as: in class 32 the number is in its high half. -/
def parsedAddress (c : ElfClass) (p : Bytes) (off32 off64 : ℕ) : BitVec 64 :=
  match c with
  | .elf32 => (load 4 p off32).setWidth 64 <<< 32
  | .elf64 => load 8 p off64

end ElfClass

/-- The members parsed after `EI_PAD`, in order, and what they end up as. The flags are the only
    ones that are not swapped. -/
def members (c : ElfClass) (p : Bytes) : List Write :=
  [⟨ElfHeader.type, load 2 p 0x10⟩, ⟨ElfHeader.isa, load 2 p 0x12⟩,
    ⟨ElfHeader.entryPointOffset, c.parsedAddress p 0x18 0x18⟩,
    ⟨ElfHeader.programHeaderOffset, c.parsedAddress p 0x1C 0x20⟩,
    ⟨ElfHeader.sectionHeaderOffset, c.parsedAddress p 0x20 0x28⟩,
    ⟨ElfHeader.flags, byteSwap 4 (load 4 p (c.pick 0x24 0x30))⟩,
    ⟨ElfHeader.elfHeaderSize, load 2 p (c.pick 0x28 0x34)⟩,
    ⟨ElfHeader.programHeaderSize, load 2 p (c.pick 0x2A 0x36)⟩,
    ⟨ElfHeader.programHeaderEntriesNum, load 2 p (c.pick 0x2C 0x38)⟩,
    ⟨ElfHeader.sectionHeaderSize, load 2 p (c.pick 0x2E 0x3A)⟩,
    ⟨ElfHeader.sectionHeaderEntriesNum, load 2 p (c.pick 0x30 0x3C)⟩,
    ⟨ElfHeader.sectionHeaderIndex, load 2 p (c.pick 0x32 0x3E)⟩]

/-- The functions that parse them. -/
def memberParsers (elfPtr : Bytes) (bitDepth : Byte) : List (Record → Record) :=
  [parse16 elfPtr ElfHeader.type eTypeOffset, parse16 elfPtr ElfHeader.isa eIsaOffset,
    storeSwapped elfPtr ElfHeader.entryPointOffset eEntryOffset eEntryOffset bitDepth,
    storeSwapped elfPtr ElfHeader.programHeaderOffset eProgramHeader32BitOffset
      eProgramHeader64BitOffset bitDepth,
    storeSwapped elfPtr ElfHeader.sectionHeaderOffset eSectionHeader32BitOffset
      eSectionHeader64BitOffset bitDepth,
    parseFlags elfPtr,
    fun r => parse16 elfPtr ElfHeader.elfHeaderSize
      (offsetByDepth r eElfHeaderSize32BitOffset eElfHeaderSize64BitOffset) r,
    fun r => parse16 elfPtr ElfHeader.programHeaderSize
      (offsetByDepth r eProgramHeaderSize32BitOffset eProgramHeaderSize64BitOffset) r,
    fun r => parse16 elfPtr ElfHeader.programHeaderEntriesNum
      (offsetByDepth r eProgramHeaderNumOfEntries32BitOffset
        eProgramHeaderNumOfEntries64BitOffset) r,
    fun r => parse16 elfPtr ElfHeader.sectionHeaderSize
      (offsetByDepth r eSectionHeaderSize32BitOffset eSectionHeaderSize64BitOffset) r,
    fun r => parse16 elfPtr ElfHeader.sectionHeaderEntriesNum
      (offsetByDepth r eSectionHeaderNumOfEntries32BitOffset
        eSectionHeaderNumOfEntries64BitOffset) r,
    fun r => parse16 elfPtr ElfHeader.sectionHeaderIndex
      (offsetByDepth r eSectionHeaderEntryIndexContainingNames32BitOffset
        eSectionHeaderEntryIndexContainingNames64BitOffset) r]

theorem parseMembers_eq_foldl (elfPtr : Bytes) (r : Record) :
    parseMembers elfPtr r
      = (memberParsers elfPtr ((ElfHeader.bitDepth.get
          (parse16 elfPtr ElfHeader.isa eIsaOffset
            (parse16 elfPtr ElfHeader.type eTypeOffset r))).setWidth 8)).foldl
          (fun r parse => parse r) r :=
  rfl

theorem offsetByDepth_eq {c : ElfClass} {r : Record} (hdepth : ElfHeader.bitDepth.get r = c.depth)
    (off32 off64 : ℕ) : offsetByDepth r off32 off64 = c.pick off32 off64 := by
  rw [offsetByDepth, hdepth]
  cases c <;> rfl

theorem storeSwapped_eq (c : ElfClass) (ptr : Bytes) (member : Field 8) {off32 off64 : ℕ}
    {r : Record} (h32 : off32 + 3 < 65536) (h64 : off64 + 7 < 65536) (h : member.get r = 0) :
    storeSwapped ptr member off32 off64 (c.depth.setWidth 8) r
      = member.set (c.parsedAddress ptr off32 off64) r := by
  cases c with
  | elf32 => exact storeSwapped_32 ptr member off64 h32 h
  | elf64 => exact storeSwapped_64 ptr member off32 r h64

theorem parseFlags_eq {c : ElfClass} (ptr : Bytes) {r : Record}
    (hdepth : ElfHeader.bitDepth.get r = c.depth) (h : ElfHeader.flags.get r = 0) :
    parseFlags ptr r = ElfHeader.flags.set (byteSwap 4 (load 4 ptr (c.pick 0x24 0x30))) r := by
  have hrounds : rounds (c.pick 0x24 0x30) 3 = 3 := by cases c <;> rfl
  simp only [parseFlags, offsetByDepth_eq hdepth, hrounds, h]
  exact congrArg (fun v => ElfHeader.flags.set v r) (shiftIn_or ptr (c.pick 0x24 0x30) 3)

/-- On a member that is zero, in a record of class `c`, `parse` does what `w` says. -/
def Performs (c : ElfClass) (parse : Record → Record) (w : Write) : Prop :=
  ∀ r, ElfHeader.bitDepth.get r = c.depth → w.member.get r = 0 → parse r = w.apply r

/-- Parsing members that do not overlap, all of them zero at first, writes them all. -/
theorem foldl_performs {c : ElfClass} {parsers : List (Record → Record)} {ws : List Write}
    (h : List.Forall₂ (Performs c) parsers ws) (hapart : (ws.map Write.span).Pairwise Apart)
    (hbits : ∀ w ∈ ws, Apart (4, 2) w.span) {r : Record}
    (hdepth : ElfHeader.bitDepth.get r = c.depth) (hzero : ∀ w ∈ ws, w.member.get r = 0) :
    parsers.foldl (fun r parse => parse r) r = writeAll ws r := by
  induction h generalizing r with
  | nil => rfl
  | @cons parse w parsers ws hparse _ ih =>
      rw [List.map_cons, List.pairwise_cons] at hapart
      rw [List.foldl_cons, hparse r hdepth (hzero w (List.mem_cons_self ..))]
      refine ih hapart.2 (fun u hu => hbits u (List.mem_cons_of_mem w hu)) ?_ fun u hu => ?_
      · rw [← hdepth]
        exact Field.get_set_of_disjoint _ r (hbits w (List.mem_cons_self ..))
      · rw [← hzero u (List.mem_cons_of_mem w hu)]
        exact Field.get_set_of_disjoint _ r (hapart.1 _ (List.mem_map_of_mem hu)).symm

/-- Where the members lie: none overlaps another, nor the first six bytes of the record. -/
theorem members_span (c : ElfClass) (p : Bytes) : (members c p).map Write.span
    = [(6, 2), (8, 2), (28, 8), (36, 8), (44, 8), (24, 4), (10, 2), (14, 2), (16, 2), (18, 2),
      (20, 2), (22, 2)] :=
  rfl

theorem members_apart (c : ElfClass) (p : Bytes) :
    ((members c p).map Write.span).Pairwise Apart := by
  rw [members_span]
  decide

theorem members_behind (c : ElfClass) (p : Bytes) : ∀ w ∈ members c p, 6 ≤ w.member.offset := by
  have hbehind : ∀ a ∈ (members c p).map Write.span, 6 ≤ a.1 := by
    rw [members_span]
    decide
  exact fun w hw => hbehind w.span (List.mem_map_of_mem hw)

theorem performs_parse16 (c : ElfClass) (p : Bytes) (member : Field 2) (currIdx : ℕ) :
    Performs c (parse16 p member currIdx) ⟨member, load 2 p currIdx⟩ :=
  fun _ _ hzero => parse16_eq p currIdx hzero

theorem performs_offsetByDepth (c : ElfClass) (p : Bytes) (member : Field 2) (off32 off64 : ℕ) :
    Performs c (fun r => parse16 p member (offsetByDepth r off32 off64) r)
      ⟨member, load 2 p (c.pick off32 off64)⟩ := by
  intro r hdepth hzero
  change parse16 p member (offsetByDepth r off32 off64) r = _
  rw [offsetByDepth_eq hdepth]
  exact parse16_eq p _ hzero

theorem performs_storeSwapped (c : ElfClass) (p : Bytes) (member : Field 8) {off32 off64 : ℕ}
    (h32 : off32 + 3 < 65536) (h64 : off64 + 7 < 65536) :
    Performs c (storeSwapped p member off32 off64 (c.depth.setWidth 8))
      ⟨member, c.parsedAddress p off32 off64⟩ :=
  fun _ _ hzero => storeSwapped_eq c p member h32 h64 hzero

theorem memberParsers_perform (c : ElfClass) (p : Bytes) :
    List.Forall₂ (Performs c) (memberParsers p (c.depth.setWidth 8)) (members c p) :=
  .cons (performs_parse16 c p _ _) <| .cons (performs_parse16 c p _ _) <|
  .cons (performs_storeSwapped c p _ (by decide) (by decide)) <|
  .cons (performs_storeSwapped c p _ (by decide) (by decide)) <|
  .cons (performs_storeSwapped c p _ (by decide) (by decide)) <|
  .cons (fun _ hdepth hzero => parseFlags_eq p hdepth hzero) <|
  .cons (performs_offsetByDepth c p _ _ _) <| .cons (performs_offsetByDepth c p _ _ _) <|
  .cons (performs_offsetByDepth c p _ _ _) <| .cons (performs_offsetByDepth c p _ _ _) <|
  .cons (performs_offsetByDepth c p _ _ _) <| .cons (performs_offsetByDepth c p _ _ _) .nil

/-- On a record that is zero behind the first six bytes, `parseMembers` writes the table. -/
theorem parseMembers_eq {c : ElfClass} (p : Bytes) {r : Record}
    (hdepth : ElfHeader.bitDepth.get r = c.depth)
    (hzero : ∀ {n : ℕ} (f : Field n), 6 ≤ f.offset → f.get r = 0) :
    parseMembers p r = writeAll (members c p) r := by
  have htype : parse16 p ElfHeader.type eTypeOffset r = ElfHeader.type.set (load 2 p 0x10) r :=
    parse16_eq p _ (hzero _ (by decide))
  have hisa : parse16 p ElfHeader.isa eIsaOffset (ElfHeader.type.set (load 2 p 0x10) r)
      = ElfHeader.isa.set (load 2 p 0x12) (ElfHeader.type.set (load 2 p 0x10) r) := by
    apply parse16_eq
    rw [Field.get_set_of_disjoint _ _ (by decide)]
    exact hzero _ (by decide)
  -- `bit_depth` is read once for the three addresses, after the first two members
  have hbits : ElfHeader.bitDepth.get (parse16 p ElfHeader.isa eIsaOffset
      (parse16 p ElfHeader.type eTypeOffset r)) = c.depth := by
    rw [htype, hisa, Field.get_set_of_disjoint _ _ (by decide),
      Field.get_set_of_disjoint _ _ (by decide), hdepth]
  rw [parseMembers_eq_foldl, hbits]
  exact foldl_performs (memberParsers_perform c p) (members_apart c p)
    (fun w hw => Or.inl (members_behind c p w hw)) hdepth
    fun w hw => hzero _ (members_behind c p w hw)

/-- The members parsed from the identification bytes. -/
def identMembers (c : ElfClass) (order : ByteOrder) (p : Bytes) : List Write :=
  [⟨ElfHeader.bitDepth, c.depth⟩, ⟨ElfHeader.isLittleEndian, if order = .little then 1 else 0⟩,
    ⟨ElfHeader.isElfOriginalVersion, if p 6 = 1 then 1 else 0⟩, ⟨ElfHeader.abiOs, p 7⟩,
    ⟨ElfHeader.abiVersion, p 8⟩]

/-- The record when `parseMembers` is called. -/
def identRecord (c : ElfClass) (order : ByteOrder) (p : Bytes) : Record :=
  writeAll (identMembers c order p) fun _ => 0

/-- The record `parseElfHeader` returns. -/
def headerRecord (c : ElfClass) (order : ByteOrder) (p : Bytes) : Record :=
  writeAll (members c p) (identRecord c order p)

theorem identMembers_span (c : ElfClass) (order : ByteOrder) (p : Bytes) :
    (identMembers c order p).map Write.span = [(4, 2), (0, 1), (1, 1), (2, 1), (3, 1)] :=
  rfl

theorem identMembers_apart (c : ElfClass) (order : ByteOrder) (p : Bytes) :
    ((identMembers c order p).map Write.span).Pairwise Apart := by
  rw [identMembers_span]
  decide

theorem identMembers_before (c : ElfClass) (order : ByteOrder) (p : Bytes) :
    ∀ w ∈ identMembers c order p, w.member.offset + w.n ≤ 6 := by
  have hbefore : ∀ a ∈ (identMembers c order p).map Write.span, a.1 + a.2 ≤ 6 := by
    rw [identMembers_span]
    decide
  exact fun w hw => hbefore w.span (List.mem_map_of_mem hw)

/-- The record keeps what was parsed first. -/
theorem get_headerRecord_ident {c : ElfClass} {order : ByteOrder} {p : Bytes} {w : Write}
    (hw : w ∈ identMembers c order p) : w.member.get (headerRecord c order p) = w.value := by
  rw [headerRecord, get_writeAll_of_apart, identRecord]
  · exact get_writeAll (identMembers_apart c order p) hw _
  · exact fun u hu =>
      Or.inl (Nat.le_trans (identMembers_before c order p w hw) (members_behind c p u hu))

theorem get_headerRecord {c : ElfClass} {order : ByteOrder} {p : Bytes} {w : Write}
    (hw : w ∈ members c p) : w.member.get (headerRecord c order p) = w.value :=
  get_writeAll (members_apart c p) hw _

end Yavm.Elf
