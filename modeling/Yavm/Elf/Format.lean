import Yavm.Elf.Header

set_option autoImplicit false

/-! # The ELF header as the format defines it

A header is a list of numbers (`LogicalHeader`); a class and a byte order fix how it is written
(`encode`). Offsets are those of the format itself, and `Encoded` says where in a buffer that begins
with an encoded header each number stands. Nothing here is taken from the reader. -/

namespace Yavm.Elf

open Basis

/-! ## Classes -/

inductive ElfClass
  | elf32 | elf64
  deriving DecidableEq, Repr

namespace ElfClass

/-- The value of the class byte. -/
def code : ElfClass → Byte
  | .elf32 => 1
  | .elf64 => 2

/-- A number that depends on the class. -/
def pick : ElfClass → ℕ → ℕ → ℕ
  | .elf32, n, _ => n
  | .elf64, _, n => n

/-- A member that is four or eight bytes wide with the class. -/
def sized (c : ElfClass) (p : Bytes) (off32 off64 : ℕ) : ℕ :=
  match c with
  | .elf32 => (load 4 p off32).toNat
  | .elf64 => (load 8 p off64).toNat

/-- A two-byte member. -/
def half (c : ElfClass) (p : Bytes) (off32 off64 : ℕ) : ℕ :=
  (load 2 p (c.pick off32 off64)).toNat

/-- The size of a program header entry. -/
def programHeaderSize (c : ElfClass) : ℕ :=
  c.pick pEndOfProgramHeader32 pEndOfProgramHeader64

/-- The size of a section header entry. -/
def sectionHeaderSize (c : ElfClass) : ℕ :=
  c.pick endOfSectionHeaderOffset32 endOfSectionHeaderOffset64

end ElfClass

/-! ## Headers -/

/-- What an ELF header says, whatever its class and byte order. -/
@[ext]
structure LogicalHeader where
  identVersion : Byte
  osAbi : Byte
  abiVersion : Byte
  type : BitVec 16
  machine : BitVec 16
  version : BitVec 32
  entry : BitVec 64
  phoff : BitVec 64
  shoff : BitVec 64
  flags : BitVec 32
  ehsize : BitVec 16
  phentsize : BitVec 16
  phnum : BitVec 16
  shentsize : BitVec 16
  shnum : BitVec 16
  shstrndx : BitVec 16
  deriving DecidableEq

/-- The value of the data byte. -/
def dataCode : ByteOrder → Byte
  | .little => 1
  | .big => 2

/-- An address or a file offset, as wide as the class makes it. -/
def encodeAddress (c : ElfClass) (order : ByteOrder) (v : BitVec 64) : List Byte :=
  match c with
  | .elf32 => order.encode 4 (v.setWidth 32)
  | .elf64 => order.encode 8 v

/-- The bytes of a header: 52 of them in class 32, 64 in class 64. -/
def encode (c : ElfClass) (order : ByteOrder) (h : LogicalHeader) : List Byte :=
  [0x7f, 0x45, 0x4c, 0x46, c.code, dataCode order, h.identVersion, h.osAbi, h.abiVersion] ++
    List.replicate 7 0 ++ order.encode 2 h.type ++ order.encode 2 h.machine ++
    order.encode 4 h.version ++ encodeAddress c order h.entry ++ encodeAddress c order h.phoff ++
    encodeAddress c order h.shoff ++ order.encode 4 h.flags ++ order.encode 2 h.ehsize ++
    order.encode 2 h.phentsize ++ order.encode 2 h.phnum ++ order.encode 2 h.shentsize ++
    order.encode 2 h.shnum ++ order.encode 2 h.shstrndx

/-- The number at the offset the class gives it, in a buffer of that class. -/
def addressIn (c : ElfClass) (p : Bytes) (off32 off64 : ℕ) : BitVec 64 :=
  match c with
  | .elf32 => (load 4 p off32).setWidth 64
  | .elf64 => load 8 p off64

/-- What the standard offsets of a little-endian buffer say. -/
def headerIn (c : ElfClass) (p : Bytes) : LogicalHeader where
  identVersion := p 6
  osAbi := p 7
  abiVersion := p 8
  type := load 2 p 0x10
  machine := load 2 p 0x12
  version := load 4 p 0x14
  entry := addressIn c p 0x18 0x18
  phoff := addressIn c p 0x1C 0x20
  shoff := addressIn c p 0x20 0x28
  flags := load 4 p (c.pick 0x24 0x30)
  ehsize := load 2 p (c.pick 0x28 0x34)
  phentsize := load 2 p (c.pick 0x2A 0x36)
  phnum := load 2 p (c.pick 0x2C 0x38)
  shentsize := load 2 p (c.pick 0x2E 0x3A)
  shnum := load 2 p (c.pick 0x30 0x3C)
  shstrndx := load 2 p (c.pick 0x32 0x3E)

/-- An address at the offset the class gives it. -/
def AddressAt (c : ElfClass) (order : ByteOrder) (p : Bytes) (off32 off64 : ℕ) (v : BitVec 64) :
    Prop :=
  match c with
  | .elf32 => load 4 p off32 = order.view (v.setWidth 32)
  | .elf64 => load 8 p off64 = order.view v

/-- A buffer with every number of the header at its standard offset. -/
structure Encoded (c : ElfClass) (order : ByteOrder) (h : LogicalHeader) (p : Bytes) : Prop where
  magic : p 0 = 0x7f ∧ p 1 = 0x45 ∧ p 2 = 0x4c ∧ p 3 = 0x46
  elfClass : p 4 = c.code
  data : p 5 = dataCode order
  identVersion : p 6 = h.identVersion
  osAbi : p 7 = h.osAbi
  abiVersion : p 8 = h.abiVersion
  pad : ∀ i < 7, p (9 + i) = 0
  type : load 2 p 0x10 = order.view h.type
  machine : load 2 p 0x12 = order.view h.machine
  version : load 4 p 0x14 = order.view h.version
  entry : AddressAt c order p 0x18 0x18 h.entry
  phoff : AddressAt c order p 0x1C 0x20 h.phoff
  shoff : AddressAt c order p 0x20 0x28 h.shoff
  flags : load 4 p (c.pick 0x24 0x30) = order.view h.flags
  ehsize : load 2 p (c.pick 0x28 0x34) = order.view h.ehsize
  phentsize : load 2 p (c.pick 0x2A 0x36) = order.view h.phentsize
  phnum : load 2 p (c.pick 0x2C 0x38) = order.view h.phnum
  shentsize : load 2 p (c.pick 0x2E 0x3A) = order.view h.shentsize
  shnum : load 2 p (c.pick 0x30 0x3C) = order.view h.shnum
  shstrndx : load 2 p (c.pick 0x32 0x3E) = order.view h.shstrndx

/-- A buffer that begins with an encoded header has its numbers at the standard offsets. -/
theorem encoded_of_holds {c : ElfClass} {order : ByteOrder} {h : LogicalHeader} {p : Bytes}
    (hp : Holds p 0 (encode c order h)) : Encoded c order h p := by
  cases c
  all_goals
    simp only [encode, encodeAddress, holds_append, holds_cons, holds_nil, holds_replicate,
      holds_encode, List.length_append, List.length_cons, List.length_nil, List.length_replicate,
      ByteOrder.length_encode, and_true, and_assoc, Nat.zero_add, Nat.reduceAdd] at hp
    obtain ⟨h₀, h₁, h₂, h₃, hclass, hdata, hident, hosAbi, habi, hpad, htype, hmachine, hversion,
      hentry, hphoff, hshoff, hflags, hehsize, hphentsize, hphnum, hshentsize, hshnum,
      hshstrndx⟩ := hp
    exact ⟨⟨h₀, h₁, h₂, h₃⟩, hclass, hdata, hident, hosAbi, habi, hpad, htype, hmachine, hversion,
      hentry, hphoff, hshoff, hflags, hehsize, hphentsize, hphnum, hshentsize, hshnum, hshstrndx⟩

/-- The header with its addresses cut to what the class has room for. -/
def LogicalHeader.asClass (c : ElfClass) (h : LogicalHeader) : LogicalHeader :=
  match c with
  | .elf32 => { h with entry := (h.entry.setWidth 32).setWidth 64,
                       phoff := (h.phoff.setWidth 32).setWidth 64,
                       shoff := (h.shoff.setWidth 32).setWidth 64 }
  | .elf64 => h

/-- A little-endian buffer says what was encoded. -/
theorem headerIn_eq {c : ElfClass} {h : LogicalHeader} {p : Bytes} (hp : Encoded c .little h p) :
    headerIn c p = h.asClass c := by
  obtain ⟨-, -, -, hident, hosAbi, habi, -, htype, hmachine, hversion, hentry, hphoff, hshoff,
    hflags, hehsize, hphentsize, hphnum, hshentsize, hshnum, hshstrndx⟩ := hp
  cases c with
  | elf32 =>
      have hwiden : ∀ {x y : BitVec 32}, x = y → x.setWidth 64 = y.setWidth 64 :=
        congrArg (BitVec.setWidth 64)
      exact LogicalHeader.ext hident hosAbi habi htype hmachine hversion (hwiden hentry)
        (hwiden hphoff) (hwiden hshoff) hflags hehsize hphentsize hphnum hshentsize hshnum hshstrndx
  | elf64 =>
      exact LogicalHeader.ext hident hosAbi habi htype hmachine hversion hentry hphoff hshoff hflags
        hehsize hphentsize hphnum hshentsize hshnum hshstrndx

end Yavm.Elf
