import NetCore.Lib.Stores
import NetCore.Word

/-!
# `Dns`: the name at an offset of a message

`getNameNotation` walks from label to label, through compression pointers, and spells the name into
the buffer of its caller.  The message is the memory from its first byte on, of which `datalen` bytes
belong to it; every index read is recorded, and every store into the buffer.  `toString` decodes the
names of the questions and of the answers; of the text it makes, only where it reads is kept.
-/

namespace NetCore

namespace Dns

/-- The array both callers pass. -/
def NAME_SIZE : Nat := 255

structure Locals where
  off : U16
  /-- A pointer has been followed. -/
  c : Bool
  rlen : U8
  ptr : U16
  len : U8
  reads : List Nat
  stores : List (U8 × Nat)

variable (dns : Nat → U8)

/-- Where the pointer at a place leads, its first byte being `len`. -/
def target (len : U8) (ptr : U16) : U16 :=
  ((len &&& 0x3F).setWidth 16 <<< 8) ||| (dns (ptr.toNat + 1)).setWidth 16

/-- `tlen`: as much of a label as `out` has room for behind its first `rlen` bytes. -/
def keptLength (size : Nat) (rlen len : U8) : Nat :=
  if size ≤ rlen.toNat + len.toNat then size - rlen.toNat - 1 else len.toNat

/-- What a round stores of the label at a place: nothing, or its letters and a dot. -/
def piece (size : Nat) (rlen : U8) (ptr : U16) (len : U8) : List (U8 × Nat) :=
  let tlen := keptLength size rlen len
  if 0 < tlen then
    (((List.range' (ptr.toNat + 1) tlen).map dns) ++ [0x2E]).zipIdx rlen.toNat
  else []

def round (datalen size : Nat) (s : Locals) : Option Locals :=
  if s.len &&& 0xC0 ≠ 0 then
    let ptr := target dns s.len s.ptr
    some
      { s with
        ptr := ptr
        len := dns ptr.toNat
        c := true
        off := if s.c then s.off else s.off + 2
        reads := s.reads ++ [s.ptr.toNat + 1, ptr.toNat] }
  else if s.ptr.toNat + 1 + s.len.toNat < datalen then
    let ptr := s.ptr + (s.len.setWidth 16 + 1)
    some
      { s with
        rlen := s.rlen + (s.len + 1)
        ptr := ptr
        len := dns ptr.toNat
        off := if s.c then s.off else ptr + 1
        reads := s.reads ++ List.range' (s.ptr.toNat + 1) (keptLength size s.rlen s.len) ++ [ptr.toNat]
        stores := s.stores ++ piece dns size s.rlen s.ptr s.len }
  else none

-- The loop from a value of `loop` on, which falls with every round and so ends it; the second
-- component is `loop` behind it.  It is a byte: the test that finds it at 0 leaves it at 255.
def notationLoop (datalen size : Nat) : Nat → Locals → Locals × Nat
  | 0, s => if s.len = 0 then (s, 0) else (s, 255)
  | loop + 1, s =>
      if s.len = 0 then (s, loop + 1)
      else
        match round dns datalen size s with
        | none => (s, loop)
        | some s => notationLoop datalen size loop s

structure NameNotation where
  next : U16
  reads : List Nat
  stores : List (U8 × Nat)

def getNameNotation (datalen : Nat) (off : U16) (size : Nat) : NameNotation :=
  let (s, loop) := notationLoop dns datalen size 10
    ⟨off, false, 0, off, dns off.toNat, [off.toNat], [(0, 0)]⟩
  -- too many rounds, or a name that is not one: nothing ends what has been spelled
  if loop = 0 then ⟨s.off, s.reads, s.stores⟩
  else if s.len ≠ 0 ∨ s.rlen = 0 then ⟨s.off, s.reads, s.stores⟩
  else ⟨if s.c then s.off else s.ptr + 1, s.reads, s.stores ++ [(0, s.rlen.toNat - 1)]⟩

/-! ## A message -/

def word (i : Nat) : U16 := dns i ++ dns (i + 1)

/-- A name that `toString` decodes, and how many bytes it reads behind it. -/
structure Entry where
  off : U16
  fixed : Nat

-- The loop over the questions: its entries and the offset it leaves.  A name that takes no space
-- ends it.
def questionLoop (datalen : Nat) : Nat → U16 → List Entry × U16
  | 0, offset => ([], offset)
  | qnum + 1, offset =>
      let next := (getNameNotation dns datalen offset NAME_SIZE).next
      if next ≠ offset then
        let r := questionLoop datalen qnum (next + 4)
        (⟨offset, 4⟩ :: r.1, r.2)
      else ([⟨offset, 0⟩], offset)

/-- What a record holds behind its name: type, class, time to live and the length of its data, and of
    the data the address it may be. -/
def recordFixed (off : Nat) : Nat := if word dns (off + 2) = 1 ∧ word dns off = 1 then 14 else 10

-- The loop over the answers; a record that leads back to itself ends it.
def answerLoop (datalen : Nat) : Nat → U16 → List Entry
  | 0, _ => []
  | anum + 1, offset =>
      let off := (getNameNotation dns datalen offset NAME_SIZE).next
      let next := off + 10 + word dns (off.toNat + 8)
      ⟨offset, recordFixed dns off.toNat⟩ ::
        if next = offset then [] else answerLoop datalen anum next

/-- `toString` of a message: the entries it comes across.  Authorities and additional records are
    counted only. -/
def messageEntries (datalen : Nat) : List Entry :=
  let questions := questionLoop dns datalen (word dns 4).toNat 12
  questions.1 ++ answerLoop dns datalen (word dns 6).toNat questions.2

def entryReads (datalen : Nat) (entry : Entry) : List Nat :=
  let name := getNameNotation dns datalen entry.off NAME_SIZE
  name.reads ++ List.range' name.next.toNat entry.fixed

/-- The indices that `toString` reads, of the header first. -/
def messageReads (datalen : Nat) : List Nat :=
  List.range 12 ++ (messageEntries dns datalen).flatMap (entryReads dns datalen)

end Dns

end NetCore
