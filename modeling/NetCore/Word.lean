import Mathlib.Algebra.Group.Nat.Defs
import Mathlib.Data.List.Basic

/-!
# Machine words and their bytes

The code runs on 32-bit little-endian targets.  Its fixed-width integers are bit vectors, a piece of
memory is the list of its bytes.
-/

namespace NetCore

abbrev U8 := BitVec 8
abbrev U16 := BitVec 16
abbrev U32 := BitVec 32

abbrev Bytes := List U8

/-- The byte at an index; past the end of what is modelled every byte reads as 0. -/
def byteAt (mem : Bytes) (i : Nat) : U8 := mem.getD i 0

/-- A 16-bit number in network order. -/
def beBytes16 (x : U16) : Bytes := [(x >>> 8).setWidth 8, x.setWidth 8]

def beBytes32 (x : U32) : Bytes :=
  [(x >>> 24).setWidth 8, (x >>> 16).setWidth 8, (x >>> 8).setWidth 8, x.setWidth 8]

/-- A 16-bit number as the machine stores it. -/
def leBytes16 (x : U16) : Bytes := (beBytes16 x).reverse

def leBytes32 (x : U32) : Bytes := (beBytes32 x).reverse

/-- The 16-bit number in network order at an index. -/
def beWord16 (mem : Bytes) (i : Nat) : U16 := byteAt mem i ++ byteAt mem (i + 1)

def beWord32 (mem : Bytes) (i : Nat) : U32 := beWord16 mem i ++ beWord16 mem (i + 2)

-- The two bytes of a 16-bit number, put together again.
theorem beBytes16_append (x : U16) : (x >>> 8).setWidth 8 ++ x.setWidth 8 = x := by
  apply BitVec.eq_of_toNat_eq
  have hx := x.isLt
  rw [BitVec.toNat_append, BitVec.toNat_setWidth, BitVec.toNat_setWidth, BitVec.toNat_ushiftRight,
    Nat.shiftRight_eq_div_pow, ← Nat.shiftLeft_add_eq_or_of_lt (Nat.mod_lt _ (by decide)),
    Nat.shiftLeft_eq]
  omega

-- Consecutive indices lie below a bound if their end does.
theorem forall_range'_lt_iff {a k n : Nat} :
    (∀ i ∈ List.range' a k, i < n) ↔ (0 < k → a + k ≤ n) := by
  simp only [List.mem_range'_1]
  constructor
  · intro h hpos
    have hlast := h (a + k - 1) (by omega)
    omega
  · intro h i hi
    have hend := h (by omega)
    omega

@[simp] theorem length_beBytes16 (x : U16) : (beBytes16 x).length = 2 := rfl

@[simp] theorem length_beBytes32 (x : U32) : (beBytes32 x).length = 4 := rfl

@[simp] theorem length_leBytes16 (x : U16) : (leBytes16 x).length = 2 := rfl

@[simp] theorem length_leBytes32 (x : U32) : (leBytes32 x).length = 4 := rfl

end NetCore
