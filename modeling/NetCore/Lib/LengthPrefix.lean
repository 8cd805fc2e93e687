import Mathlib.Data.List.Basic

/-!
# Fields behind their length

A field is written as one byte with its length and then its bytes, and the writer trusts the byte: of a
field too long for it only the part that the byte still counts is written.
-/

namespace NetCore.Lib

abbrev Octets := List (BitVec 8)

variable {field field' rest : Octets}

def lengthByte (field : Octets) : BitVec 8 := BitVec.ofNat 8 field.length

/-- What the writer makes of a field. -/
def lengthPrefixed (field : Octets) : Octets :=
  lengthByte field :: field.take (lengthByte field).toNat

def takeField : Octets → Option (Octets × Octets)
  | [] => none
  | n :: rest =>
      if n.toNat ≤ rest.length then some (rest.take n.toNat, rest.drop n.toNat) else none

theorem toNat_lengthByte (field : Octets) : (lengthByte field).toNat = field.length % 256 :=
  BitVec.toNat_ofNat ..

theorem length_take_lengthByte (field : Octets) :
    (field.take (lengthByte field).toNat).length = (lengthByte field).toNat := by
  rw [List.length_take, Nat.min_eq_left]
  rw [toNat_lengthByte]
  exact Nat.mod_le _ _

theorem length_lengthPrefixed_le (field : Octets) : (lengthPrefixed field).length ≤ 256 := by
  have hlt := (lengthByte field).isLt
  rw [lengthPrefixed, List.length_cons, length_take_lengthByte]
  omega

-- The byte counts the whole field exactly if it can.
theorem take_lengthByte_eq_iff : field.take (lengthByte field).toNat = field ↔ field.length ≤ 255 := by
  constructor
  · intro heq
    have hlength := length_take_lengthByte field
    have hlt := (lengthByte field).isLt
    rw [heq] at hlength
    omega
  · intro hle
    rw [toNat_lengthByte, Nat.mod_eq_of_lt (by omega), List.take_length]

private theorem takeField_cons {n : BitVec 8} {part : Octets} (hpart : part.length = n.toNat)
    (rest : Octets) : takeField (n :: (part ++ rest)) = some (part, rest) := by
  have hle : n.toNat ≤ (part ++ rest).length := by
    rw [List.length_append, hpart]
    exact Nat.le_add_right _ _
  rw [takeField, if_pos hle, List.take_left' hpart, List.drop_left' hpart]

-- The reader takes just what was written, and nothing of what follows.
theorem takeField_append (field rest : Octets) :
    takeField (lengthPrefixed field ++ rest) =
      some (field.take (lengthByte field).toNat, rest) := by
  rw [lengthPrefixed, List.cons_append]
  exact takeField_cons (length_take_lengthByte field) rest

theorem takeField_lengthPrefixed (field : Octets) :
    takeField (lengthPrefixed field) = some (field.take (lengthByte field).toNat, []) := by
  have hfield := takeField_append field []
  rw [List.append_nil] at hfield
  exact hfield

end NetCore.Lib
