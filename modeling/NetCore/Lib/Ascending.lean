import Mathlib.Data.List.Basic
import Mathlib.Order.Lattice

/-!
# Rows that ascend by a key

The keys of the items grow strictly along the row.  An item belongs before the first one whose key is
not smaller: there it keeps the row ascending, unless its key is in the row, and then it is the key of
just that one.
-/

namespace NetCore.Lib

variable {α κ : Type*} [LinearOrder κ] {key : α → κ} {x : α} {row : List α}

def Ascending (key : α → κ) (row : List α) : Prop := row.Pairwise fun a b => key a < key b

-- The index of the first item whose key is not smaller, or the length of the row.
def placeOf (key : α → κ) (x : α) : List α → Nat
  | [] => 0
  | y :: row => if key x ≤ key y then 0 else placeOf key x row + 1

theorem placeOf_congr {x' : α} (h : key x = key x') (row : List α) :
    placeOf key x row = placeOf key x' row := by
  induction row with
  | nil => rfl
  | cons y row ih => rw [placeOf, placeOf, h, ih]

-- Whatever is inserted at the place of an item splits the row there.
theorem insertIdx_placeOf (key : α → κ) (x y : α) (row : List α) :
    row.insertIdx (placeOf key x row) y =
      row.take (placeOf key x row) ++ y :: row.drop (placeOf key x row) := by
  induction row with
  | nil => rfl
  | cons z row ih =>
    rw [placeOf]
    split
    · rfl
    · rw [List.insertIdx_succ_cons, ih]
      rfl

theorem lt_of_mem_take_place {y : α} (h : y ∈ row.take (placeOf key x row)) : key y < key x := by
  induction row with
  | nil => cases h
  | cons z row ih =>
    rw [placeOf] at h
    split at h
    · cases h
    next hbehind =>
      rw [List.take_succ_cons] at h
      rcases List.mem_cons.mp h with rfl | hrest
      · exact lt_of_not_ge hbehind
      · exact ih hrest

theorem le_of_mem_drop_place {y : α} (hrow : Ascending key row)
    (h : y ∈ row.drop (placeOf key x row)) : key x ≤ key y := by
  induction row with
  | nil => cases h
  | cons z row ih =>
    obtain ⟨hfirst, hrest⟩ := List.pairwise_cons.mp hrow
    rw [placeOf] at h
    split at h
    next hle =>
      rcases List.mem_cons.mp h with rfl | hmem
      · exact hle
      · exact le_trans hle (le_of_lt (hfirst y hmem))
    next =>
      rw [List.drop_succ_cons] at h
      exact ih hrest h

-- A key of the row is found at the place of the item.
theorem exists_at_place_iff (hrow : Ascending key row) :
    (∃ y, row[placeOf key x row]? = some y ∧ key y = key x) ↔ ∃ y ∈ row, key y = key x := by
  constructor
  · rintro ⟨y, hat, hkey⟩
    exact ⟨y, List.mem_of_getElem? hat, hkey⟩
  · rintro ⟨y, hmem, hkey⟩
    -- the items before the place have smaller keys
    have hbehind : y ∈ row.drop (placeOf key x row) := by
      rw [← List.take_append_drop (placeOf key x row) row] at hmem
      apply (List.mem_append.mp hmem).resolve_left
      intro hfront
      have hlt := lt_of_mem_take_place hfront
      rw [hkey] at hlt
      exact lt_irrefl _ hlt
    obtain ⟨z, rest, hdrop⟩ := List.exists_cons_of_ne_nil (List.ne_nil_of_mem hbehind)
    have hat : row[placeOf key x row]? = some z := by
      have hzero := congrArg (·[0]?) hdrop
      rw [List.getElem?_drop] at hzero
      exact hzero
    refine ⟨z, hat, le_antisymm ?_ ?_⟩
    · have hsuffix : Ascending key (z :: rest) := by
        rw [← hdrop]
        exact hrow.sublist (List.drop_sublist _ _)
      rw [hdrop] at hbehind
      rcases List.mem_cons.mp hbehind with rfl | hlater
      · exact le_of_eq hkey
      · have hlt := (List.pairwise_cons.mp hsuffix).1 y hlater
        rw [hkey] at hlt
        exact le_of_lt hlt
    · apply le_of_mem_drop_place hrow
      rw [hdrop]
      exact List.mem_cons_self

-- An item with a new key keeps the row ascending at its place.
theorem Ascending.insert (hrow : Ascending key row) (hnew : ∀ y ∈ row, key y ≠ key x) :
    Ascending key (row.take (placeOf key x row) ++ x :: row.drop (placeOf key x row)) := by
  have hbehind : ∀ y ∈ row.drop (placeOf key x row), key x < key y := by
    intro y hy
    exact lt_of_le_of_ne (le_of_mem_drop_place hrow hy) (hnew y (List.mem_of_mem_drop hy)).symm
  apply List.pairwise_append.mpr
  refine ⟨hrow.sublist (List.take_sublist _ _), ?_, ?_⟩
  · exact List.pairwise_cons.mpr ⟨hbehind, hrow.sublist (List.drop_sublist _ _)⟩
  · intro y hy z hz
    have hlt := lt_of_mem_take_place hy
    rcases List.mem_cons.mp hz with rfl | hz
    · exact hlt
    · exact lt_trans hlt (hbehind z hz)

end NetCore.Lib
