import Mathlib.Data.List.Basic

/-!
# A bounded queue with used room

Items are appended behind and dropped in front, as long as there is room.  The room of what has been
dropped is not free before the queue is compacted.
-/

namespace NetCore.Lib

structure Fifo (α : Type*) where
  capacity : Nat
  items : List α
  /-- The room behind the items. -/
  free : Nat
  fits : items.length + free ≤ capacity

namespace Fifo

variable {α : Type*}

def empty (capacity : Nat) : Fifo α where
  capacity := capacity
  items := []
  free := capacity
  fits := Nat.le_of_eq (Nat.zero_add capacity)

/-- How many of the items there is room for. -/
def pushed (f : Fifo α) (xs : List α) : Nat := min xs.length f.free

/-- Append the first items, as many as there is room for. -/
def push (f : Fifo α) (xs : List α) : Fifo α where
  capacity := f.capacity
  items := f.items ++ xs.take (f.pushed xs)
  free := f.free - f.pushed xs
  fits := by
    have hfits := f.fits
    have hle : f.pushed xs ≤ f.free := Nat.min_le_right _ _
    rw [List.length_append, List.length_take]
    omega

/-- Drop so many items, or none if there are fewer. -/
def drop (f : Fifo α) (n : Nat) : Fifo α where
  capacity := f.capacity
  items := if n ≤ f.items.length then f.items.drop n else f.items
  free := f.free
  fits := by
    have hfits := f.fits
    split
    · rw [List.length_drop]
      omega
    · exact hfits

/-- Free the room of what has been dropped. -/
def compact (f : Fifo α) : Fifo α where
  capacity := f.capacity
  items := f.items
  free := f.capacity - f.items.length
  fits := by
    have hfits := f.fits
    omega

def clear (f : Fifo α) : Fifo α := empty f.capacity

theorem drop_of_le {f : Fifo α} {n : Nat} (h : n ≤ f.items.length) :
    (f.drop n).items = f.items.drop n := if_pos h

theorem drop_of_lt {f : Fifo α} {n : Nat} (h : f.items.length < n) : (f.drop n).items = f.items :=
  if_neg (Nat.not_le_of_lt h)

end Fifo

end NetCore.Lib
