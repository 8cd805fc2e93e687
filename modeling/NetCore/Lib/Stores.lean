import Mathlib.Data.List.Basic

/-!
# Stores into a buffer

A run of stores leaves at every index what was stored there last, and elsewhere what the buffer held.
So a value is in the buffer whatever it held before exactly if some last store puts it there.
-/

namespace NetCore.Lib

variable {β : Type*}

/-- The buffer after the stores, each of a value at an index. -/
def store (buffer : List β) (stores : List (β × Nat)) : List β :=
  stores.foldl (fun buffer s => buffer.set s.2 s.1) buffer

def lastStore : List (β × Nat) → Nat → Option β
  | [], _ => none
  | s :: rest, i => (lastStore rest i).or (if s.2 = i then some s.1 else none)

@[simp] theorem lastStore_nil (i : Nat) : lastStore ([] : List (β × Nat)) i = none := rfl

theorem lastStore_append (before after : List (β × Nat)) (i : Nat) :
    lastStore (before ++ after) i = (lastStore after i).or (lastStore before i) := by
  induction before with
  | nil => exact (Option.or_none).symm
  | cons s before ih => rw [List.cons_append, lastStore, lastStore, ih, Option.or_assoc]

theorem lastStore_snoc (before : List (β × Nat)) (b : β) (i : Nat) :
    lastStore (before ++ [(b, i)]) i = some b := by
  rw [lastStore_append, lastStore, lastStore_nil, if_pos rfl]
  rfl

theorem mem_of_lastStore {stores : List (β × Nat)} {i : Nat} {b : β}
    (h : lastStore stores i = some b) : (b, i) ∈ stores := by
  induction stores with
  | nil => cases h
  | cons s rest ih =>
    rw [lastStore, Option.or_eq_some_iff] at h
    rcases h with hrest | ⟨-, hfirst⟩
    · exact List.mem_cons_of_mem s (ih hrest)
    · split at hfirst
      next hindex =>
        cases hfirst
        rw [← hindex]
        exact List.mem_cons_self
      next => cases hfirst

theorem lastStore_isSome {stores : List (β × Nat)} {b : β} {i : Nat} (h : (b, i) ∈ stores) :
    ∃ b', lastStore stores i = some b' := by
  induction stores with
  | nil => cases h
  | cons s rest ih =>
    rw [lastStore]
    rcases List.mem_cons.mp h with hfirst | hrest
    · cases lastStore rest i with
      | some b' => exact ⟨b', rfl⟩
      | none =>
        rw [← hfirst, if_pos rfl]
        exact ⟨b, rfl⟩
    · obtain ⟨b', hlast⟩ := ih hrest
      rw [hlast]
      exact ⟨b', rfl⟩

@[simp] theorem length_store (buffer : List β) (stores : List (β × Nat)) :
    (store buffer stores).length = buffer.length := by
  induction stores generalizing buffer with
  | nil => rfl
  | cons s rest ih =>
    show (store (buffer.set s.2 s.1) rest).length = buffer.length
    rw [ih, List.length_set]

theorem store_append (buffer : List β) (before after : List (β × Nat)) :
    store buffer (before ++ after) = store (store buffer before) after :=
  List.foldl_append

-- Stores of a row at consecutive indices put the row there.
theorem store_zipIdx {buffer row : List β} {n : Nat} (h : n + row.length ≤ buffer.length) :
    store buffer (row.zipIdx n) = buffer.take n ++ row ++ buffer.drop (n + row.length) := by
  induction row generalizing n buffer with
  | nil =>
    rw [List.append_nil, List.length_nil, Nat.add_zero, List.take_append_drop]
    rfl
  | cons b row ih =>
    rw [List.length_cons] at h ⊢
    have hlt : n < buffer.length := by omega
    have hprefix : (buffer.take n ++ [b]).length = n + 1 := by
      rw [List.length_append, List.length_take, List.length_singleton]
      omega
    have hset : buffer.set n b = (buffer.take n ++ [b]) ++ buffer.drop (n + 1) := by
      rw [List.set_eq_take_append_cons_drop, if_pos hlt, List.append_assoc]
      rfl
    have hroom : n + 1 + row.length ≤ (buffer.set n b).length := by
      rw [List.length_set]
      omega
    have hbehind : (buffer.set n b).drop (n + 1 + row.length) = buffer.drop (n + (row.length + 1)) := by
      rw [List.drop_set_of_lt (by omega)]
      congr 1
      omega
    show store (buffer.set n b) (row.zipIdx (n + 1)) = _
    rw [ih hroom, hbehind, hset, List.take_left' hprefix, List.append_assoc _ [b]]
    rfl

-- What the buffer holds at an index of it.
theorem getElem?_store {buffer : List β} {i : Nat} (h : i < buffer.length)
    (stores : List (β × Nat)) :
    (store buffer stores)[i]? = (lastStore stores i).or buffer[i]? := by
  induction stores generalizing buffer with
  | nil => rfl
  | cons s rest ih =>
    show (store (buffer.set s.2 s.1) rest)[i]? = _
    rw [ih (by rw [List.length_set]; exact h), lastStore, Option.or_assoc]
    congr 1
    split
    next hindex => rw [hindex, List.getElem?_set_self h, Option.some_or]
    next hindex => rw [List.getElem?_set_ne hindex, Option.none_or]

-- In a buffer that may hold anything a value is sure to stand only where it was stored last.
theorem forall_store_iff {n : Nat} {b filler : β} (hne : filler ≠ b) (stores : List (β × Nat)) :
    (∀ buffer : List β, buffer.length = n → ∃ i : Nat, (store buffer stores)[i]? = some b) ↔
      ∃ i < n, lastStore stores i = some b := by
  constructor
  · intro h
    obtain ⟨i, hi⟩ := h (List.replicate n filler) List.length_replicate
    have hlt : i < n := by
      have hlt := (List.getElem?_eq_some_iff.mp hi).1
      rw [length_store, List.length_replicate] at hlt
      exact hlt
    refine ⟨i, hlt, ?_⟩
    rw [getElem?_store (by rw [List.length_replicate]; exact hlt), Option.or_eq_some_iff] at hi
    refine hi.resolve_right fun hfiller => ?_
    have heq := hfiller.2
    rw [List.getElem?_replicate_of_lt hlt] at heq
    exact hne (Option.some.inj heq)
  · rintro ⟨i, hlt, hlast⟩ buffer hlength
    refine ⟨i, ?_⟩
    rw [getElem?_store (by rw [hlength]; exact hlt), hlast]
    rfl

end NetCore.Lib
