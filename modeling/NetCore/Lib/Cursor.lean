import Mathlib.Data.List.Basic

/-!
# A list that is walked while it changes

The place in a list is held by the key of its cell, as an iterator does, so cells may be added behind
and taken out elsewhere in between.
-/

namespace NetCore.Lib

variable {α κ : Type*} [DecidableEq κ] {key : α → κ} {k : κ} {l rest : List α} {x y : α}

def onward (key : α → κ) (k : κ) : List α → List α
  | [] => []
  | x :: l => if key x = k then x :: l else onward key k l

theorem onward_cons_self (x : α) (l : List α) : onward key (key x) (x :: l) = x :: l := if_pos rfl

-- There is something from a cell on exactly if the cell is there.
theorem mem_keys_iff : k ∈ l.map key ↔ ∃ x rest, key x = k ∧ onward key k l = x :: rest := by
  induction l with
  | nil => simp [onward]
  | cons y l ih =>
    by_cases hy : key y = k
    · rw [onward, if_pos hy]
      exact iff_of_true (by simp [hy]) ⟨y, l, hy, rfl⟩
    · rw [onward, if_neg hy, List.map_cons, List.mem_cons, ← ih]
      exact or_iff_right fun heq => hy heq.symm

theorem onward_append (h : k ∈ l.map key) (m : List α) :
    onward key k (l ++ m) = onward key k l ++ m := by
  induction l with
  | nil => cases h
  | cons y l ih =>
    rw [List.cons_append, onward, onward]
    split
    · rfl
    next hy => exact ih ((List.mem_cons.mp h).resolve_left fun heq => hy heq.symm)

-- A cell elsewhere is taken out: what is to come stays to come.
theorem mem_onward_eraseP {p : α → Bool} (hx : p x = false)
    (hcell : ∀ y ∈ l, key y = k → p y = false) :
    x ∈ onward key k (l.eraseP p) ↔ x ∈ onward key k l := by
  induction l with
  | nil => rfl
  | cons y l ih =>
    obtain ⟨hy, hrest⟩ := List.forall_mem_cons.mp hcell
    by_cases hkey : key y = k
    · have hout : ¬ p y = true := by rw [hy hkey]; exact Bool.false_ne_true
      have hout' : ¬ p x = true := by rw [hx]; exact Bool.false_ne_true
      rw [List.eraseP_cons_of_neg hout, onward, onward, if_pos hkey, if_pos hkey, List.mem_cons,
        List.mem_cons, List.mem_eraseP_of_neg hout']
    · rw [show onward key k (y :: l) = onward key k l from if_neg hkey]
      by_cases hp : p y = true
      · rw [List.eraseP_cons_of_pos hp]
      · rw [List.eraseP_cons_of_neg hp, onward, if_neg hkey]
        exact ih hrest

theorem onward_sublist (k : κ) (l : List α) : (onward key k l).Sublist l := by
  induction l with
  | nil => exact .slnil
  | cons y l ih =>
    rw [onward]
    split
    · exact .refl _
    · exact ih.cons y

-- From the next cell on there is what was behind.
theorem onward_next (hnodup : (l.map key).Nodup) (h : onward key k l = x :: y :: rest) :
    onward key (key y) l = y :: rest := by
  induction l with
  | nil => cases h
  | cons z l ih =>
    obtain ⟨hz, hnodup'⟩ := List.nodup_cons.mp hnodup
    have hmem : y ∈ l := by
      rw [onward] at h
      split at h
      · cases h
        exact List.mem_cons_self
      · have hsublist : (onward key k l).Sublist l := onward_sublist k l
        rw [h] at hsublist
        exact hsublist.mem (List.mem_cons_of_mem x List.mem_cons_self)
    have hne : ¬ key z = key y := fun heq => hz (heq ▸ List.mem_map_of_mem hmem)
    rw [onward, if_neg hne]
    rw [onward] at h
    split at h
    · cases h
      exact onward_cons_self y rest
    · exact ih hnodup' h

end NetCore.Lib
