import Mathlib.Logic.Function.Basic

/-!
# A heap of objects

Every allocation gets a number of its own, and a number that was freed is not used again.  So an
access to an object that is gone is seen: it changes nothing and is recorded.
-/

namespace NetCore.Lib

structure Heap (α : Type*) where
  cells : Nat → Option α
  /-- The number of the next allocation. -/
  next : Nat
  /-- The objects touched after they were freed, a second free included. -/
  faults : List Nat
  fresh : ∀ p, next ≤ p → cells p = none

namespace Heap

variable {α : Type*} {h : Heap α} {p q : Nat} {x : α}

def empty : Heap α := ⟨fun _ => none, 0, [], fun _ _ => rfl⟩

def Live (h : Heap α) (p : Nat) : Prop := (h.cells p).isSome

instance (h : Heap α) (p : Nat) : Decidable (h.Live p) := inferInstanceAs (Decidable (_ = true))

theorem live_of_cell (hp : h.cells p = some x) : h.Live p := by
  unfold Live
  rw [hp]
  rfl

theorem Live.cell (hp : h.Live p) : ∃ x, h.cells p = some x := Option.isSome_iff_exists.mp hp

theorem Live.lt (hp : h.Live p) : p < h.next := by
  apply Nat.lt_of_not_le
  intro hle
  unfold Live at hp
  rw [h.fresh p hle] at hp
  exact absurd hp (by simp)

theorem not_live_next : ¬ h.Live h.next := fun hlive => Nat.lt_irrefl _ hlive.lt

def fault (p : Nat) (h : Heap α) : Heap α := { h with faults := h.faults ++ [p] }

/-- The new object is `h.next`. -/
def alloc (x : α) (h : Heap α) : Heap α where
  cells := Function.update h.cells h.next (some x)
  next := h.next + 1
  faults := h.faults
  fresh p hp := by
    rw [Function.update_of_ne (by omega)]
    exact h.fresh p (by omega)

def put (p : Nat) (cell : Option α) (h : Heap α) (hp : p < h.next) : Heap α where
  cells := Function.update h.cells p cell
  next := h.next
  faults := h.faults
  fresh q hq := by
    rw [Function.update_of_ne (by omega)]
    exact h.fresh q hq

def modify (p : Nat) (f : α → α) (h : Heap α) : Heap α :=
  if hp : h.Live p then h.put p ((h.cells p).map f) hp.lt else h.fault p

def free (p : Nat) (h : Heap α) : Heap α :=
  if hp : h.Live p then h.put p none hp.lt else h.fault p

/-! ## What each operation leaves -/

@[simp] theorem alloc_self : (h.alloc x).cells h.next = some x := Function.update_self ..

theorem alloc_of_ne (hne : p ≠ h.next) : (h.alloc x).cells p = h.cells p :=
  Function.update_of_ne hne ..

theorem alloc_of_live (hp : h.Live p) : (h.alloc x).cells p = h.cells p :=
  alloc_of_ne (Nat.ne_of_lt hp.lt)

@[simp] theorem next_alloc : (h.alloc x).next = h.next + 1 := rfl

theorem modify_self {f : α → α} (hp : h.cells p = some x) : (h.modify p f).cells p = some (f x) := by
  unfold modify
  rw [dif_pos (live_of_cell hp)]
  show Function.update h.cells p _ p = _
  rw [Function.update_self, hp]
  rfl

theorem modify_of_ne {f : α → α} (hne : q ≠ p) : (h.modify p f).cells q = h.cells q := by
  unfold modify
  split
  · exact Function.update_of_ne hne ..
  · rfl

theorem faults_modify {f : α → α} (hp : h.Live p) : (h.modify p f).faults = h.faults := by
  unfold modify
  rw [dif_pos hp]
  rfl

@[simp] theorem next_modify {f : α → α} : (h.modify p f).next = h.next := by
  unfold modify
  split <;> rfl

theorem live_modify {f : α → α} : (h.modify p f).Live q ↔ h.Live q := by
  by_cases hp : h.Live p
  · by_cases hq : q = p
    · obtain ⟨x, hcell⟩ := hp.cell
      rw [hq]
      exact iff_of_true (live_of_cell (modify_self hcell)) hp
    · unfold Live
      rw [modify_of_ne hq]
  · unfold modify
    rw [dif_neg hp]
    rfl

theorem modify_modify {f g : α → α} (hp : h.cells p = some x) :
    (h.modify p f).modify p g = h.modify p fun x => g (f x) := by
  have hself : (h.modify p f).cells p = some (f x) := modify_self hp
  have hlive : (h.modify p f).Live p := live_of_cell hself
  have hcells : ((h.modify p f).modify p g).cells = (h.modify p fun x => g (f x)).cells := by
    funext q
    by_cases hq : q = p
    · rw [hq, modify_self hself, modify_self hp]
    · rw [modify_of_ne hq, modify_of_ne hq, modify_of_ne hq]
  have hnext : ((h.modify p f).modify p g).next = (h.modify p fun x => g (f x)).next := by
    rw [next_modify, next_modify, next_modify]
  have hfaults : ((h.modify p f).modify p g).faults = (h.modify p fun x => g (f x)).faults := by
    rw [faults_modify hlive, faults_modify (live_of_cell hp), faults_modify (live_of_cell hp)]
  cases hl : (h.modify p f).modify p g
  cases hr : h.modify p fun x => g (f x)
  rw [hl, hr] at hcells hnext hfaults
  simp only at hcells hnext hfaults
  subst hcells hnext hfaults
  rfl

theorem free_self (hp : h.Live p) : (h.free p).cells p = none := by
  unfold free
  rw [dif_pos hp]
  exact Function.update_self ..

theorem free_of_ne (hne : q ≠ p) : (h.free p).cells q = h.cells q := by
  unfold free
  split
  · exact Function.update_of_ne hne ..
  · rfl

theorem faults_free (hp : h.Live p) : (h.free p).faults = h.faults := by
  unfold free
  rw [dif_pos hp]
  rfl

@[simp] theorem next_free : (h.free p).next = h.next := by
  unfold free
  split <;> rfl

-- Deleting objects that are there, none of them twice.
theorem foldl_free {ps : List Nat} (hnodup : ps.Nodup) (hlive : ∀ p ∈ ps, h.Live p) :
    (ps.foldl (fun h p => h.free p) h).faults = h.faults ∧
      (ps.foldl (fun h p => h.free p) h).next = h.next ∧
      (∀ p ∈ ps, (ps.foldl (fun h p => h.free p) h).cells p = none) ∧
      ∀ p ∉ ps, (ps.foldl (fun h p => h.free p) h).cells p = h.cells p := by
  induction ps generalizing h with
  | nil => exact ⟨rfl, rfl, fun _ hp => (List.not_mem_nil hp).elim, fun _ _ => rfl⟩
  | cons q ps ih =>
    obtain ⟨hq, hnodup⟩ := List.nodup_cons.mp hnodup
    obtain ⟨hlive_q, hlive⟩ := List.forall_mem_cons.mp hlive
    have hlive' (p : Nat) (hp : p ∈ ps) : (h.free q).Live p := by
      have hne : p ≠ q := fun heq => hq (heq ▸ hp)
      unfold Live
      rw [free_of_ne hne]
      exact hlive p hp
    obtain ⟨hfaults, hnext, hgone, hkept⟩ := ih hnodup hlive'
    refine ⟨hfaults.trans (faults_free hlive_q), hnext.trans next_free, fun p hp => ?_,
      fun p hp => ?_⟩
    · rcases List.mem_cons.mp hp with rfl | hp
      · exact (hkept p hq).trans (free_self hlive_q)
      · exact hgone p hp
    · obtain ⟨hne, hp⟩ := List.ne_and_not_mem_of_not_mem_cons hp
      exact (hkept p hp).trans (free_of_ne hne)

end Heap

end NetCore.Lib
