import Mathlib.Data.List.Basic
import Mathlib.Data.List.Find
import Mathlib.Data.List.Pairwise

/-!
# Registries

Items are made one after the other, each with a number above those before it.  An item has a key and may
be closed.  Who asks for a key is given an item of that key, and the registry notes which.

`Orderly` is what keeps the keys apart: an item that is followed by a newer one of its key is closed.
It survives as long as such an item is never opened again.
-/

namespace NetCore.Lib

structure Numbered (σ : Type*) where
  number : Nat
  item : σ

structure Registry (σ κ : Type*) where
  items : List (Numbered σ) := []
  /-- The keys asked for so far, each with the number of the item given. -/
  given : List (κ × Nat) := []

namespace Registry

variable {σ κ : Type*}

def map (f : Nat → σ → σ) (r : Registry σ κ) : Registry σ κ :=
  { r with items := r.items.map fun x => { x with item := f x.number x.item } }

def put (number : Nat) (item : σ) (r : Registry σ κ) : Registry σ κ :=
  r.map fun n old => if n = number then item else old

def add (number : Nat) (item : σ) (r : Registry σ κ) : Registry σ κ :=
  { r with items := r.items ++ [⟨number, item⟩] }

def filter (p : σ → Bool) (r : Registry σ κ) : Registry σ κ :=
  { r with items := r.items.filter fun x => p x.item }

def give (key : κ) (number : Nat) (r : Registry σ κ) : Registry σ κ :=
  { r with given := r.given ++ [(key, number)] }

variable (key : σ → κ) (closed : σ → Prop)

/-- `x` has a successor: a newer item of its key. -/
def Replaced (r : Registry σ κ) (x : Numbered σ) : Prop :=
  ∃ y ∈ r.items, x.number < y.number ∧ key y.item = key x.item

instance [DecidableEq κ] (r : Registry σ κ) (x : Numbered σ) : Decidable (r.Replaced key x) :=
  inferInstanceAs (Decidable (∃ y ∈ r.items, _ ∧ _))

-- `last` is the number of the item made last.
structure Orderly (last : Nat) (r : Registry σ κ) : Prop where
  numbered : r.items.Pairwise fun x y => x.number < y.number
  made : ∀ x ∈ r.items, x.number ≤ last
  replaced : ∀ x ∈ r.items, r.Replaced key x → closed x.item
  issued : ∀ g ∈ r.given, g.2 ≤ last
  /-- An item older than the one its key was last given to has a successor. -/
  passed : ∀ g ∈ r.given, ∀ x ∈ r.items, key x.item = g.1 → x.number < g.2 → r.Replaced key x
  onward : r.given.Pairwise fun g g' => g.1 = g'.1 → g.2 ≤ g'.2

variable {key closed} {last : Nat} {r : Registry σ κ}

namespace Orderly

theorem empty (last : Nat) : Orderly key closed last {} :=
  ⟨.nil, by simp, by simp, by simp, by simp, .nil⟩

theorem later {last' : Nat} (h : Orderly key closed last r) (hle : last ≤ last') :
    Orderly key closed last' r where
  numbered := h.numbered
  made x hx := Nat.le_trans (h.made x hx) hle
  replaced := h.replaced
  issued g hg := Nat.le_trans (h.issued g hg) hle
  passed := h.passed
  onward := h.onward

-- A number belongs to one item.
theorem unique (h : Orderly key closed last r) {x y : Numbered σ} (hx : x ∈ r.items)
    (hy : y ∈ r.items) (hnumber : x.number = y.number) : x = y := by
  by_contra hne
  have hdistinct : r.items.Pairwise fun x y => x.number ≠ y.number :=
    h.numbered.imp fun hlt => Nat.ne_of_lt hlt
  have : Std.Symm fun x y : Numbered σ => x.number ≠ y.number := ⟨fun _ _ hne => hne.symm⟩
  exact hdistinct.forall hx hy hne hnumber

-- Two items of a key, neither closed, are one.
theorem single (h : Orderly key closed last r) {x y : Numbered σ} (hx : x ∈ r.items)
    (hy : y ∈ r.items) (hkey : key x.item = key y.item) (hopen : ¬ closed x.item)
    (hopen' : ¬ closed y.item) : x = y := by
  rcases Nat.lt_trichotomy x.number y.number with hlt | heq | hlt
  · exact absurd (h.replaced x hx ⟨y, hy, hlt, hkey.symm⟩) hopen
  · exact h.unique hx hy heq
  · exact absurd (h.replaced y hy ⟨x, hx, hlt, hkey⟩) hopen'

theorem pairwise_open (h : Orderly key closed last r) :
    r.items.Pairwise fun x y => ¬ closed x.item → ¬ closed y.item → key x.item ≠ key y.item := by
  refine List.Pairwise.imp_of_mem ?_ h.numbered
  intro x y hx hy hlt hopen _ hkey
  exact hopen (h.replaced x hx ⟨y, hy, hlt, hkey.symm⟩)

-- A search that at most one item can answer does not depend on the order.
theorem find_perm (h : Orderly key closed last r) {p : Numbered σ → Bool} {k : κ}
    (hp : ∀ x, p x → ¬ closed x.item ∧ key x.item = k) {items : List (Numbered σ)}
    (hperm : items.Perm r.items) : items.find? p = r.items.find? p := by
  symm
  apply List.find?_eq_find?_of_perm hperm.symm
  rintro x ⟨hx, hpx⟩ y ⟨hy, hpy⟩
  obtain ⟨hopen, hkey⟩ := hp x hpx
  obtain ⟨hopen', hkey'⟩ := hp y hpy
  exact h.single hx hy (hkey.trans hkey'.symm) hopen hopen'

/-! ### What keeps a registry orderly -/

-- Items may change as they like, as long as they keep their keys and none with a successor is opened
-- again.
theorem map (h : Orderly key closed last r) {f : Nat → σ → σ}
    (hkey : ∀ x ∈ r.items, key (f x.number x.item) = key x.item)
    (hclosed : ∀ x ∈ r.items, r.Replaced key x → closed x.item → closed (f x.number x.item)) :
    Orderly key closed last (r.map f) := by
  have hreplaced {x : Numbered σ} (hx : x ∈ r.items) :
      (r.map f).Replaced key { x with item := f x.number x.item } ↔ r.Replaced key x := by
    constructor
    · rintro ⟨_, hchanged, hlt, hsame⟩
      obtain ⟨y, hy, rfl⟩ := List.mem_map.mp hchanged
      dsimp only at hsame
      rw [hkey y hy, hkey x hx] at hsame
      exact ⟨y, hy, hlt, hsame⟩
    · rintro ⟨y, hy, hlt, hsame⟩
      refine ⟨_, List.mem_map.mpr ⟨y, hy, rfl⟩, hlt, ?_⟩
      dsimp only
      rw [hkey y hy, hkey x hx]
      exact hsame
  refine ⟨?_, ?_, ?_, h.issued, ?_, h.onward⟩
  · exact List.pairwise_map.mpr h.numbered
  · intro _ hchanged
    obtain ⟨x, hx, rfl⟩ := List.mem_map.mp hchanged
    exact h.made x hx
  · intro _ hchanged hsucceeded
    obtain ⟨x, hx, rfl⟩ := List.mem_map.mp hchanged
    have hold := (hreplaced hx).mp hsucceeded
    exact hclosed x hx hold (h.replaced x hx hold)
  · intro g hg _ hchanged hsame hlt
    obtain ⟨x, hx, rfl⟩ := List.mem_map.mp hchanged
    dsimp only at hsame
    rw [hkey x hx] at hsame
    exact (hreplaced hx).mpr (h.passed g hg x hx hsame hlt)

-- One item changes: it keeps its key, and with a successor it stays closed.
theorem put (h : Orderly key closed last r) {x : Numbered σ} {item : σ} (hx : x ∈ r.items)
    (hkey : key item = key x.item) (hclosed : r.Replaced key x → closed x.item → closed item) :
    Orderly key closed last (r.put x.number item) := by
  apply h.map
  · intro y hy
    split
    next hnumber =>
      rw [h.unique hy hx hnumber]
      exact hkey
    next => rfl
  · intro y hy hreplaced hold
    split
    next hnumber =>
      rw [h.unique hy hx hnumber] at hreplaced hold
      exact hclosed hreplaced hold
    next => exact hold

-- Closed items are dropped, and with them every item that has a successor.
theorem filter (h : Orderly key closed last r) {p : σ → Bool} (hp : ∀ s, p s → ¬ closed s) :
    Orderly key closed last (r.filter p) := by
  have hkept {x : Numbered σ} (hx : x ∈ (r.filter p).items) : x ∈ r.items ∧ ¬ closed x.item := by
    obtain ⟨hx, hpx⟩ := List.mem_filter.mp hx
    exact ⟨hx, hp x.item hpx⟩
  refine ⟨h.numbered.filter _, ?_, ?_, h.issued, ?_, h.onward⟩
  · intro x hx
    exact h.made x (hkept hx).1
  · rintro x hx ⟨y, hy, hlt, hsame⟩
    exact h.replaced x (hkept hx).1 ⟨y, (hkept hy).1, hlt, hsame⟩
  · intro g hg x hx hsame hlt
    have hpassed := h.passed g hg x (hkept hx).1 hsame hlt
    exact absurd (h.replaced x (hkept hx).1 hpassed) (hkept hx).2

-- The key is given an item that nothing replaces.
theorem give (h : Orderly key closed last r) {x : Numbered σ} (hx : x ∈ r.items)
    (hnewest : ¬ r.Replaced key x) : Orderly key closed last (r.give (key x.item) x.number) := by
  refine ⟨h.numbered, h.made, h.replaced, ?_, ?_, ?_⟩
  · intro g hg
    rcases List.mem_append.mp hg with hg | hg
    · exact h.issued g hg
    · rw [List.mem_singleton.mp hg]
      exact h.made x hx
  · intro g hg y hy hsame hlt
    rcases List.mem_append.mp hg with hg | hg
    · exact h.passed g hg y hy hsame hlt
    · rw [List.mem_singleton.mp hg] at hsame hlt
      exact ⟨x, hx, hlt, hsame.symm⟩
  · refine List.pairwise_append.mpr ⟨h.onward, List.pairwise_singleton _ _, ?_⟩
    intro g hg g' hg' hsame
    rw [List.mem_singleton.mp hg'] at hsame ⊢
    -- had the key been given to a newer item, `x` would have a successor
    by_contra hlt
    exact hnewest (h.passed g hg x hx hsame.symm (Nat.lt_of_not_le hlt))

-- A new item comes behind the others, which are closed if they have its key.
theorem add (h : Orderly key closed last r) {number : Nat} {item : σ} (hnew : last < number)
    (hclosed : ∀ x ∈ r.items, key x.item = key item → closed x.item) :
    Orderly key closed number (r.add number item) := by
  have hmem {x : Numbered σ} (hx : x ∈ (r.add number item).items) :
      x ∈ r.items ∨ x = ⟨number, item⟩ := by
    rcases List.mem_append.mp hx with hx | hx
    · exact .inl hx
    · exact .inr (List.mem_singleton.mp hx)
  have hlt {x : Numbered σ} (hx : x ∈ r.items) : x.number < number :=
    Nat.lt_of_le_of_lt (h.made x hx) hnew
  refine ⟨?_, ?_, ?_, ?_, ?_, h.onward⟩
  · refine List.pairwise_append.mpr ⟨h.numbered, List.pairwise_singleton _ _, ?_⟩
    intro x hx y hy
    rw [List.mem_singleton.mp hy]
    exact hlt hx
  · intro x hx
    rcases hmem hx with hx | rfl
    · exact Nat.le_of_lt (hlt hx)
    · exact Nat.le_refl number
  · rintro x hx ⟨y, hy, hyounger, hsame⟩
    rcases hmem hx with hx | rfl
    · rcases hmem hy with hy | rfl
      · exact h.replaced x hx ⟨y, hy, hyounger, hsame⟩
      · exact hclosed x hx hsame.symm
    · -- nothing is newer than the new item
      rcases hmem hy with hy | rfl
      · exact absurd (hlt hy) (Nat.lt_asymm hyounger)
      · exact absurd hyounger (Nat.lt_irrefl _)
  · intro g hg
    exact Nat.le_of_lt (Nat.lt_of_le_of_lt (h.issued g hg) hnew)
  · intro g hg x hx hsame hyounger
    rcases hmem hx with hx | rfl
    · obtain ⟨y, hy, hlt, hkey⟩ := h.passed g hg x hx hsame hyounger
      exact ⟨y, List.mem_append_left _ hy, hlt, hkey⟩
    · exact absurd (Nat.lt_trans hyounger (Nat.lt_of_le_of_lt (h.issued g hg) hnew))
        (Nat.lt_irrefl _)

end Orderly

end Registry

end NetCore.Lib
