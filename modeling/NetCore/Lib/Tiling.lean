import Mathlib.Algebra.Group.Basic

/-!
# Pieces laid end to end

Each piece of a list has a position and a length.  `Tiles pos len a xs b` says that the pieces start
at `a`, that each one starts where the one before it ends, and that the last one ends at `b`.  The
positions may be numbers or residues: the definition only adds.
-/

namespace NetCore.Lib

variable {α M : Type*}

section Add

variable [Add M] {pos len : α → M}

/-- The pieces `xs` cover the stretch from `a` to `b`, each starting where its predecessor ends. -/
def Tiles (pos len : α → M) : M → List α → M → Prop
  | a, [], b => a = b
  | a, x :: xs, b => pos x = a ∧ Tiles pos len (a + len x) xs b

@[simp] theorem tiles_nil {a b : M} : Tiles pos len a [] b ↔ a = b := Iff.rfl

@[simp] theorem tiles_cons {a b : M} {x : α} {xs : List α} :
    Tiles pos len a (x :: xs) b ↔ pos x = a ∧ Tiles pos len (a + len x) xs b := Iff.rfl

theorem tiles_append {a b : M} {xs ys : List α} :
    Tiles pos len a (xs ++ ys) b ↔ ∃ c, Tiles pos len a xs c ∧ Tiles pos len c ys b := by
  induction xs generalizing a with
  | nil => simp
  | cons x xs ih => simp [ih, and_assoc]

theorem Tiles.append {a b c : M} {xs ys : List α} (hx : Tiles pos len a xs c)
    (hy : Tiles pos len c ys b) : Tiles pos len a (xs ++ ys) b :=
  tiles_append.mpr ⟨c, hx, hy⟩

-- Laying one more piece at the end.
theorem Tiles.snoc {a b : M} {xs : List α} {x : α} (h : Tiles pos len a xs b) (hx : pos x = b) :
    Tiles pos len a (xs ++ [x]) (b + len x) :=
  h.append ⟨hx, rfl⟩

-- Only positions and lengths matter.
theorem Tiles.congr {a b : M} {xs ys : List α} (h : Tiles pos len a xs b)
    (hpos : ys.map pos = xs.map pos) (hlen : ys.map len = xs.map len) : Tiles pos len a ys b := by
  induction xs generalizing a ys with
  | nil =>
    rw [List.map_nil, List.map_eq_nil_iff] at hpos
    rw [hpos]
    exact h
  | cons x xs ih =>
    cases ys with
    | nil => simp at hpos
    | cons y ys =>
      rw [List.map_cons, List.map_cons, List.cons.injEq] at hpos hlen
      refine ⟨hpos.1.trans h.1, ?_⟩
      rw [hlen.1]
      exact ih h.2 hpos.2 hlen.2

-- What is left when pieces are taken off the front still ends at the same place.
theorem Tiles.dropWhile {a b : M} {xs : List α} (h : Tiles pos len a xs b) (p : α → Bool) :
    ∃ c, Tiles pos len c (xs.dropWhile p) b := by
  rw [← List.takeWhile_append_dropWhile (p := p) (l := xs)] at h
  obtain ⟨c, -, hrest⟩ := tiles_append.mp h
  exact ⟨c, hrest⟩

end Add

-- Pieces without length can be left out.
theorem Tiles.filter [AddMonoid M] {pos len : α → M} {a b : M} {xs : List α}
    (h : Tiles pos len a xs b) (p : α → Bool) (hp : ∀ x ∈ xs, p x = false → len x = 0) :
    Tiles pos len a (xs.filter p) b := by
  induction xs generalizing a with
  | nil => exact h
  | cons x xs ih =>
    have hrest := ih h.2 fun y hy => hp y (List.mem_cons_of_mem x hy)
    rw [List.filter_cons]
    split
    next => exact ⟨h.1, hrest⟩
    next hx =>
      rw [hp x List.mem_cons_self (Bool.eq_false_iff.mpr hx), add_zero] at hrest
      exact hrest

end NetCore.Lib
