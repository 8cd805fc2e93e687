import Mathlib.Data.List.Infix

/-!
# Pieces of a stream, put together

A receiver gets pieces of a stream, each with the place it starts at, in any order, some of them
again and some of them never.  As long as it puts every item where its piece has it, what it has put
together from the start on is what the stream starts with.
-/

namespace NetCore.Lib

variable {α β : Type*}

-- The piece is what the stream has at its place.
def Slice (stream : List α) (piece : Nat × List α) : Prop := piece.2 <+: stream.drop piece.1

/-- Every item of `out`, counted from `start` on, has come in a piece at its place. -/
def Assembled (start : Nat) (pieces : List (Nat × List α)) (out : List α) : Prop :=
  ∀ i (h : i < out.length), ∃ piece ∈ pieces,
    piece.1 ≤ start + i ∧ piece.2[start + i - piece.1]? = some out[i]

instance [DecidableEq α] (start : Nat) (pieces : List (Nat × List α)) (out : List α) :
    Decidable (Assembled start pieces out) :=
  inferInstanceAs (Decidable (∀ i (h : i < out.length), ∃ piece ∈ pieces,
    piece.1 ≤ start + i ∧ piece.2[start + i - piece.1]? = some out[i]))

theorem slice_nil (stream : List α) (pos : Nat) : Slice stream (pos, []) := List.nil_prefix

-- A longer stream has the same pieces.
theorem Slice.append {stream : List α} {piece : Nat × List α} (h : Slice stream piece)
    (more : List α) : Slice (stream ++ more) piece := by
  unfold Slice at h ⊢
  rw [List.drop_append]
  exact h.trans (List.prefix_append _ _)

-- What is added to a stream is a piece at its end.
theorem slice_snoc (stream more : List α) : Slice (stream ++ more) (stream.length, more) := by
  show more <+: (stream ++ more).drop stream.length
  rw [List.drop_left]

theorem Slice.getElem? {stream : List α} {piece : Nat × List α} (h : Slice stream piece) {i : Nat}
    {x : α} (hpos : piece.1 ≤ i) (hx : piece.2[i - piece.1]? = some x) : stream[i]? = some x := by
  obtain ⟨hlt, rfl⟩ := List.getElem?_eq_some_iff.mp hx
  have hin := List.prefix_iff_getElem?.mp h _ hlt
  rw [List.getElem?_drop, Nat.add_sub_cancel' hpos] at hin
  exact hin

theorem Assembled.map {start : Nat} {pieces : List (Nat × List α)} {out : List α}
    (h : Assembled start pieces out) (f : α → β) :
    Assembled start (pieces.map fun piece => (piece.1, piece.2.map f)) (out.map f) := by
  intro i hi
  rw [List.length_map] at hi
  obtain ⟨piece, hpiece, hpos, hx⟩ := h i hi
  refine ⟨_, List.mem_map_of_mem hpiece, hpos, ?_⟩
  rw [List.getElem?_map, hx, List.getElem_map]
  rfl

-- Whatever has come and in which order: the receiver has what the stream starts with.
theorem Assembled.isPrefix {stream : List α} {start : Nat} {pieces : List (Nat × List α)}
    {out : List α} (hpieces : ∀ piece ∈ pieces, Slice stream piece)
    (h : Assembled start pieces out) : out <+: stream.drop start := by
  rw [List.prefix_iff_getElem?]
  intro i hi
  obtain ⟨piece, hpiece, hpos, hx⟩ := h i hi
  rw [List.getElem?_drop]
  exact (hpieces piece hpiece).getElem? hpos hx

end NetCore.Lib
