import Mathlib.Data.List.Basic

/-!
# Streams of self-delimiting frames

A parser `next` takes one frame off the front of a stream.  When it never looks behind the frame it
takes and takes one item at least, a stream is cut into the same frames whatever follows it, and
however it arrives: reading on from what was left gives what reading everything at once gives.
-/

namespace NetCore.Lib

variable {α β : Type*} {next : List α → Option (β × List α)}

-- `next` cuts self-delimiting frames.
structure Framing (next : List α → Option (β × List α)) : Prop where
  extend {x y rest : List α} {b : β} : next x = some (b, rest) → next (x ++ y) = some (b, rest ++ y)
  progress {x rest : List α} {b : β} : next x = some (b, rest) → rest.length < x.length

def IsFrame (next : List α → Option (β × List α)) (b : β) (x : List α) : Prop :=
  next x = some (b, [])

/-- Take frames off the front as long as there is one, at most `fuel` of them. -/
def framesLoop (next : List α → Option (β × List α)) : Nat → List α → List β × List α
  | 0, x => ([], x)
  | fuel + 1, x =>
      match next x with
      | none => ([], x)
      | some (b, rest) => (b :: (framesLoop next fuel rest).1, (framesLoop next fuel rest).2)

def frames (next : List α → Option (β × List α)) (x : List α) : List β × List α :=
  framesLoop next x.length x

namespace Framing

variable (h : Framing next)

include h

-- Every frame takes an item, so the length is fuel enough.
theorem framesLoop_fuel {fuel fuel' : Nat} {x : List α} (hfuel : x.length ≤ fuel)
    (hfuel' : x.length ≤ fuel') : framesLoop next fuel x = framesLoop next fuel' x := by
  have hnone : next [] = none := by
    cases hnext : next [] with
    | none => rfl
    | some r => exact absurd (h.progress hnext) (Nat.not_lt_zero _)
  induction fuel generalizing fuel' x with
  | zero =>
    rw [List.length_eq_zero_iff.mp (Nat.le_zero.mp hfuel)]
    cases fuel' <;> simp [framesLoop, hnone]
  | succ fuel ih =>
    cases fuel' with
    | zero =>
      rw [List.length_eq_zero_iff.mp (Nat.le_zero.mp hfuel')]
      simp [framesLoop, hnone]
    | succ fuel' =>
      unfold framesLoop
      split
      · rfl
      next b rest hnext =>
        have hlt := h.progress hnext
        have hrest : framesLoop next fuel rest = framesLoop next fuel' rest :=
          ih (by omega) (by omega)
        rw [hrest]

omit h in
theorem frames_none {x : List α} (hnext : next x = none) : frames next x = ([], x) := by
  unfold frames
  cases x.length <;> simp [framesLoop, hnext]

theorem frames_some {x rest : List α} {b : β} (hnext : next x = some (b, rest)) :
    frames next x = (b :: (frames next rest).1, (frames next rest).2) := by
  have hlt := h.progress hnext
  obtain ⟨n, hn⟩ := Nat.exists_eq_succ_of_ne_zero (Nat.ne_of_gt (Nat.zero_lt_of_lt hlt))
  unfold frames
  rw [hn, framesLoop, hnext]
  simp only
  rw [h.framesLoop_fuel (show rest.length ≤ n by omega) (Nat.le_refl rest.length)]

-- Induction along the frames of a stream.
theorem induction {motive : List α → Prop} (none : ∀ x, next x = none → motive x)
    (some : ∀ x b rest, next x = some (b, rest) → motive rest → motive x) (x : List α) :
    motive x := by
  obtain ⟨n, hn⟩ : ∃ n, x.length ≤ n := ⟨_, Nat.le_refl _⟩
  induction n generalizing x with
  | zero =>
    refine none x ?_
    cases hnext : next x with
    | none => rfl
    | some r => exact absurd (h.progress hnext) (by omega)
  | succ n ih =>
    cases hnext : next x with
    | none => exact none x hnext
    | some r =>
      have hlt := h.progress hnext
      exact some x r.1 r.2 hnext (ih r.2 (by omega))

-- Each frame has taken an item.
theorem length_frames (x : List α) :
    (frames next x).1.length + (frames next x).2.length ≤ x.length := by
  induction x using h.induction with
  | none x hnext =>
    rw [frames_none hnext]
    simp
  | some x b rest hnext ih =>
    have hlt := h.progress hnext
    rw [h.frames_some hnext]
    simp only [List.length_cons]
    omega

-- A frame is taken whole, whatever follows.
theorem next_frame {b : β} {x : List α} (hx : IsFrame next b x) (y : List α) :
    next (x ++ y) = some (b, y) := by
  have hnext := h.extend (y := y) hx
  rwa [List.nil_append] at hnext

-- A frame that is not complete is none.
theorem next_prefix {b : β} {x p : List α} (hx : IsFrame next b x) (hp : p <+: x) (hne : p ≠ x) :
    next p = none := by
  obtain ⟨q, rfl⟩ := hp
  cases hnext : next p with
  | none => rfl
  | some r =>
    obtain ⟨b', rest⟩ := r
    have hq := h.extend (y := q) hnext
    rw [hx, Option.some.injEq, Prod.mk.injEq] at hq
    have hnil := List.append_eq_nil_iff.mp hq.2.symm
    rw [hnil.2, List.append_nil] at hne
    exact absurd rfl hne

-- A row of frames is cut into these frames.
theorem frames_flatten {bs : List β} {xs : List (List α)} (hxs : List.Forall₂ (IsFrame next) bs xs)
    {p : List α} (hp : next p = none) : frames next (xs.flatten ++ p) = (bs, p) := by
  induction hxs with
  | nil => exact frames_none hp
  | cons hx _ ih =>
    rw [List.flatten_cons, List.append_assoc, h.frames_some (h.next_frame hx _), ih]

end Framing

end NetCore.Lib
