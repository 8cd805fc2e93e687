import Mathlib.Tactic.TypeStar

/-!
# Loops given by one round

A loop is what one round makes of a state: it starts again from a new state, or it is over and
leaves a result.  `Visits` lists the states a round begins in, `Stops` says that the loop comes to
an end.  A measure that every round lowers gives an end, a property that every round keeps without
an end gives none.
-/

namespace NetCore.Lib

inductive Lap (σ ρ : Type*) where
  | again (next : σ)
  | done (result : ρ)

variable {σ ρ : Type*} {round : σ → Lap σ ρ}

-- A round of the loop from the first state begins in the second.
inductive Visits (round : σ → Lap σ ρ) : σ → σ → Prop where
  | here (s : σ) : Visits round s s
  | again {s s' t : σ} : round s = .again s' → Visits round s' t → Visits round s t

inductive Stops (round : σ → Lap σ ρ) : σ → ρ → Prop where
  | done {s : σ} {r : ρ} : round s = .done r → Stops round s r
  | again {s s' : σ} {r : ρ} : round s = .again s' → Stops round s' r → Stops round s r

theorem Visits.snoc {s t t' : σ} (h : Visits round s t) (hround : round t = .again t') :
    Visits round s t' := by
  induction h with
  | here s => exact .again hround (.here t')
  | again hagain _ ih => exact .again hagain (ih hround)

-- A loop ends if every round it makes lowers a measure.
theorem stops_of_measure (measure : σ → Nat) {s : σ}
    (h : ∀ {t t'}, Visits round s t → round t = .again t' → measure t' < measure t) :
    ∃ r, Stops round s r := by
  -- on the measure of the state a round begins in
  have hfrom (n : Nat) : ∀ t, measure t < n → Visits round s t → ∃ r, Stops round t r := by
    induction n with
    | zero => exact fun t hlt => absurd hlt (Nat.not_lt_zero _)
    | succ n ih =>
      intro t hlt hvisits
      cases hround : round t with
      | done r => exact ⟨r, .done hround⟩
      | again t' =>
        have hlower := h hvisits hround
        obtain ⟨r, hstops⟩ := ih t' (by omega) (hvisits.snoc hround)
        exact ⟨r, .again hround hstops⟩
  exact hfrom (measure s + 1) s (Nat.lt_succ_self _) (.here s)

-- A loop that always starts again has no end.
theorem not_stops_of_invariant (inv : σ → Prop)
    (h : ∀ s, inv s → ∃ s', round s = .again s' ∧ inv s') {s : σ} {r : ρ} (hinv : inv s) :
    ¬ Stops round s r := by
  intro hstops
  induction hstops with
  | done hdone =>
    obtain ⟨s', hagain, -⟩ := h _ hinv
    rw [hdone] at hagain
    cases hagain
  | again hround _ ih =>
    obtain ⟨s', hagain, hinv'⟩ := h _ hinv
    rw [hround] at hagain
    cases hagain
    exact ih hinv'

end NetCore.Lib
