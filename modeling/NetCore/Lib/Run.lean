import Mathlib.Algebra.BigOperators.Group.List.Basic
import Mathlib.Algebra.GroupWithZero.Nat
import Mathlib.Data.List.Basic
import Mathlib.Data.List.Forall2
import Mathlib.Data.List.Induction

/-!
# Runs of a partial step function

A system is a step function `S → E → Option S`: one event takes a state to its successor, and `none`
is a step that never returns.  `run` feeds it a list of events, `Along` says that every step of a
run meets a condition on the event and the state before it, and the two induction rules below turn
what one step preserves into what a whole run preserves.
-/

namespace NetCore.Lib

variable {S E : Type*} (step : S → E → Option S)

/-- Feed the events one after the other; `none` as soon as one step does not return. -/
def run : S → List E → Option S
  | s, [] => some s
  | s, e :: es =>
      match step s e with
      | none => none
      | some t => run t es

/-- Every step of the run from `s` meets `cond`, judged on the state before the step. -/
def Along (cond : S → E → Prop) : S → List E → Prop
  | _, [] => True
  | s, e :: es =>
      cond s e ∧
        match step s e with
        | none => True
        | some t => Along cond t es

/-- What each step of the run from `s` yields, judged on the state before the step, in order. -/
def trail {α : Type*} (yield : S → E → List α) : S → List E → List α
  | _, [] => []
  | s, e :: es =>
      yield s e ++
        match step s e with
        | none => []
        | some t => trail yield t es

def tally (amount : S → E → Nat) (s : S) (es : List E) : Nat :=
  (trail step (fun s e => [amount s e]) s es).sum

instance Along.decidable (cond : S → E → Prop) [∀ s e, Decidable (cond s e)] :
    ∀ s es, Decidable (Along step cond s es)
  | _, [] => inferInstanceAs (Decidable True)
  | s, e :: es =>
      haveI : Decidable (match step s e with
          | none => True
          | some t => Along step cond t es) :=
        match step s e with
        | none => inferInstanceAs (Decidable True)
        | some t => Along.decidable cond t es
      inferInstanceAs (Decidable (_ ∧ _))

variable {step}

@[simp] theorem run_nil (s : S) : run step s [] = some s := rfl

theorem run_cons {s t : S} {e : E} (es : List E) (h : step s e = some t) :
    run step s (e :: es) = run step t es := by
  simp only [run, h]

theorem run_append {s t : S} {es : List E} (fs : List E) (h : run step s es = some t) :
    run step s (es ++ fs) = run step t fs := by
  induction es generalizing s with
  | nil => cases h; rfl
  | cons e es ih =>
    cases hs : step s e with
    | none => simp [run, hs] at h
    | some u =>
      rw [run_cons es hs] at h
      rw [List.cons_append, run_cons _ hs, ih h]

-- A run on given events, computed.
theorem run_reaches {P : S → Prop} [DecidablePred P] {s : S} {es : List E}
    (h : (run step s es).any (fun t => decide (P t))) : ∃ t, run step s es = some t ∧ P t := by
  obtain ⟨t, hrun, hP⟩ := (Option.any_eq_true _ _).mp h
  exact ⟨t, hrun, of_decide_eq_true hP⟩

theorem Along.head {cond : S → E → Prop} {s : S} {e : E} {es : List E}
    (h : Along step cond s (e :: es)) : cond s e := h.1

theorem Along.single {cond : S → E → Prop} {s : S} {e : E} (h : cond s e) :
    Along step cond s [e] := by
  refine ⟨h, ?_⟩
  split <;> trivial

theorem Along.tail {cond : S → E → Prop} {s t : S} {e : E} {es : List E}
    (h : Along step cond s (e :: es)) (hs : step s e = some t) : Along step cond t es := by
  have htail := h.2
  rw [hs] at htail
  exact htail

theorem Along.append {cond : S → E → Prop} {s : S} {es fs : List E} (h : Along step cond s es)
    (hrest : ∀ t, run step s es = some t → Along step cond t fs) :
    Along step cond s (es ++ fs) := by
  induction es generalizing s with
  | nil => exact hrest s rfl
  | cons e es ih =>
    refine ⟨h.head, ?_⟩
    split
    next => trivial
    next hs =>
      refine ih (h.tail hs) fun t ht => hrest t ?_
      rw [run_cons es hs]
      exact ht

theorem Along.mono {cond cond' : S → E → Prop} (hcond : ∀ s e, cond s e → cond' s e) {s : S}
    {es : List E} (h : Along step cond s es) : Along step cond' s es := by
  induction es generalizing s with
  | nil => exact trivial
  | cons e es ih =>
    refine ⟨hcond s e h.head, ?_⟩
    split
    next => trivial
    next hstep => exact ih (h.tail hstep)

-- A condition that follows from `cond` in states with what the steps that meet `cond` keep.
theorem Along.mono_of_kept {cond cond' : S → E → Prop} (inv : S → Prop)
    (hstep : ∀ s e t, inv s → cond s e → step s e = some t → inv t)
    (hcond : ∀ s e, inv s → cond s e → cond' s e) {s : S} {es : List E} (hinv : inv s)
    (h : Along step cond s es) : Along step cond' s es := by
  induction es generalizing s with
  | nil => exact trivial
  | cons e es ih =>
    refine ⟨hcond s e hinv h.head, ?_⟩
    split
    next => trivial
    next hs => exact ih (hstep s e _ hinv h.head hs) (h.tail hs)

-- A condition that follows from `cond` in the states of a run.
theorem Along.mono_of_invariant {cond cond' : S → E → Prop} (inv : S → Prop)
    (hstep : ∀ s e t, inv s → step s e = some t → inv t)
    (hcond : ∀ s e, inv s → cond s e → cond' s e) {s : S} {es : List E} (hinv : inv s)
    (h : Along step cond s es) : Along step cond' s es :=
  h.mono_of_kept inv (fun s e t hs _ => hstep s e t hs) hcond hinv

-- What every step that meets `cond` preserves, with the events so far at hand, holds after the
-- run.
theorem Along.history {cond : S → E → Prop} (inv : List E → S → Prop)
    (hstep : ∀ past s e t, inv past s → cond s e → step s e = some t → inv (past ++ [e]) t)
    (past : List E) {s t : S} {es : List E} (hinv : inv past s) (h : Along step cond s es)
    (hrun : run step s es = some t) : inv (past ++ es) t := by
  induction es generalizing past s with
  | nil =>
    cases hrun
    simpa using hinv
  | cons e es ih =>
    cases hs : step s e with
    | none => simp [run, hs] at hrun
    | some u =>
      rw [run_cons es hs] at hrun
      have hnext := ih (past ++ [e]) (hstep past s e u hinv h.head hs) (h.tail hs) hrun
      simpa using hnext

-- What every step that meets `cond` preserves holds after the run.
theorem Along.invariant {cond : S → E → Prop} (inv : S → Prop)
    (hstep : ∀ s e t, inv s → cond s e → step s e = some t → inv t)
    {s t : S} {es : List E} (hinv : inv s) (h : Along step cond s es)
    (hrun : run step s es = some t) : inv t :=
  Along.history (fun _ => inv) (fun _ => hstep) [] hinv h hrun

-- Every step that meets `cond` is as `P` wants it, if steps from a state with the invariant are.
theorem Along.steps {cond : S → E → Prop} {P : S → E → S → Prop} (inv : S → Prop)
    (hstep : ∀ s e t, inv s → cond s e → step s e = some t → inv t ∧ P s e t)
    {s : S} {es : List E} (hinv : inv s) (h : Along step cond s es) :
    Along step (fun s e => ∀ t, step s e = some t → P s e t) s es := by
  induction es generalizing s with
  | nil => exact trivial
  | cons e es ih =>
    refine ⟨fun t ht => (hstep s e t hinv h.head ht).2, ?_⟩
    split
    next => trivial
    next t ht => exact ih (hstep s e t hinv h.head ht).1 (h.tail ht)

theorem Along.of_forall {cond : S → E → Prop} {es : List E} (h : ∀ e ∈ es, ∀ s, cond s e) (s : S) :
    Along step cond s es := by
  induction es generalizing s with
  | nil => exact trivial
  | cons e es ih =>
    obtain ⟨hhead, hrest⟩ := List.forall_mem_cons.mp h
    refine ⟨hhead s, ?_⟩
    split
    · exact trivial
    · exact ih hrest _

-- What every step preserves holds after the run.
theorem run_invariant (inv : S → Prop) (hstep : ∀ s e t, inv s → step s e = some t → inv t)
    {s t : S} {es : List E} (hinv : inv s) (hrun : run step s es = some t) : inv t := by
  have hall : Along step (fun _ _ => True) s es := .of_forall (fun _ _ _ => trivial) s
  exact Along.invariant inv (fun s e t h _ => hstep s e t h) hinv hall hrun

-- What every step extends by what it yields is extended by all of it after the run.
theorem run_trails {α β : Type*} {yield : S → E → List α} {yield' : S → E → List β}
    (inv : List α → List β → S → Prop)
    (hstep : ∀ l l' s e t, inv l l' s → step s e = some t →
      inv (l ++ yield s e) (l' ++ yield' s e) t)
    {l : List α} {l' : List β} {s t : S} {es : List E} (hinv : inv l l' s)
    (hrun : run step s es = some t) :
    inv (l ++ trail step yield s es) (l' ++ trail step yield' s es) t := by
  induction es generalizing l l' s with
  | nil =>
    cases hrun
    rw [trail, trail, List.append_nil, List.append_nil]
    exact hinv
  | cons e es ih =>
    cases hs : step s e with
    | none => simp [run, hs] at hrun
    | some u =>
      rw [run_cons es hs] at hrun
      have hrest := ih (hstep l l' s e u hinv hs) hrun
      rw [trail, trail, hs, ← List.append_assoc, ← List.append_assoc]
      exact hrest

-- `run_trails` for a single yield.
theorem run_trail {α : Type*} {yield : S → E → List α} (inv : List α → S → Prop)
    (hstep : ∀ l s e t, inv l s → step s e = some t → inv (l ++ yield s e) t)
    {l : List α} {s t : S} {es : List E} (hinv : inv l s) (hrun : run step s es = some t) :
    inv (l ++ trail step yield s es) t :=
  @run_trails S E step α Unit yield (fun _ _ => []) (fun l _ => inv l) (fun l _ => hstep l) l [] s t
    es hinv hrun

-- `run_trail` for a run whose steps all meet a condition.
theorem Along.trail {α : Type*} {cond : S → E → Prop} {yield : S → E → List α}
    (inv : List α → S → Prop)
    (hstep : ∀ l s e t, inv l s → cond s e → step s e = some t → inv (l ++ yield s e) t)
    {l : List α} {s t : S} {es : List E} (hinv : inv l s) (hcond : Along step cond s es)
    (hrun : run step s es = some t) : inv (l ++ trail step yield s es) t := by
  induction es generalizing l s with
  | nil =>
    cases hrun
    rw [Lib.trail, List.append_nil]
    exact hinv
  | cons e es ih =>
    cases hs : step s e with
    | none => simp [run, hs] at hrun
    | some u =>
      rw [run_cons es hs] at hrun
      have hrest := ih (hstep l s e u hinv hcond.head hs) (hcond.tail hs) hrun
      rw [Lib.trail, hs, ← List.append_assoc]
      exact hrest

-- What every step moves on by its amount has moved on by the sum after the run.
theorem run_tally {amount : S → E → Nat} (inv : Nat → S → Prop)
    (hstep : ∀ n s e t, inv n s → step s e = some t → inv (n + amount s e) t)
    {s t : S} {es : List E} (hinv : inv 0 s) (hrun : run step s es = some t) :
    inv (tally step amount s es) t := by
  refine run_trail (fun l => inv l.sum) ?_ (l := []) hinv hrun
  intro l s e t hl hs
  rw [List.sum_append, List.sum_singleton]
  exact hstep _ s e t hl hs

-- Every step leaves a state with `P` exactly if every step meets `cond`, as soon as this is so of a
-- single step from a state with `P`.
theorem Along.leaves_iff {cond : S → E → Prop} (inv P : S → Prop)
    (hstep : ∀ s e t, inv s → step s e = some t → inv t)
    (hiff : ∀ s e, inv s → P s → ((∀ t, step s e = some t → P t) ↔ cond s e))
    {s : S} {es : List E} (hinv : inv s) (hP : P s) :
    Along step (fun s e => ∀ t, step s e = some t → P t) s es ↔ Along step cond s es := by
  induction es generalizing s with
  | nil => exact Iff.rfl
  | cons e es ih =>
    refine Iff.trans (and_congr_right fun hleaves => ?_) (and_congr_left' (hiff s e hinv hP))
    -- the rest of the run starts where the property holds
    cases hs : step s e with
    | none => exact Iff.rfl
    | some t => exact ih (hstep s e t hinv hs) (hleaves t hs)

-- A run follows a reference in every state it comes to, exactly if every step meets `cond`, as soon
-- as this is so of a single step.
theorem Along.follows_iff {T : Type*} {cond : S → E → Prop} (next : T → E → T) (R : S → T → Prop)
    (hiff : ∀ s t e, R s t → ((∃ s', step s e = some s' ∧ R s' (next t e)) ↔ cond s e))
    {s : S} {t : T} {es : List E} (hR : R s t) :
    (∀ pre, pre <+: es → ∃ s', run step s pre = some s' ∧ R s' (pre.foldl next t)) ↔
      Along step cond s es := by
  induction es generalizing s t with
  | nil =>
    apply iff_of_true _ trivial
    intro pre hpre
    rw [List.prefix_nil.mp hpre]
    exact ⟨s, rfl, hR⟩
  | cons e es ih =>
    constructor
    · intro hfollows
      have hone : ∃ s', step s e = some s' ∧ R s' (next t e) := by
        obtain ⟨s', hrun, hR'⟩ := hfollows [e] (List.prefix_append [e] es)
        cases hs : step s e with
        | none =>
          rw [run, hs] at hrun
          cases hrun
        | some u =>
          rw [run_cons [] hs] at hrun
          exact ⟨s', hrun, hR'⟩
      obtain ⟨s', hs, hR'⟩ := hone
      refine ⟨(hiff s t e hR).mp ⟨s', hs, hR'⟩, ?_⟩
      rw [hs]
      apply (ih hR').mp
      intro pre hpre
      have hlater := hfollows (e :: pre) ((List.prefix_cons_inj e).mpr hpre)
      rw [run_cons pre hs] at hlater
      exact hlater
    · intro halong pre hpre
      obtain ⟨s', hs, hR'⟩ := (hiff s t e hR).mpr halong.head
      cases pre with
      | nil => exact ⟨s, rfl, hR⟩
      | cons e' pre =>
        obtain ⟨rfl, hrest⟩ := List.cons_prefix_cons.mp hpre
        rw [run_cons pre hs]
        exact (ih hR').mpr (halong.tail hs) pre hrest

/-! ## Two runs side by side -/

-- Runs are related if their first steps are and the rest is from related states.
theorem run_cons_rel {S' E' : Type*} {step' : S' → E' → Option S'} {R : S → S' → Prop} {s : S} {s' : S'}
    {e : E} {e' : E'} {es : List E} {es' : List E'} (hfirst : Option.Rel R (step s e) (step' s' e'))
    (hrest : ∀ t t', step s e = some t → step' s' e' = some t' → R t t' →
      Option.Rel R (run step t es) (run step' t' es')) :
    Option.Rel R (run step s (e :: es)) (run step' s' (e' :: es')) := by
  cases hs : step s e with
  | none =>
    rw [hs] at hfirst
    cases hs' : step' s' e' with
    | none =>
      simp only [run, hs, hs']
      exact .none
    | some t' =>
      rw [hs'] at hfirst
      cases hfirst
  | some t =>
    rw [hs] at hfirst
    cases hs' : step' s' e' with
    | none =>
      rw [hs'] at hfirst
      cases hfirst
    | some t' =>
      rw [hs'] at hfirst
      cases hfirst with
      | some hR =>
        rw [run_cons _ hs, run_cons _ hs']
        exact hrest t t' hs hs' hR

-- Related states stay related along related events, as long as the steps of both runs meet a
-- condition.
theorem Along.lockstep {S' E' : Type*} {step' : S' → E' → Option S'} {cond : S → E → Prop}
    {cond' : S' → E' → Prop} (R : S → S' → Prop) (Q : E → E' → Prop)
    (hstep : ∀ s s' e e', R s s' → Q e e' → cond s e → cond' s' e' →
      Option.Rel R (step s e) (step' s' e'))
    {s : S} {s' : S'} {es : List E} {es' : List E'} (hR : R s s') (hes : List.Forall₂ Q es es')
    (h : Along step cond s es) (h' : Along step' cond' s' es') (n : Nat) :
    Option.Rel R (run step s (es.take n)) (run step' s' (es'.take n)) := by
  induction hes generalizing s s' n with
  | nil =>
    rw [List.take_nil, List.take_nil]
    exact .some hR
  | @cons e e' es es' he _ ih =>
    cases n with
    | zero => exact .some hR
    | succ n =>
      rw [List.take_succ_cons, List.take_succ_cons]
      exact run_cons_rel (hstep s s' e e' hR he h.head h'.head) fun t t' hs hs' hR' =>
        ih hR' (h.tail hs) (h'.tail hs') n

/-! ## Traces -/

-- Every point of a trace is as `good` wants it, judged on the points before it.
def Timely {P : Type*} (good : List P → P → Prop) (points : List P) : Prop :=
  ∀ before point after, points = before ++ point :: after → good before point

theorem timely_nil {P : Type*} {good : List P → P → Prop} : Timely good [] := by
  intro before point after hsplit
  exact absurd hsplit (by simp)

theorem Timely.snoc {P : Type*} {good : List P → P → Prop} {points : List P} {point : P}
    (h : Timely good points) (hpoint : good points point) : Timely good (points ++ [point]) := by
  intro before other after hsplit
  cases after using List.reverseRecOn with
  | nil =>
    obtain ⟨rfl, hlast⟩ := List.append_inj' hsplit rfl
    cases hlast
    exact hpoint
  | append_singleton after last =>
    rw [← List.cons_append, ← List.append_assoc] at hsplit
    exact h before other after (List.append_inj' hsplit rfl).1

end NetCore.Lib
