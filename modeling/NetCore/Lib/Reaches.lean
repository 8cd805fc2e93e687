import NetCore.Lib.Run

/-!
# Runs followed by runs

A step of one system may be several steps of another, or none.  `Reaches` says that the second
system comes from one state to the other, and what its events have said on the way; if each step of
the first is followed so, then so is each run, and what it says adds up.
-/

namespace NetCore.Lib

variable {S E α : Type*} {step : S → E → Option S} {say : E → List α} {s t u : S} {x y : List α}

-- There are events from `s` to `t` that together say `x`.
def Reaches (step : S → E → Option S) (say : E → List α) (s t : S) (x : List α) : Prop :=
  ∃ es, run step s es = some t ∧ es.flatMap say = x

namespace Reaches

theorem refl (s : S) : Reaches step say s s [] := ⟨[], rfl, rfl⟩

theorem single {e : E} (h : step s e = some t) : Reaches step say s t (say e) :=
  ⟨[e], run_cons [] h, List.flatMap_singleton ..⟩

theorem trans (h : Reaches step say s t x) (h' : Reaches step say t u y) :
    Reaches step say s u (x ++ y) := by
  obtain ⟨es, hrun, rfl⟩ := h
  obtain ⟨fs, hrun', rfl⟩ := h'
  exact ⟨es ++ fs, (run_append fs hrun).trans hrun', List.flatMap_append⟩

end Reaches

-- The second system follows the first: what its events say is what the log grows by.
def Follows {S' : Type*} (step : S → E → Option S) (say : E → List α) (view : S' → S)
    (log : S' → List α) (s t : S') : Prop :=
  ∃ x, log t = log s ++ x ∧ Reaches step say (view s) (view t) x

namespace Follows

variable {S' E' : Type*} {view : S' → S} {log : S' → List α} {s t u : S'}

theorem refl (s : S') : Follows step say view log s s :=
  ⟨[], (List.append_nil _).symm, .refl _⟩

theorem trans (h : Follows step say view log s t) (h' : Follows step say view log t u) :
    Follows step say view log s u := by
  obtain ⟨x, hlog, hreach⟩ := h
  obtain ⟨y, hlog', hreach'⟩ := h'
  exact ⟨x ++ y, by rw [hlog', hlog, List.append_assoc], hreach.trans hreach'⟩

theorem run {step' : S' → E' → Option S'}
    (hstep : ∀ s e t, step' s e = some t → Follows step say view log s t) {es : List E'}
    (hrun : Lib.run step' s es = some t) : Follows step say view log s t := by
  refine run_invariant (fun t => Follows step say view log s t) ?_ (.refl s) hrun
  exact fun u e t h he => h.trans (hstep u e t he)

end Follows

end NetCore.Lib
