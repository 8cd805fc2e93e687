import NetCore.EpollReactor.Table

/-!
# The table mirrors the kernel

As long as `epoll_ctl` fails for nothing but a misplaced ADD, MOD or DEL, the table, the masks of its
stubs and the interest set of the kernel say the same.
-/

namespace NetCore

namespace EpollLoop

open EpollReactor (convertEvent)

structure Mirrors (r : EpollLoop) : Prop where
  domain : ∀ fd, (r.mFd2Events.lookup fd).isSome = (r.interest.lookup fd).isSome
  stub : ∀ fd p, r.mFd2Events.lookup fd = some p →
    ∃ stub, r.memory.cells p = some stub ∧ stub.events ≠ 0 ∧ stub.listener ≠ none ∧
      r.interest.lookup fd = some (convertEvent stub.events, p)
  deleted : ∀ p ∈ r.mDelEventStubs,
    (∃ stub, r.memory.cells p = some stub ∧ stub.listener = none) ∧
      ∀ fd, r.mFd2Events.lookup fd ≠ some p
  contains : ∀ fd events, r.containEvent fd events = 1 ↔
    ∃ mask p, r.interest.lookup fd = some (mask, p) ∧
      mask &&& convertEvent events = convertEvent events

variable {r : EpollLoop}

-- No mask is empty.
theorem nonempty_rule : MaskRule fun mask => mask ≠ 0 where
  join a b ha _ hzero := by
    apply ha
    ext i hi
    have hbit : (a ||| b)[i] = (0 : U32)[i] := congrArg (fun m : U32 => m[i]) hzero
    have hfalse : (0 : U32)[i] = false := BitVec.getElem_zero hi
    rw [BitVec.getElem_or, hfalse] at hbit
    rw [hfalse]
    exact (Bool.or_eq_false_iff.mp hbit).1
  part _ _ _ hleft := hleft

theorem Sound.mirrors (h : Sound (fun mask => mask ≠ 0) r)
    (hmod : ∀ fd, r.refuses .mod fd = false) : Mirrors r where
  domain fd := by
    cases hentry : r.mFd2Events.lookup fd with
    | some p =>
      obtain ⟨_, _, _, _, _, _, mask, hkernel, -⟩ := h.stub fd p hentry
      rw [hkernel]
      rfl
    | none =>
      cases hkernel : r.interest.lookup fd with
      | none => rfl
      | some entry => cases hentry.symm.trans (h.watched fd entry.1 entry.2 hkernel)
  stub fd p hentry := by
    obtain ⟨stub, hcell, -, hlistener, hevents, hmask, mask, hkernel, hmirror⟩ := h.stub fd p hentry
    rw [hmirror hmod, hmask] at hkernel
    exact ⟨stub, hcell, hevents, hlistener, hkernel⟩
  deleted p hp := ⟨h.deleted p hp, h.removed_left hp⟩
  contains fd events := by
    unfold containEvent
    cases hentry : r.mFd2Events.lookup fd with
    | none =>
      have hkernel : ¬ ∃ mask p, r.interest.lookup fd = some (mask, p) ∧
          mask &&& convertEvent events = convertEvent events := by
        rintro ⟨mask, p, hkernel, -⟩
        cases hentry.symm.trans (h.watched fd mask p hkernel)
      rw [iff_false_right hkernel]
      split
      · decide
      · exact (by decide : ¬ (0 : Int) = 1)
    | some p =>
      obtain ⟨stub, hcell, -, hlistener, -, -, mask, hkernel, hmirror⟩ := h.stub fd p hentry
      rw [if_neg (h.opened fd p hentry)]
      simp only [Option.bind_some, hcell, if_neg hlistener, hkernel, ← hmirror hmod]
      constructor
      · intro hone
        by_cases hall : mask &&& convertEvent events = convertEvent events
        · exact ⟨mask, p, rfl, hall⟩
        · rw [if_neg hall] at hone
          cases hone
      · rintro ⟨mask', p', heq, hall⟩
        cases heq
        exact if_pos hall

theorem Sound.runCalls {P : U32 → Prop} (h : Sound P r) (rule : MaskRule P)
    (hdel : ∀ fd, r.refuses .del fd = false) {cs : List LoopCall}
    (hcs : ∀ c ∈ cs, LoopCall.Admits P c) :
    Sound P (r.runCalls cs) ∧ (r.runCalls cs).refuses = r.refuses := by
  induction cs generalizing r with
  | nil => exact ⟨h, rfl⟩
  | cons c cs ih =>
    obtain ⟨hc, hrest⟩ := List.forall_mem_cons.mp hcs
    have hrefuses := refuses_call (r := r) c
    obtain ⟨hsound, hsame⟩ := ih (h.call rule hdel hc) (by rw [hrefuses]; exact hdel) hrest
    exact ⟨hsound, hsame.trans hrefuses⟩

/-- `addEvent` with a mask that is not empty, or `delEvent`. -/
def LoopCall.Registers : LoopCall → Prop
  | .addEvent _ events _ _ => events ≠ 0
  | .delEvent _ _ => True
  | .closeSocket _ => False

theorem runCalls_mirrors {cs : List LoopCall} (hstart : r.Started)
    (hctl : ∀ op fd, r.refuses op fd = false) (hcs : ∀ c ∈ cs, LoopCall.Registers c) :
    Mirrors (r.runCalls cs) := by
  have hadmits (c : LoopCall) (hc : c ∈ cs) : LoopCall.Admits (fun mask => mask ≠ 0) c := by
    have hregisters := hcs c hc
    cases c with
    | addEvent fd events listener tag => exact hregisters
    | delEvent fd events => trivial
    | closeSocket fd => exact hregisters.elim
  obtain ⟨hsound, hrefuses⟩ := hstart.sound.runCalls nonempty_rule (hctl .del) hadmits
  exact hsound.mirrors fun fd => by rw [hrefuses]; exact hctl .mod fd

def sampleLoop : EpollLoop where
  mEpollFD := 3
  refuses _ _ := false

theorem sampleLoop_started : sampleLoop.Started := ⟨rfl, rfl, rfl, rfl, rfl⟩

/-- Two descriptors, one of them in two steps, and the other removed. -/
theorem runCalls_mirrors_sample :
    Mirrors (sampleLoop.runCalls
      [.addEvent 4 evREAD 1 0, .addEvent 5 evALL 2 0, .addEvent 4 evWRITE 1 0,
        .delEvent 4 evREAD, .delEvent 5 evALL]) :=
  runCalls_mirrors sampleLoop_started (fun _ _ => rfl) (by simp [LoopCall.Registers]; decide)

end EpollLoop

end NetCore
