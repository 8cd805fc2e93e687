import NetCore.EpollReactor

/-!
# Where the table and the kernel agree

As long as `epoll_ctl` does for a descriptor what is asked of it, the table and the kernel have it for
the same events or not at all.
-/

namespace NetCore
namespace EpollReactor

variable {r : EpollReactor} {fd : Int} {events more mask : U32}

/-- The table and the kernel have `fd` for these events, and no call on it fails. -/
structure Tracks (r : EpollReactor) (fd : Int) (events : U32) : Prop where
  registered : r.Registered fd events
  kernel : r.interest.lookup fd = some (convertEvent events)
  grants : ∀ op, r.refuses op fd = false

/-- Neither has `fd`. -/
structure Forgets (r : EpollReactor) (fd : Int) : Prop where
  table : r.mFd2Events.lookup fd = none
  kernel : r.interest.lookup fd = none

-- The kernel does not look at the table.
theorem epollCtl_setStub (op : EpollOp) (other : Int) (stub : EventStub) :
    (r.setStub fd stub).epollCtl op other mask = r.epollCtl op other mask := by
  cases op <;> rfl

theorem Tracks.addEvent (h : r.Tracks fd events) (hfd : ¬ fd < 0) (more : U32)
    (listener tag : Nat) : (r.addEvent fd more listener tag).2.Tracks fd (events ||| more) := by
  have hregistered := h.registered.addEvent hfd more listener tag
  obtain ⟨⟨hopen, stub, hlookup, -, rfl, -⟩, hkernel, hgrants⟩ := h
  have hctl (mask : U32) : r.epollCtl .mod fd mask = some (r.interest.insert fd mask) :=
    (epollCtl_mod hkernel).trans (if_neg (Bool.eq_false_iff.mp (hgrants _)))
  refine ⟨hregistered, ?_, ?_⟩ <;> unfold EpollReactor.addEvent <;>
    simp only [if_neg hfd, if_neg hopen, hlookup, epollCtl_setStub, hctl]
  · exact AList.lookup_insert _
  · exact hgrants

theorem Tracks.delEvent (h : r.Tracks fd events) (hleft : events &&& ~~~more ≠ 0) :
    (r.delEvent fd more).2.Tracks fd (events &&& ~~~more) := by
  have hregistered := h.registered.delEvent hleft
  obtain ⟨⟨hopen, stub, hlookup, hlistener, rfl, -⟩, hkernel, hgrants⟩ := h
  have hctl (mask : U32) : r.epollCtl .mod fd mask = some (r.interest.insert fd mask) :=
    (epollCtl_mod hkernel).trans (if_neg (Bool.eq_false_iff.mp (hgrants _)))
  refine ⟨hregistered, ?_, ?_⟩ <;> unfold EpollReactor.delEvent <;>
    simp only [if_neg hopen, hlookup, if_neg hlistener, if_neg hleft, epollCtl_setStub, hctl]
  · exact AList.lookup_insert _
  · exact hgrants

-- With its last event the descriptor is out of both.
theorem Tracks.delEvent_last (h : r.Tracks fd events) (hlast : events &&& ~~~more = 0) :
    (r.delEvent fd more).2.Forgets fd := by
  obtain ⟨⟨hopen, stub, hlookup, hlistener, rfl, -⟩, hkernel, hgrants⟩ := h
  have hctl (mask : U32) : r.epollCtl .del fd mask = some (r.interest.erase fd) :=
    (epollCtl_del hkernel).trans (if_neg (Bool.eq_false_iff.mp (hgrants _)))
  refine ⟨?_, ?_⟩ <;> unfold EpollReactor.delEvent <;>
    simp only [if_neg hopen, hlookup, if_neg hlistener, if_pos hlast, epollCtl_setStub, hctl]
  · exact AList.lookup_erase _ _
  · exact AList.lookup_erase _ _

-- A new descriptor.
theorem Forgets.addEvent (h : r.Forgets fd) (hfd : ¬ fd < 0) (hopen : ¬ r.mEpollFD < 0)
    (hgrants : ∀ op, r.refuses op fd = false) (events : U32) (listener tag : Nat) :
    (r.addEvent fd events listener tag).2.Tracks fd events := by
  have hctl (mask : U32) : r.epollCtl .add fd mask = some (r.interest.insert fd mask) := by
    unfold epollCtl NetCore.epollCtl
    simp [h.kernel, hgrants]
  refine ⟨⟨?_, ?_⟩, ?_, ?_⟩ <;> unfold EpollReactor.addEvent <;>
    rw [if_neg hfd, if_neg hopen, h.table] <;> dsimp only <;> rw [hctl]
  · exact hopen
  · exact ⟨_, AList.lookup_insert _, by simp, rfl, rfl⟩
  · exact AList.lookup_insert _
  · exact hgrants

theorem call_other {call : Call} (hother : call.target ≠ fd) :
    (call.run r).interest.lookup fd = r.interest.lookup fd ∧ (call.run r).refuses = r.refuses := by
  cases call with
  | addEvent other more listener tag =>
    have hne : fd ≠ other := Ne.symm hother
    show (r.addEvent other more listener tag).2.interest.lookup fd = _ ∧
      (r.addEvent other more listener tag).2.refuses = _
    unfold EpollReactor.addEvent
    split
    · exact ⟨rfl, rfl⟩
    · split
      · exact ⟨rfl, rfl⟩
      · split <;> dsimp only <;> split
        · exact ⟨rfl, rfl⟩
        next hctl =>
          rw [epollCtl_setStub] at hctl
          exact ⟨epollCtl_other hne hctl, rfl⟩
        · exact ⟨rfl, rfl⟩
        next hctl => exact ⟨epollCtl_other hne hctl, rfl⟩
  | delEvent other more =>
    have hne : fd ≠ other := Ne.symm hother
    show (r.delEvent other more).2.interest.lookup fd = _ ∧ (r.delEvent other more).2.refuses = _
    unfold EpollReactor.delEvent
    split
    · exact ⟨rfl, rfl⟩
    · split
      · exact ⟨rfl, rfl⟩
      · dsimp only
        split
        · exact ⟨rfl, rfl⟩
        · split
          · exact ⟨rfl, rfl⟩
          next hctl =>
            rw [epollCtl_setStub] at hctl
            split <;> exact ⟨epollCtl_other hne hctl, rfl⟩

theorem Tracks.call (h : r.Tracks fd events) {call : Call} (hother : call.target ≠ fd) :
    (call.run r).Tracks fd events := by
  obtain ⟨hkernel, hrefuses⟩ := call_other hother
  exact ⟨h.registered.call hother, hkernel.trans h.kernel, by rw [hrefuses]; exact h.grants⟩

end EpollReactor
end NetCore
