import NetCore.EpollReactor.Mirror

/-!
# No stale dispatch

The loop reads stubs whose registration may have ended since `epoll_wait` returned.  An address it
still has to read is in the table or waits for the clean-up, and a waiting stub has no listener; so
what is called back is registered, and nothing is read that has been deleted.

The masks are made of the constants of `IReactor::EVENT`: with another bit set, `delEvent` of `ALL`
would leave the stub of a socket about to be closed in the table.
-/

namespace NetCore

namespace EpollLoop

variable {r : EpollLoop} {P : U32 → Prop} {p : Nat}

-- The stub is registered or waits for the clean-up.
def Held (r : EpollLoop) (p : Nat) : Prop :=
  (∃ fd, r.mFd2Events.lookup fd = some p) ∨ p ∈ r.mDelEventStubs

theorem Sound.cell (h : Sound P r) (hp : r.Held p) : ∃ stub, r.memory.cells p = some stub := by
  rcases hp with ⟨fd, hentry⟩ | hdeleted
  · obtain ⟨stub, hcell, -⟩ := h.stub fd p hentry
    exact ⟨stub, hcell⟩
  · obtain ⟨stub, hcell, -⟩ := h.deleted p hdeleted
    exact ⟨stub, hcell⟩

theorem Held.addEvent (hp : r.Held p) (fd : Int) (events : U32) (listener tag : Nat) :
    (r.addEvent fd events listener tag).2.Held p := by
  simp only [EpollLoop.addEvent]
  split
  · exact hp
  split
  · exact hp
  cases hentry : r.mFd2Events.lookup fd with
  | some q =>
    -- the table stays as it is
    simp only
    repeat' split
    all_goals exact hp
  | none =>
    simp only
    split
    · exact hp
    · rcases hp with ⟨fd', hentry'⟩ | hdeleted
      · have hne : fd' ≠ fd := by
          rintro rfl
          cases hentry.symm.trans hentry'
        exact .inl ⟨fd', (AList.lookup_insert_ne hne).trans hentry'⟩
      · exact .inr hdeleted

theorem Held.delEvent (hp : r.Held p) (fd : Int) (events : U32) :
    (r.delEvent fd events).2.Held p := by
  simp only [EpollLoop.delEvent]
  split
  · exact hp
  cases hentry : r.mFd2Events.lookup fd with
  | none => exact hp
  | some q =>
    simp only
    repeat' split
    all_goals first | exact hp | skip
    -- the stub goes from the table to the list
    rcases hp with ⟨fd', hentry'⟩ | hdeleted
    · by_cases heq : fd' = fd
      · subst heq
        cases hentry.symm.trans hentry'
        exact .inr (List.mem_append_right _ (List.mem_singleton_self _))
      · exact .inl ⟨fd', (AList.lookup_erase_ne heq).trans hentry'⟩
    · exact .inr (List.mem_append_left _ hdeleted)

theorem Held.call (hp : r.Held p) (c : LoopCall) : (r.call c).Held p := by
  cases c with
  | addEvent fd events listener tag => exact hp.addEvent fd events listener tag
  | delEvent fd events => exact hp.delEvent fd events
  | closeSocket fd =>
    show (r.closeSocket fd).Held p
    unfold closeSocket
    split
    · exact hp.delEvent fd evALL
    · exact hp

/-! ## Through a round of the loop -/

/-- A mask made of `READ`, `WRITE` and `ERROR`. -/
def Named (mask : U32) : Prop := mask &&& ~~~evALL = 0

instance (mask : U32) : Decidable (Named mask) := inferInstanceAs (Decidable (_ = _))

theorem named_rule : MaskRule Named where
  join a b ha hb := by
    unfold Named at *
    rw [BitVec.and_comm, BitVec.and_or_distrib_left, BitVec.and_comm _ a, BitVec.and_comm _ b, ha, hb]
    rfl
  part a b ha _ := by
    unfold Named at *
    rw [BitVec.and_assoc, BitVec.and_comm (~~~b), ← BitVec.and_assoc, ha]
    exact BitVec.zero_and

structure Dispatching (stubs : List Nat) (r : EpollLoop) : Prop where
  sound : Sound Named r
  kernel : ∀ fd, r.refuses .del fd = false
  calls : ∀ n, ∀ c ∈ r.calls n, LoopCall.Admits Named c
  held : ∀ p ∈ stubs, r.Held p

variable {stubs : List Nat}

theorem calls_call (c : LoopCall) : (r.call c).calls = r.calls := by
  have hadd (fd : Int) (events : U32) (listener tag : Nat) :
      (r.addEvent fd events listener tag).2.calls = r.calls := by
    simp only [EpollLoop.addEvent]
    repeat' split
    all_goals rfl
  have hdel (fd : Int) (events : U32) : (r.delEvent fd events).2.calls = r.calls := by
    simp only [EpollLoop.delEvent]
    repeat' split
    all_goals rfl
  cases c with
  | addEvent fd events listener tag => exact hadd ..
  | delEvent fd events => exact hdel ..
  | closeSocket fd =>
    show (r.closeSocket fd).calls = _
    unfold closeSocket
    split
    · exact hdel ..
    · rfl

theorem Dispatching.call (h : Dispatching stubs r) {c : LoopCall} (hc : LoopCall.Admits Named c) :
    Dispatching stubs (r.call c) where
  sound := h.sound.call named_rule h.kernel hc
  kernel fd := by
    rw [refuses_call]
    exact h.kernel fd
  calls n := by
    rw [calls_call]
    exact h.calls n
  held p hp := (h.held p hp).call c

theorem Dispatching.runCalls (h : Dispatching stubs r) {cs : List LoopCall}
    (hcs : ∀ c ∈ cs, LoopCall.Admits Named c) : Dispatching stubs (r.runCalls cs) := by
  induction cs generalizing r with
  | nil => exact h
  | cons c cs ih =>
    obtain ⟨hc, hrest⟩ := List.forall_mem_cons.mp hcs
    exact ih (h.call hc) hrest

theorem Dispatching.invoke (h : Dispatching stubs r) (hp : p ∈ stubs) (wanted : Bool)
    (callback : Callback) : Dispatching stubs (r.invoke wanted callback p) := by
  obtain ⟨stub, hcell⟩ := h.sound.cell (h.held p hp)
  unfold EpollLoop.invoke
  simp only [hcell]
  split
  next listener hlistener =>
    -- a stub with a listener is not one of those that wait for the clean-up
    have hentry : r.mFd2Events.lookup stub.fd = some p := by
      rcases h.held p hp with ⟨fd, hentry⟩ | hdeleted
      · obtain ⟨stub', hcell', hfd, -⟩ := h.sound.stub fd p hentry
        cases hcell.symm.trans hcell'
        exact hfd ▸ hentry
      · obtain ⟨stub', hcell', hnone⟩ := h.sound.deleted p hdeleted
        cases hcell.symm.trans hcell'
        rw [hnone] at hlistener
        cases hlistener
    have hinvoked : Sound Named (r.emit (.invoked callback stub.fd p listener stub.tag)) :=
      h.sound.quiet trivial (registration_invoked ..) ((h.sound.registered stub.fd).trans hentry)
    refine Dispatching.runCalls ?_ (h.calls 0)
    exact ⟨{ hinvoked with faultless := hinvoked.faultless }, h.kernel, fun n => h.calls (n + 1), h.held⟩
  next => exact h

theorem Dispatching.dispatchEntry (h : Dispatching stubs r) {ev : EpollEvent} (hp : ev.ptr ∈ stubs) :
    Dispatching stubs (r.dispatchEntry ev) := by
  obtain ⟨stub, hcell⟩ := h.sound.cell (h.held ev.ptr hp)
  unfold EpollLoop.dispatchEntry
  simp only [hcell]
  split
  · exact h
  · exact ((h.invoke hp _ _).invoke hp _ _).invoke hp _ _

theorem Dispatching.dispatchEvent (h : Dispatching stubs r) {events : List EpollEvent}
    (hevents : ∀ ev ∈ events, ev.ptr ∈ stubs) : Dispatching stubs (r.dispatchEvent events) := by
  induction events generalizing r with
  | nil => exact h
  | cons ev events ih =>
    obtain ⟨hev, hrest⟩ := List.forall_mem_cons.mp hevents
    exact ih (h.dispatchEntry hev) hrest

theorem Dispatching.dispatchCheck (h : Dispatching stubs r) : Dispatching stubs r.dispatchCheck := by
  have hloop (ps : List Nat) {r : EpollLoop} (h : Dispatching (ps ++ stubs) r) :
      Dispatching stubs (ps.foldl (fun r p => r.invoke true .onPeriodicallyCheck p) r) := by
    induction ps generalizing r with
    | nil => exact h
    | cons p ps ih =>
      have hnext := h.invoke List.mem_cons_self true .onPeriodicallyCheck
      exact ih ⟨hnext.sound, hnext.kernel, hnext.calls,
        fun q hq => hnext.held q (List.mem_cons_of_mem p hq)⟩
  refine hloop r.stubs ⟨h.sound, h.kernel, h.calls, fun p hp => ?_⟩
  rcases List.mem_append.mp hp with hp | hp
  · obtain ⟨fd, -, hentry⟩ := List.mem_filterMap.mp hp
    exact .inl ⟨fd, hentry⟩
  · exact h.held p hp

/-! ## The clean-up -/

theorem Sound.cleanDeletedEvents (h : Sound P r) : Sound P r.cleanDeletedEvents := by
  have hnodup : r.mDelEventStubs.Nodup := h.distinct.of_append_right
  have hlive (p : Nat) (hp : p ∈ r.mDelEventStubs) : r.memory.Live p := by
    obtain ⟨stub, hcell, -⟩ := h.deleted p hp
    exact Lib.Heap.live_of_cell hcell
  obtain ⟨hfaults, hnext, hgone, hkept⟩ := Lib.Heap.foldl_free hnodup hlive
  have hnext' : r.cleanDeletedEvents.memory.next = r.memory.next := hnext
  constructor
  case faultless => exact hfaults.trans h.faultless
  case stub =>
    intro fd p hentry
    obtain ⟨stub, hcell, hrest⟩ := h.stub fd p hentry
    exact ⟨stub, (hkept p fun hp => h.removed_left hp fd hentry).trans hcell, hrest⟩
  case watched => exact h.watched
  case opened => exact h.opened
  case deleted => exact fun p hp => (List.not_mem_nil hp).elim
  case registered =>
    intro fd
    show registration (r.trace ++ [LoopPoint.cleaned r.mDelEventStubs]) fd = _
    rw [registration_cleaned]
    exact h.registered fd
  case waiting => exact pending_snoc ..
  case distinct =>
    show (freed (r.trace ++ [LoopPoint.cleaned r.mDelEventStubs]) ++ []).Nodup
    rw [freed_snoc, List.append_nil]
    exact h.distinct
  case gone =>
    intro p hp
    have hp' : p ∈ freed (r.trace ++ [LoopPoint.cleaned r.mDelEventStubs]) := hp
    rw [freed_snoc] at hp'
    by_cases hdeleted : p ∈ r.mDelEventStubs
    · refine ⟨?_, hgone p hdeleted⟩
      have hlt := (hlive p hdeleted).lt
      omega
    · obtain ⟨hlt, hnone⟩ := h.gone p ((List.mem_append.mp hp').resolve_right hdeleted)
      refine ⟨?_, (hkept p hdeleted).trans hnone⟩
      omega
  case once =>
    show (added (r.trace ++ [LoopPoint.cleaned r.mDelEventStubs])).Nodup
    rw [added_snoc, List.append_nil]
    exact h.once
  case known =>
    intro p hp
    have hp' : p ∈ added (r.trace ++ [LoopPoint.cleaned r.mDelEventStubs]) := hp
    rw [added_snoc, List.append_nil] at hp'
    have hlt := h.known p hp'
    omega
  case live =>
    intro p
    show (r.mDelEventStubs.foldl (fun memory p => memory.free p) r.memory).Live p ↔
      p ∈ added (r.trace ++ [LoopPoint.cleaned r.mDelEventStubs]) ∧
        p ∉ freed (r.trace ++ [LoopPoint.cleaned r.mDelEventStubs])
    rw [added_snoc, freed_snoc, List.append_nil, List.mem_append, not_or]
    by_cases hp : p ∈ r.mDelEventStubs
    · refine iff_of_false (fun hlive' => ?_) fun hkept => hkept.2.2 hp
      obtain ⟨stub, hcell⟩ := hlive'.cell
      cases (hgone p hp).symm.trans hcell
    · have hsame : (r.mDelEventStubs.foldl (fun memory p => memory.free p) r.memory).Live p ↔
          r.memory.Live p := by
        unfold Lib.Heap.Live
        rw [hkept p hp]
      rw [hsame, h.live, and_iff_left hp]
  case timely =>
    refine h.timely.snoc ⟨h.waiting.symm, fun fd p hp hentry => ?_⟩
    rw [h.registered] at hentry
    exact h.removed_left hp fd hentry

/-! ## Runs -/

def LoopCall.Named : LoopCall → Prop
  | .addEvent _ events _ _ => EpollLoop.Named events
  | .delEvent _ _ | .closeSocket _ => True

def Event.Named : Event → Prop
  | .call c => LoopCall.Named c
  | .turn _ _ calls => ∀ n, ∀ c ∈ calls n, LoopCall.Named c

-- The first handler called closes the socket of the second entry and registers its number again.
def sampleCalls : Nat → List LoopCall
  | 0 => [.closeSocket 5, .addEvent 5 evREAD 3 0]
  | _ => []

def sampleEvents : List Event :=
  [.call (.addEvent 4 evREAD 1 0), .call (.addEvent 5 evREAD 2 0),
    .turn [⟨epollIN, 0⟩, ⟨epollIN, 1⟩] true sampleCalls]

end EpollLoop

end NetCore
