import NetCore.TCPSession.StepRelation

/-!
# How long a session counts as open

`hasClosed` reads the clock, the state and the time of the last note.  Of the calls a tunnel makes
only `onTunnelDataBack` notes the time, and it does so whether the session has timed out or not; all
the others leave a closed session closed.
-/

namespace NetCore
namespace TCPSession

variable {τ : Type} {s t u : TCPSession τ}

-- Two moments of one session, under one reading of the clock.
structure SameFlow (s t : TCPSession τ) : Prop where
  flow : t.toSession.flow = s.toSession.flow
  now : t.now = s.now

-- From `s` to `t` a session gets no younger: it does not come back to life, it does not become
-- ESTABLISHED, and nobody notes the time.
structure Ages (s t : TCPSession τ) : Prop extends SameFlow s t where
  lastTime : t.mLastTime = s.mLastTime
  dead : s.mAlive = false → t.mAlive = false
  state : t.mState = .established → s.mState = .established

theorem SameFlow.refl (s : TCPSession τ) : SameFlow s s := ⟨rfl, rfl⟩

theorem SameFlow.trans (h : SameFlow s t) (h' : SameFlow t u) : SameFlow s u :=
  ⟨h'.flow.trans h.flow, h'.now.trans h.now⟩

-- Queues, numbers, counters, the tunnel and the trace do not matter.
theorem Ages.of_eq (hflow : t.toSession.flow = s.toSession.flow) (hnow : t.now = s.now)
    (htime : t.mLastTime = s.mLastTime) (halive : t.mAlive = s.mAlive) (hstate : t.mState = s.mState) :
    Ages s t where
  flow := hflow
  now := hnow
  lastTime := htime
  dead h := halive.trans h
  state h := hstate.symm.trans h

theorem Ages.refl (s : TCPSession τ) : Ages s s := .of_eq rfl rfl rfl rfl rfl

theorem Ages.trans (h : Ages s t) (h' : Ages t u) : Ages s u where
  toSameFlow := h.toSameFlow.trans h'.toSameFlow
  lastTime := h'.lastTime.trans h.lastTime
  dead hdead := h'.dead (h.dead hdead)
  state hstate := h.state (h'.state hstate)

-- The limit of `timeout` only shrinks when ESTABLISHED is left.
theorem Ages.timeout (h : Ages s t) (htimeout : s.timeout) : t.timeout := by
  unfold TCPSession.timeout at htimeout ⊢
  rw [h.now, h.lastTime]
  apply decide_eq_true
  have hlate := of_decide_eq_true htimeout
  by_cases hstate : t.mState = .established
  · rw [if_pos (h.state hstate)] at hlate
    rw [if_pos hstate]
    exact hlate
  · rw [if_neg hstate]
    split at hlate <;> omega

theorem Ages.hasClosed (h : Ages s t) (hclosed : s.hasClosed) : t.hasClosed := by
  unfold TCPSession.hasClosed at hclosed ⊢
  cases halive : s.mAlive with
  | false => rw [h.dead halive, Bool.not_false, Bool.true_or]
  | true =>
    rw [halive, Bool.not_true, Bool.false_or] at hclosed
    rw [h.timeout hclosed, Bool.or_true]

-- Time only closes.
theorem timeout_later {later : Nat} (hlater : s.now ≤ later) (htimeout : s.timeout) :
    ({ s with now := later } : TCPSession τ).timeout := by
  unfold timeout at htimeout ⊢
  have hlate := of_decide_eq_true htimeout
  apply decide_eq_true
  dsimp only
  omega

theorem hasClosed_later {later : Nat} (hlater : s.now ≤ later) (hclosed : s.hasClosed) :
    ({ s with now := later } : TCPSession τ).hasClosed := by
  unfold hasClosed at hclosed ⊢
  rcases Bool.or_eq_true_iff.mp hclosed with hdead | htimeout
  · rw [hdead, Bool.true_or]
  · rw [timeout_later hlater htimeout, Bool.or_true]

/-! ## The functions on the back queue -/

theorem ages_emit (points : List TracePoint) (s : TCPSession τ) : Ages s (s.emit points) :=
  .of_eq rfl rfl rfl rfl rfl

theorem ages_popAcked (s : TCPSession τ) : Ages s s.popAcked := by
  obtain ⟨_, _, _, heq, -⟩ := s.popAcked_eq
  rw [heq]
  exact .of_eq rfl rfl rfl rfl rfl

theorem ages_sendBackSegment (d : TCPDatagram) (s : TCPSession τ) :
    Ages s (sendBackSegment d s).2.2 := by
  unfold sendBackSegment
  split
  · exact .refl s
  · dsimp only
    split
    · exact .refl s
    · exact ages_emit _ s

variable [ITunnel τ]

theorem sameFlow_switchState (state : TCPState) (s : TCPSession τ) :
    SameFlow s (s.switchState state) := by
  unfold switchState
  split
  · exact .refl s
  · dsimp only
    split <;> exact ⟨rfl, rfl⟩

theorem ages_switchState {state : TCPState} (hstate : state ≠ .established) (s : TCPSession τ) :
    Ages s (s.switchState state) := by
  have hreached := switchState_mState state s
  refine ⟨sameFlow_switchState state s, ?_, ?_, ?_⟩
  · unfold switchState
    split
    · rfl
    · dsimp only
      split <;> rfl
  · intro hdead
    unfold switchState
    split
    · exact hdead
    · dsimp only
      split
      · rfl
      · exact hdead
  · intro h
    rw [hreached] at h
    exact absurd h hstate

theorem ages_rstSent (s : TCPSession τ) : Ages s s.rstSent := by
  refine Ages.trans ?_ (ages_emit _ _)
  refine Ages.trans ?_ (ages_emit _ _)
  exact .of_eq rfl rfl rfl rfl rfl

theorem ages_resetConnection (s : TCPSession τ) : Ages s s.resetConnection := by
  rw [resetConnection_eq]
  exact (ages_rstSent s).trans (ages_switchState (by decide) _)

theorem ages_sendBackData (s : TCPSession τ) : Ages s s.sendBackData := by
  have hqueued (s : TCPSession τ) (queue : List TCPDatagram) : Ages s { s with mBackQueue := queue } :=
    .of_eq rfl rfl rfl rfl rfl
  have hhand (s : TCPSession τ) (d : TCPDatagram) : Ages s (sendBackSegment d s).2.2 :=
    ages_sendBackSegment d s
  have hresume (s : TCPSession τ) : Ages s s.resumeIfRoom := by
    unfold resumeIfRoom
    split <;> exact .of_eq rfl rfl rfl rfl rfl
  exact sendBackData_relation .trans hqueued hhand ages_resetConnection hresume s

theorem ages_enqueueBack (flag : U8) (data : Bytes) (s : TCPSession τ) :
    Ages s (s.enqueueBack flag data) := .of_eq rfl rfl rfl rfl rfl

theorem ages_leave (s : TCPSession τ) : Ages s s.leave := by
  unfold leave
  split <;> exact ages_switchState (by decide) s

theorem ages_flushBackQueue (s : TCPSession τ) : Ages s s.flushBackQueue := by
  have hpop := ages_popAcked s
  by_cases hfin : s.popAcked.FinDue
  · by_cases hle : s.mLocalNext ≤ s.mLocalSeq
    · rw [flushBackQueue_fin hfin hle]
      have hpushed := hpop.trans (ages_enqueueBack (FIN ||| ACK) [] s.popAcked)
      exact (hpushed.trans (ages_sendBackData _)).trans (ages_leave _)
    · rw [flushBackQueue_fin_refused hfin (by bv_omega)]
      exact hpop.trans (ages_emit _ _)
  · rw [flushBackQueue_of_not_finDue hfin]
    exact hpop.trans (ages_sendBackData _)

theorem ages_pushInBackQueue (flag : U8) (data : Bytes) (s : TCPSession τ) :
    Ages s (pushInBackQueue flag data s).2 := by
  by_cases hle : s.mLocalNext ≤ s.mLocalSeq
  · rw [pushInBackQueue_of_le hle]
    exact ((ages_enqueueBack flag data s).trans (ages_popAcked _)).trans (ages_sendBackData _)
  · rw [pushInBackQueue_refused (by bv_omega)]
    exact ages_emit _ s

/-! ## Packets -/

-- A packet, too, is of one flow and under one reading of the clock.
theorem sameFlow_back : BackRelation (SameFlow (τ := τ)) where
  refl := .refl
  trans := .trans
  pop s := (ages_popAcked s).toSameFlow
  send s := (ages_sendBackData s).toSameFlow
  number flag s := (ages_enqueueBack flag [] s).toSameFlow
  refuse flag s := (ages_emit [.refused flag] s).toSameFlow
  switch := sameFlow_switchState
  rst s := (ages_rstSent s).toSameFlow
  finish _ := ⟨rfl, rfl⟩
  upload _ _ := ⟨rfl, rfl⟩

theorem sameFlow_onReceiveSYN {ip : Packet} (h : onReceiveSYN ip s = some t) : SameFlow s t := by
  have hhandshake {u : TCPSession τ} (hu : SameFlow s u) : SameFlow s (handshake ip u) := by
    have hnumbered : SameFlow u (u.synNumbered ip) := ⟨rfl, rfl⟩
    exact (hu.trans hnumbered).trans (sameFlow_back.handshake ip u)
  unfold onReceiveSYN at h
  split at h
  · cases h
    exact sameFlow_back.flush s
  · split at h
    · cases h
    · cases h
    · cases h
    · cases h
      exact hhandshake ⟨rfl, rfl⟩

theorem sameFlow_onReceiveFIN (ip : Packet) (s : TCPSession τ) :
    SameFlow s (onReceiveFIN ip s) := by
  have hnumbered : SameFlow s (s.finNumbered ip) := ⟨rfl, rfl⟩
  exact hnumbered.trans (sameFlow_back.onReceiveFIN ip s)

theorem sameFlow_dispatchFlags {ip : Packet} (h : dispatchFlags ip s = some t) : SameFlow s t := by
  unfold dispatchFlags at h
  split at h
  · exact sameFlow_onReceiveSYN h
  · split at h
    · cases h
      exact sameFlow_onReceiveFIN ip s
    · split at h
      · cases h
        exact sameFlow_switchState .closed s
      · dsimp only at h
        split at h
        · refine SameFlow.trans ?_ (sameFlow_back.onReceiveACK h)
          exact ⟨rfl, rfl⟩
        · split at h <;> cases h <;> exact ⟨rfl, rfl⟩

theorem sameFlow_accept {ip : Packet} (h : accept ip s = some t) : SameFlow s t := by
  obtain ⟨u, hu, rfl⟩ := Option.map_eq_some_iff.mp h
  have hcounted : SameFlow s (s.countAccepted ip) := by
    obtain ⟨total, trace, heq⟩ := s.countAccepted_eq ip
    rw [heq]
    exact ⟨rfl, rfl⟩
  have hnoted (v : TCPSession τ) : SameFlow v v.noteTime := ⟨rfl, rfl⟩
  exact (hcounted.trans (sameFlow_dispatchFlags hu)).trans (hnoted u)

/-! ## Calls from the tunnel -/

theorem ages_onRemoteFinished (s : TCPSession τ) : Ages s s.onRemoteFinished := by
  have hfinished : Ages s { s with mRemoteFinished := true } := .of_eq rfl rfl rfl rfl rfl
  exact hfinished.trans (ages_flushBackQueue _)

theorem ages_onTunnelDisconnected (reason : U8) (s : TCPSession τ) :
    Ages s (s.onTunnelDisconnected reason) := by
  unfold onTunnelDisconnected
  split
  · exact ages_onRemoteFinished s
  · exact ages_onRemoteFinished s
  · exact ages_switchState (by decide) s
  · exact ages_switchState (by decide) s
  · exact ages_switchState (by decide) s
  · exact ages_switchState (by decide) s
  · exact ages_resetConnection s

theorem ages_onTunnelWritable (s : TCPSession τ) : Ages s s.onTunnelWritable := by
  have hdrained : Ages s s.drained := .of_eq rfl rfl rfl rfl rfl
  have hcounted (n : Nat) (s : TCPSession τ) : Ages s (s.countSent n) := by
    unfold countSent
    split <;> exact .of_eq rfl rfl rfl rfl rfl
  unfold onTunnelWritable
  split
  · exact .of_eq rfl rfl rfl rfl rfl
  · dsimp only
    split
    · exact (hdrained.trans (ages_onTunnelDisconnected _ _)).trans (hcounted _ _)
    · exact hdrained.trans (hcounted _ _)

theorem ages_relayLoop (fuel : Nat) (data : Bytes) (s : TCPSession τ) :
    Ages s (relayLoop fuel data s).2 := by
  induction fuel generalizing data s with
  | zero => exact .refl s
  | succ fuel ih =>
    have hpush := ages_pushInBackQueue ACK (data.take TCP_IP_PAYLOAD_SIZE) s
    unfold relayLoop
    split
    · exact .refl s
    · split
      next heq =>
        rw [heq] at hpush
        exact hpush
      next heq =>
        rw [heq] at hpush
        exact hpush.trans (ih _ _)

-- Up to its last line `onTunnelDataBack` is like the other calls.
theorem onTunnelDataBack_ages (data : Bytes) (s : TCPSession τ) :
    ∃ t, Ages s t ∧ s.onTunnelDataBack data = t.noteTime := by
  have hcounted (i : Nat) (s : TCPSession τ) : Ages s (s.countRecv i) := by
    unfold countRecv
    split <;> exact .of_eq rfl rfl rfl rfl rfl
  have hpaused (s : TCPSession τ) : Ages s s.pauseIfFull := by
    unfold pauseIfFull
    split <;> exact .of_eq rfl rfl rfl rfl rfl
  have hpause : Ages s { s with mTunnel := ITunnel.pauseReceiveData s.mTunnel } :=
    .of_eq rfl rfl rfl rfl rfl
  by_cases hdata : data = []
  · have hfinished := hpause.trans (ages_onRemoteFinished _)
    rw [onTunnelDataBack, if_pos hdata]
    exact ⟨_, hfinished, rfl⟩
  · have hrelay := ages_relayLoop data.length data s
    have hrelayed := (hrelay.trans (hcounted (relayLoop data.length data s).1 _)).trans (hpaused _)
    rw [onTunnelDataBack, if_neg hdata]
    exact ⟨_, hrelayed, rfl⟩

end TCPSession

end NetCore
