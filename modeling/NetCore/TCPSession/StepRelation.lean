import NetCore.TCPSession.StepInvariant

/-!
# Relations between a session and what a step makes of it

A `FlushRelation` is kept by everything a flush or a push without data is made of, so it is kept by
both; a `BackRelation` by what is queued for the tunnel as well, so by what `accept` does on a packet
once its numbers are taken.  A `StepRelation` is kept by the rest of a step, too, but for the two calls
of the tunnel that move data, once the session has left LISTEN; a `RunRelation` before that as well.
-/

namespace NetCore
namespace TCPSession

variable {τ : Type} [ITunnel τ] {R : TCPSession τ → TCPSession τ → Prop}

structure FlushRelation (R : TCPSession τ → TCPSession τ → Prop) : Prop where
  refl (s) : R s s
  trans {s t u} : R s t → R t u → R s u
  pop (s) : R s s.popAcked
  send (s) : R s s.sendBackData
  number (flag : U8) (s) : R s (s.enqueueBack flag [])
  refuse (flag : U8) (s) : R s (s.emit [.refused flag])
  switch (state : TCPState) (s) : R s (s.switchState state)
  rst (s) : R s s.rstSent
  finish (s) : R s { s with mRemoteFinished := true }

structure BackRelation (R : TCPSession τ → TCPSession τ → Prop) : Prop extends FlushRelation R where
  upload (ip : Packet) (s) : R s (s.uploaded ip)

-- A relation that what the send loop does to the segments does not matter for.
theorem sendLoop_relation (trans : ∀ {s t u}, R s t → R t u → R s u)
    (queue : ∀ (s : TCPSession τ) queue, R s { s with mBackQueue := queue })
    (hand : ∀ (s : TCPSession τ) d, R s (sendBackSegment d s).2.2)
    (reset : ∀ s : TCPSession τ, R s s.resetConnection)
    (limit w : U32) (packet : U8) (done rest : List TCPDatagram) (s : TCPSession τ) :
    R s (sendLoop limit w packet done rest s).2 := by
  induction rest generalizing w packet done s with
  | nil => exact queue s _
  | cons d rest ih =>
    rw [sendLoop]
    split
    · exact queue s _
    · split
      · dsimp only
        exact trans (queue s _) (reset _)
      · dsimp only
        split
        · split
          · have hsend := hand s d
            split
            · exact trans hsend (ih _ _ _ _)
            · exact trans hsend (queue _ _)
          · exact ih _ _ _ s
        · exact queue s _

theorem sendBackData_relation (trans : ∀ {s t u}, R s t → R t u → R s u)
    (queue : ∀ (s : TCPSession τ) queue, R s { s with mBackQueue := queue })
    (hand : ∀ (s : TCPSession τ) d, R s (sendBackSegment d s).2.2)
    (reset : ∀ s : TCPSession τ, R s s.resetConnection)
    (resume : ∀ s : TCPSession τ, R s s.resumeIfRoom) (s : TCPSession τ) : R s s.sendBackData := by
  have hloop := sendLoop_relation (R := R) trans queue hand reset s.sendLimit 0 0 [] s.mBackQueue s
  unfold sendBackData
  split
  next hresult =>
    rw [hresult] at hloop
    exact hloop
  next hresult =>
    rw [hresult] at hloop
    exact trans hloop (resume _)

namespace FlushRelation

theorem reset (h : FlushRelation R) (s : TCPSession τ) : R s s.resetConnection := by
  rw [resetConnection_eq]
  exact h.trans (h.rst s) (h.switch .closed _)

theorem leave (h : FlushRelation R) (s : TCPSession τ) : R s s.leave := h.switch _ s

theorem flush (h : FlushRelation R) (s : TCPSession τ) : R s s.flushBackQueue := by
  by_cases hfin : s.popAcked.FinDue
  · by_cases hle : s.mLocalNext ≤ s.mLocalSeq
    · rw [flushBackQueue_fin hfin hle]
      have hpushed := h.trans (h.pop s) (h.number (FIN ||| ACK) s.popAcked)
      exact h.trans (h.trans hpushed (h.send _)) (h.leave _)
    · rw [flushBackQueue_fin_refused hfin (by bv_omega)]
      exact h.trans (h.pop s) (h.refuse _ _)
  · rw [flushBackQueue_of_not_finDue hfin]
    exact h.trans (h.pop s) (h.send _)

-- A push once its segment is in the queue.
theorem settle (h : FlushRelation R) {s t : TCPSession τ} (hnumbered : R s t) :
    R s t.popAcked.sendBackData :=
  h.trans (h.trans hnumbered (h.pop t)) (h.send _)

theorem push (h : FlushRelation R) (flag : U8) (s : TCPSession τ) :
    R s (pushInBackQueue flag [] s).2 := by
  by_cases hle : s.mLocalNext ≤ s.mLocalSeq
  · rw [pushInBackQueue_of_le hle]
    exact h.settle (h.number flag s)
  · rw [pushInBackQueue_refused (by bv_omega)]
    exact h.refuse flag s

theorem onReceiveFIN (h : FlushRelation R) (ip : Packet) (s : TCPSession τ) :
    R (s.finNumbered ip) (onReceiveFIN ip s) := by
  have hpush := h.push ACK (s.finNumbered ip)
  by_cases hmoves : s.FinMoves
  · by_cases hle : (s.finNumbered ip).mLocalNext ≤ s.mLocalSeq
    · rw [onReceiveFIN_moves hle hmoves]
      exact h.trans hpush (h.switch _ _)
    · rw [onReceiveFIN_refused (by bv_omega)]
      exact h.refuse _ _
  · rw [onReceiveFIN_stays hmoves]
    exact hpush

-- The answer to a SYN, its numbers and options taken.
theorem handshake (h : FlushRelation R) (ip : Packet) (s : TCPSession τ) :
    R (s.synNumbered ip) (handshake ip s) := by
  have hpush := h.push (SYN ||| ACK) (s.synNumbered ip)
  unfold TCPSession.handshake
  split
  next heq =>
    rw [heq] at hpush
    exact hpush
  next heq =>
    rw [heq] at hpush
    exact h.trans hpush (h.switch _ _)

theorem onRemoteFinished (h : FlushRelation R) (s : TCPSession τ) : R s s.onRemoteFinished :=
  h.trans (h.finish s) (h.flush _)

theorem onTunnelDisconnected (h : FlushRelation R) (reason : U8) (s : TCPSession τ) :
    R s (s.onTunnelDisconnected reason) := by
  unfold TCPSession.onTunnelDisconnected
  split
  · exact h.onRemoteFinished s
  · exact h.onRemoteFinished s
  · exact h.switch _ s
  · exact h.switch _ s
  · exact h.switch _ s
  · exact h.switch _ s
  · exact h.reset s

end FlushRelation

namespace BackRelation

-- What follows from a relation, piece by piece.
theorem weaken {R' : TCPSession τ → TCPSession τ → Prop} (h : BackRelation R)
    (refl : ∀ s, R' s s) (trans : ∀ {s t u}, R' s t → R' t u → R' s u)
    (weaker : ∀ {s t}, R s t → R' s t) : BackRelation R' where
  refl := refl
  trans := trans
  pop s := weaker (h.pop s)
  send s := weaker (h.send s)
  number flag s := weaker (h.number flag s)
  refuse flag s := weaker (h.refuse flag s)
  switch state s := weaker (h.switch state s)
  rst s := weaker (h.rst s)
  upload ip s := weaker (h.upload ip s)
  finish s := weaker (h.finish s)

theorem acceptPayload (h : BackRelation R) (ip : Packet) (s : TCPSession τ) :
    R s (acceptPayload ip s) := by
  rcases acceptPayload_cases ip s with ⟨-, heq⟩ | ⟨-, -, heq⟩ | ⟨-, heq⟩ <;> rw [heq]
  · exact h.trans (h.upload ip s) (h.push ACK _)
  · exact h.trans (h.push ACK s) (h.flush _)
  · exact h.flush s

theorem acceptFirstPayload (h : BackRelation R) (ip : Packet) (s : TCPSession τ) :
    R s (acceptFirstPayload ip s) := by
  rcases acceptFirstPayload_cases ip s with ⟨-, heq⟩ | ⟨-, -, heq⟩ | ⟨-, heq⟩ <;> rw [heq]
  · exact h.trans (h.upload ip s) (h.flush _)
  · exact h.trans (h.push ACK s) (h.flush _)
  · exact h.flush s

theorem onReceiveACK (h : BackRelation R) {ip : Packet} {s t : TCPSession τ}
    (hstep : onReceiveACK ip s = some t) : R s t := by
  have hmoved (state : TCPState) : R s (s.switchState state).flushBackQueue :=
    h.trans (h.switch state s) (h.flush _)
  rcases onReceiveACK_cases hstep with ⟨-, rfl⟩ | ⟨-, rfl⟩ | ⟨-, rfl⟩ | ⟨-, rfl⟩ | ⟨-, rfl⟩ |
    ⟨-, -, -, -, -, rfl⟩
  · exact h.trans (h.switch .established s) (h.acceptFirstPayload ip _)
  · exact hmoved _
  · exact hmoved _
  · exact hmoved _
  · exact h.acceptPayload ip s
  · exact h.flush s

end BackRelation

structure StepRelation (R : TCPSession τ → TCPSession τ → Prop) : Prop extends BackRelation R where
  count (ip : Packet) (s) : R s (s.countAccepted ip)
  /-- A packet or the clock changes numbers, the window, the times or the tunnel. -/
  environment (s : TCPSession τ) (window next remote : U32) (last now : Nat) (rand : U32)
    (tunnel : τ) : R s
      { s with
        mSendWindow := window
        mLocalNext := next
        mRemoteNext := remote
        mLastTime := last
        now := now
        rand := rand
        mTunnel := tunnel }
  written (s) (i n : Nat) : R s { s with mBackQueue := s.mBackQueue.modify i (routerWrote n) }

namespace StepRelation

variable {s s' : TCPSession τ}

theorem noteTime (h : StepRelation R) (s : TCPSession τ) : R s s.noteTime :=
  h.environment s s.mSendWindow s.mLocalNext s.mRemoteNext s.now s.now s.rand s.mTunnel

theorem tunnel (h : StepRelation R) (s : TCPSession τ) (tunnel : τ) :
    R s { s with mTunnel := tunnel } :=
  h.environment s s.mSendWindow s.mLocalNext s.mRemoteNext s.mLastTime s.now s.rand tunnel

theorem accepted (h : StepRelation R) {ip : Packet} {t : TCPSession τ} (haccepted : Accepted ip s t) :
    R s t := by
  cases haccepted with
  | syn => exact h.flush s
  | fin =>
    have hnumbered : R s (s.finNumbered ip) :=
      h.environment s s.mSendWindow _ _ s.mLastTime s.now s.rand s.mTunnel
    exact h.trans hnumbered (h.onReceiveFIN ip s)
  | rst => exact h.switch .closed s
  | stale tunnel =>
    exact h.environment s _ s.mLocalNext s.mRemoteNext s.mLastTime s.now s.rand tunnel
  | ack _ _ hstep =>
    have hnumbered : R s (s.acknowledged ip) :=
      h.environment s _ _ s.mRemoteNext s.mLastTime s.now s.rand s.mTunnel
    exact h.trans hnumbered (h.onReceiveACK hstep)

theorem accept (h : StepRelation R) {ip : Packet} (hopen : s.mState ≠ .listen)
    (hstep : s.accept ip = some s') : R s s' := by
  obtain ⟨t, haccepted, rfl⟩ := accept_accepted hopen hstep
  exact h.trans (h.trans (h.count ip s) (h.accepted haccepted)) (h.noteTime t)

-- What a whole step keeps, if the packet or the call of the tunnel that it may be keeps it.
theorem stepWith (h : StepRelation R) {e : Event τ}
    (packet : ∀ ip, e = .accept ip → s.accept ip = some s' → R s s')
    (dataBack : ∀ data, e = .tunnelDataBack data → data ≠ [] → R s (s.onTunnelDataBack data))
    (writable : e = .tunnelWritable → R s s.onTunnelWritable) (hstep : s.step e = some s') :
    R s s' := by
  cases e with
  | accept ip => exact packet ip rfl hstep
  | tunnelConnected =>
    cases hstep
    exact h.refl s
  | tunnelDisconnected reason =>
    cases hstep
    exact h.onTunnelDisconnected reason s
  | tunnelWritable =>
    cases hstep
    exact writable rfl
  | tunnelDataBack data =>
    cases hstep
    by_cases hdata : data = []
    · rw [TCPSession.onTunnelDataBack, if_pos hdata]
      exact h.trans (h.trans (h.tunnel s _) (h.onRemoteFinished _)) (h.noteTime _)
    · exact dataBack data rfl hdata
  | written i n =>
    cases hstep
    exact h.written s i n
  | environment tunnel now rand =>
    cases hstep
    exact h.environment s s.mSendWindow s.mLocalNext s.mRemoteNext s.mLastTime now rand tunnel

theorem step (h : StepRelation R) {e : Event τ} (hopen : s.mState ≠ .listen)
    (dataBack : ∀ data, e = .tunnelDataBack data → data ≠ [] → R s (s.onTunnelDataBack data))
    (writable : e = .tunnelWritable → R s s.onTunnelWritable) (hstep : s.step e = some s') :
    R s s' :=
  h.stepWith (fun _ _ => h.accept hopen) dataBack writable hstep

end StepRelation

-- A relation that what a SYN brings does not matter for, either.
structure RunRelation (R : TCPSession τ → TCPSession τ → Prop) : Prop extends StepRelation R where
  options (s) (sack : Bool) (mss : U16) (scale : U8) :
    R s { s with mSack := sack, mMSS := mss, mWindowScale := scale }
  bases (ip : Packet) (s) : R s (s.synNumbered ip)

namespace RunRelation

variable {s s' : TCPSession τ}

theorem dispatchFlags (h : RunRelation R) {ip : Packet} {t : TCPSession τ}
    (hdispatch : dispatchFlags ip s = some t) : R s t := by
  by_cases hlisten : NetCore.hasFlag ip.flag SYN ∧ s.mState = .listen
  · have hanswer (u : TCPSession τ) : R u (TCPSession.handshake ip u) :=
      h.trans (h.bases ip u) (h.handshake ip u)
    unfold TCPSession.dispatchFlags at hdispatch
    rw [if_pos hlisten.1, onReceiveSYN, if_neg (not_not.mpr hlisten.2)] at hdispatch
    split at hdispatch
    · cases hdispatch
    · cases hdispatch
    · cases hdispatch
    · cases hdispatch
      exact h.trans (h.options s _ _ _) (hanswer _)
  · exact h.accepted (dispatchFlags_accepted (fun hsyn hstate => hlisten ⟨hsyn, hstate⟩) hdispatch)

theorem accept (h : RunRelation R) {ip : Packet} (hstep : s.accept ip = some s') : R s s' := by
  unfold TCPSession.accept at hstep
  obtain ⟨t, ht, rfl⟩ := Option.map_eq_some_iff.mp hstep
  exact h.trans (h.trans (h.count ip s) (h.dispatchFlags ht)) (h.noteTime t)

-- What every step keeps, in LISTEN as well.
theorem step (h : RunRelation R) {e : Event τ}
    (dataBack : ∀ data, e = .tunnelDataBack data → data ≠ [] → R s (s.onTunnelDataBack data))
    (writable : e = .tunnelWritable → R s s.onTunnelWritable) (hstep : s.step e = some s') :
    R s s' :=
  h.stepWith (fun _ _ => h.accept) dataBack writable hstep

end RunRelation

/-! ## The calls of the tunnel that move data

For a relation that does not look at the data.
-/

namespace FlushRelation

theorem pushData (h : FlushRelation R) (number : ∀ (data : Bytes) s, R s (s.enqueueBack ACK data))
    (data : Bytes) (s : TCPSession τ) : R s (pushInBackQueue ACK data s).2 := by
  by_cases hle : s.mLocalNext ≤ s.mLocalSeq
  · rw [pushInBackQueue_of_le hle]
    exact h.settle (number data s)
  · rw [pushInBackQueue_refused (by bv_omega)]
    exact h.refuse ACK s

theorem relayLoop (h : FlushRelation R) (number : ∀ (data : Bytes) s, R s (s.enqueueBack ACK data))
    (fuel : Nat) (data : Bytes) (s : TCPSession τ) : R s (relayLoop fuel data s).2 := by
  induction fuel generalizing data s with
  | zero => exact h.refl s
  | succ fuel ih =>
    have hpush := h.pushData number (data.take TCP_IP_PAYLOAD_SIZE) s
    unfold TCPSession.relayLoop
    split
    · exact h.refl s
    · split
      next heq =>
        rw [heq] at hpush
        exact hpush
      next heq =>
        rw [heq] at hpush
        exact h.trans hpush (ih _ _)

theorem onTunnelDataBack (h : FlushRelation R)
    (number : ∀ (data : Bytes) s, R s (s.enqueueBack ACK data))
    (count : ∀ (i : Nat) s, R s (s.countRecv i))
    (tunnel : ∀ (s : TCPSession τ) tunnel, R s { s with mTunnel := tunnel })
    (note : ∀ s : TCPSession τ, R s s.noteTime) {data : Bytes} (hdata : data ≠ [])
    (s : TCPSession τ) : R s (s.onTunnelDataBack data) := by
  have hpause (s : TCPSession τ) : R s s.pauseIfFull := by
    unfold pauseIfFull
    split
    · exact tunnel s _
    · exact h.refl s
  rw [TCPSession.onTunnelDataBack, if_neg hdata]
  have hcounted := h.trans (h.relayLoop number data.length data s)
    (count (TCPSession.relayLoop data.length data s).1 _)
  exact h.trans (h.trans hcounted (hpause _)) (note _)

theorem onTunnelWritable (h : FlushRelation R) (drained : ∀ s : TCPSession τ, R s s.drained)
    (count : ∀ (n : Nat) s, R s (s.countSent n))
    (tunnel : ∀ (s : TCPSession τ) tunnel, R s { s with mTunnel := tunnel }) (s : TCPSession τ) :
    R s s.onTunnelWritable := by
  unfold TCPSession.onTunnelWritable
  split
  · exact tunnel s _
  · dsimp only
    split
    · exact h.trans (h.trans (drained s) (h.onTunnelDisconnected _ _)) (count _ _)
    · exact h.trans (drained s) (count _ _)

end FlushRelation

end TCPSession
end NetCore
