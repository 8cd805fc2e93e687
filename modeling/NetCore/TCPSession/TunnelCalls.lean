import NetCore.TCPSession.Accept

/-!
# What a session does to its tunnel

The functions on the back queue only ever resume or destroy the tunnel.  `ForwardFrame` adds the calls a
packet or a delivery can make besides: with the exception of a payload that `accept` queues, nothing
the application or the remote does touches the forward queue.
-/

namespace NetCore
namespace TCPSession

-- What a tunnel keeps when the functions on the back queue call it.
structure BackTunnelRule {τ : Type} [ITunnel τ] (P : τ → Prop) : Prop where
  resume {t} : P t → P (ITunnel.resumeReceiveData t)
  destroy {t} : P t → P (ITunnel.destroyTunnel t)

namespace BackTunnelRule

variable {τ : Type} [ITunnel τ] {P : τ → Prop} {s : TCPSession τ}

theorem switchState (rule : BackTunnelRule P) (state : TCPState) (h : P s.mTunnel) :
    P (s.switchState state).mTunnel := by
  unfold TCPSession.switchState
  split
  · exact h
  · simp only
    split
    · exact rule.destroy h
    · exact h

theorem resetConnection (rule : BackTunnelRule P) (h : P s.mTunnel) :
    P s.resetConnection.mTunnel := by
  have hsent : P s.rstSent.mTunnel := by
    rw [rstSent_mTunnel]
    exact h
  rw [resetConnection_eq]
  exact rule.switchState .closed hsent

omit [ITunnel τ] in
theorem popAcked (h : P s.mTunnel) : P s.popAcked.mTunnel := by
  obtain ⟨_, _, _, heq, -⟩ := s.popAcked_eq
  rw [heq]
  exact h

omit [ITunnel τ] in
theorem sendBackSegment (d : TCPDatagram) (h : P s.mTunnel) :
    P (sendBackSegment d s).2.2.mTunnel := by
  unfold TCPSession.sendBackSegment
  split
  · exact h
  · simp only
    split <;> exact h

theorem sendLoop (rule : BackTunnelRule P) (limit w : U32) (packet : U8)
    (done rest : List TCPDatagram) (h : P s.mTunnel) :
    P (sendLoop limit w packet done rest s).2.mTunnel := by
  have hreset {s : TCPSession τ} (queue : List TCPDatagram) (h : P s.mTunnel) :
      P (TCPSession.resetConnection { s with mBackQueue := queue }).mTunnel :=
    rule.resetConnection (s := { s with mBackQueue := queue }) h
  induction rest generalizing w packet done s with
  | nil => exact h
  | cons d rest ih =>
    rw [TCPSession.sendLoop]
    split
    · exact h
    · split
      · dsimp only
        exact hreset _ h
      · simp only
        split
        · split
          · split
            · exact ih _ _ _ (sendBackSegment d h)
            · exact sendBackSegment d h
          · exact ih _ _ _ h
        · exact h

theorem sendBackData (rule : BackTunnelRule P) (h : P s.mTunnel) : P s.sendBackData.mTunnel := by
  have hloop := rule.sendLoop s.sendLimit 0 0 [] s.mBackQueue h
  unfold TCPSession.sendBackData
  split
  next hresult =>
    rw [hresult] at hloop
    exact hloop
  next hresult =>
    rw [hresult] at hloop
    unfold resumeIfRoom
    split
    · exact rule.resume hloop
    · exact hloop

theorem flushBackQueue (rule : BackTunnelRule P) (h : P s.mTunnel) :
    P s.flushBackQueue.mTunnel := by
  have hpop := popAcked h
  by_cases hfin : s.popAcked.FinDue
  · by_cases hle : s.mLocalNext ≤ s.mLocalSeq
    · rw [flushBackQueue_fin hfin hle]
      exact rule.switchState _ (rule.sendBackData (s := s.popAcked.enqueueBack _ _) hpop)
    · rw [flushBackQueue_fin_refused hfin (by bv_omega)]
      exact hpop
  · rw [flushBackQueue_of_not_finDue hfin]
    exact rule.sendBackData hpop

theorem onTunnelDisconnected (rule : BackTunnelRule P) (reason : U8) (h : P s.mTunnel) :
    P (s.onTunnelDisconnected reason).mTunnel := by
  have hfinished : P s.onRemoteFinished.mTunnel :=
    rule.flushBackQueue (s := { s with mRemoteFinished := true }) h
  unfold TCPSession.onTunnelDisconnected
  split
  · exact hfinished
  · exact hfinished
  · exact rule.switchState _ h
  · exact rule.switchState _ h
  · exact rule.switchState _ h
  · exact rule.switchState _ h
  · exact rule.resetConnection h

theorem pushInBackQueue (rule : BackTunnelRule P) (flag : U8) (data : Bytes) (h : P s.mTunnel) :
    P (pushInBackQueue flag data s).2.mTunnel := by
  by_cases hle : s.mLocalNext ≤ s.mLocalSeq
  · rw [pushInBackQueue_of_le hle]
    exact rule.sendBackData (popAcked (s := s.enqueueBack flag data) h)
  · rw [pushInBackQueue_refused (by bv_omega)]
    exact h

theorem onReceiveFIN (rule : BackTunnelRule P) (ip : Packet) (h : P s.mTunnel) :
    P (onReceiveFIN ip s).mTunnel := by
  have hpush := rule.pushInBackQueue (s := s.finNumbered ip) ACK [] h
  by_cases hmoves : s.FinMoves
  · by_cases hle : (s.finNumbered ip).mLocalNext ≤ s.mLocalSeq
    · rw [onReceiveFIN_moves hle hmoves]
      exact rule.switchState _ hpush
    · rw [onReceiveFIN_refused (by bv_omega)]
      exact h
  · rw [onReceiveFIN_stays hmoves]
    exact hpush

theorem relayLoop (rule : BackTunnelRule P) (fuel : Nat) (data : Bytes) (h : P s.mTunnel) :
    P (relayLoop fuel data s).2.mTunnel := by
  induction fuel generalizing data s with
  | zero => exact h
  | succ fuel ih =>
    have hpush := rule.pushInBackQueue ACK (data.take TCP_IP_PAYLOAD_SIZE) h
    unfold TCPSession.relayLoop
    split
    · exact h
    · split
      next heq =>
        rw [heq] at hpush
        exact hpush
      next heq =>
        rw [heq] at hpush
        exact ih _ hpush

end BackTunnelRule

/-! ## Calls that leave the forward queue alone -/

-- `R` is kept by the calls that have nothing to do with sending.
structure TunnelRelation {τ : Type} [ITunnel τ] (R : τ → τ → Prop) : Prop where
  refl (t : τ) : R t t
  trans {t t' t'' : τ} : R t t' → R t' t'' → R t t''
  keepAlive (t : τ) : R t (ITunnel.keepAlive t)
  resume (t : τ) : R t (ITunnel.resumeReceiveData t)
  pause (t : τ) : R t (ITunnel.pauseReceiveData t)
  destroy (t : τ) : R t (ITunnel.destroyTunnel t)

theorem calls_relation {τ : Type} [ITunnel τ] : TunnelRelation (ITunnel.Calls (τ := τ)) where
  refl _ := .refl
  trans {t t' t''} h h' := by
    induction h' with
    | refl => exact h
    | keepAlive _ ih => exact .keepAlive ih
    | requestSendData _ ih => exact .requestSendData ih
    | sent _ hsent ih => exact .sent ih hsent
    | failed _ hfailed ih => exact .failed ih hfailed
    | pauseSendData _ ih => exact .pauseSendData ih
    | pauseReceiveData _ ih => exact .pauseReceiveData ih
    | resumeReceiveData _ ih => exact .resumeReceiveData ih
    | destroyTunnel _ ih => exact .destroyTunnel ih
  keepAlive _ := .keepAlive .refl
  resume _ := .resumeReceiveData .refl
  pause _ := .pauseReceiveData .refl
  destroy _ := .destroyTunnel .refl

structure ForwardFrame {τ : Type} (R : τ → τ → Prop) (s s' : TCPSession τ) : Prop where
  forwardQueue : s'.mForwardQueue = s.mForwardQueue
  forwardQueueDataSize : s'.mForwardQueueDataSize = s.mForwardQueueDataSize
  tunnel : R s.mTunnel s'.mTunnel

namespace TunnelRelation

variable {τ : Type} [ITunnel τ] {R : τ → τ → Prop} {s t u : TCPSession τ}

theorem rule (rel : TunnelRelation R) (t : τ) : BackTunnelRule (R t) where
  resume h := rel.trans h (rel.resume _)
  destroy h := rel.trans h (rel.destroy _)

theorem frame_trans (rel : TunnelRelation R) (h : ForwardFrame R s t) (h' : ForwardFrame R t u) :
    ForwardFrame R s u :=
  ⟨h'.forwardQueue.trans h.forwardQueue, h'.forwardQueueDataSize.trans h.forwardQueueDataSize,
    rel.trans h.tunnel h'.tunnel⟩

-- Nothing the tunnel or the forward queue is about.
theorem frame_of_eq (rel : TunnelRelation R) (hqueue : t.mForwardQueue = s.mForwardQueue)
    (hsize : t.mForwardQueueDataSize = s.mForwardQueueDataSize) (htunnel : t.mTunnel = s.mTunnel) :
    ForwardFrame R s t := by
  refine ⟨hqueue, hsize, ?_⟩
  rw [htunnel]
  exact rel.refl _

omit [ITunnel τ] in
theorem of_backFrame (hframe : BackFrame s t) (htunnel : R s.mTunnel t.mTunnel) :
    ForwardFrame R s t :=
  ⟨hframe.forwardQueue, hframe.forwardQueueDataSize, htunnel⟩

theorem switchState (rel : TunnelRelation R) (state : TCPState) (s : TCPSession τ) :
    ForwardFrame R s (s.switchState state) :=
  of_backFrame (switchState_frame state s) ((rel.rule _).switchState state (rel.refl _))

theorem flush (rel : TunnelRelation R) (s : TCPSession τ) : ForwardFrame R s s.flushBackQueue :=
  of_backFrame (flushBackQueue_frame s) ((rel.rule _).flushBackQueue (rel.refl _))

theorem push (rel : TunnelRelation R) (flag : U8) (data : Bytes) (s : TCPSession τ) :
    ForwardFrame R s (pushInBackQueue flag data s).2 :=
  of_backFrame (pushInBackQueue_frame flag data s)
    ((rel.rule _).pushInBackQueue flag data (rel.refl _))

/-! ### A packet -/

theorem acceptFirstPayload (rel : TunnelRelation R) (ip : Packet) (s : TCPSession τ) :
    ForwardFrame R s (acceptFirstPayload ip s) ∨
      (s.Queues ip ∧ ForwardFrame R (s.uploaded ip) (acceptFirstPayload ip s)) := by
  rcases acceptFirstPayload_cases ip s with ⟨hqueues, heq⟩ | ⟨-, -, heq⟩ | ⟨-, heq⟩ <;> rw [heq]
  · exact .inr ⟨hqueues, rel.flush _⟩
  · exact .inl (rel.frame_trans (rel.push ACK [] s) (rel.flush _))
  · exact .inl (rel.flush s)

theorem acceptPayload (rel : TunnelRelation R) (ip : Packet) (s : TCPSession τ) :
    ForwardFrame R s (acceptPayload ip s) ∨
      (s.Queues ip ∧ ForwardFrame R (s.uploaded ip) (acceptPayload ip s)) := by
  rcases acceptPayload_cases ip s with ⟨hqueues, heq⟩ | ⟨-, -, heq⟩ | ⟨-, heq⟩ <;> rw [heq]
  · exact .inr ⟨hqueues, rel.push ACK [] _⟩
  · exact .inl (rel.frame_trans (rel.push ACK [] s) (rel.flush _))
  · exact .inl (rel.flush s)

-- What a packet does: all of it behind the forward queue, or a payload queued in between.
def Admits (R : τ → τ → Prop) (ip : Packet) (s s' : TCPSession τ) : Prop :=
  ForwardFrame R s s' ∨ ∃ t, ForwardFrame R s t ∧ t.Queues ip ∧ ForwardFrame R (t.uploaded ip) s'

theorem admits_frame (rel : TunnelRelation R) {ip : Packet} (h : ForwardFrame R s t)
    (h' : Admits R ip t u) : Admits R ip s u := by
  rcases h' with h' | ⟨v, htv, hqueues, hvu⟩
  · exact .inl (rel.frame_trans h h')
  · exact .inr ⟨v, rel.frame_trans h htv, hqueues, hvu⟩

theorem onReceiveACK (rel : TunnelRelation R) {ip : Packet}
    (h : onReceiveACK ip s = some t) : Admits R ip s t := by
  have hpayload {u v : TCPSession τ} (hu : ForwardFrame R s u)
      (h : ForwardFrame R u v ∨ (u.Queues ip ∧ ForwardFrame R (u.uploaded ip) v)) : Admits R ip s v := by
    rcases h with h | ⟨hqueues, h⟩
    · exact .inl (rel.frame_trans hu h)
    · exact .inr ⟨u, hu, hqueues, h⟩
  have hmoved (state : TCPState) : Admits R ip s (s.switchState state).flushBackQueue :=
    .inl (rel.frame_trans (rel.switchState state s) (rel.flush _))
  rcases onReceiveACK_cases h with ⟨-, rfl⟩ | ⟨-, rfl⟩ | ⟨-, rfl⟩ | ⟨-, rfl⟩ | ⟨-, rfl⟩ |
    ⟨-, -, -, -, -, rfl⟩
  · exact hpayload (rel.switchState .established s) (rel.acceptFirstPayload ip _)
  · exact hmoved _
  · exact hmoved _
  · exact hmoved _
  · exact hpayload (rel.frame_of_eq rfl rfl rfl) (rel.acceptPayload ip s)
  · exact .inl (rel.flush s)

-- The SYN of a session, or a later one.
theorem onReceiveSYN (rel : TunnelRelation R) {ip : Packet} (h : onReceiveSYN ip s = some t) :
    ForwardFrame R s t := by
  have hhandshake (u : TCPSession τ) : ForwardFrame R u (handshake ip u) := by
    have hnumbered : ForwardFrame R u (u.synNumbered ip) := rel.frame_of_eq rfl rfl rfl
    have hpush := rel.frame_trans hnumbered (rel.push (SYN ||| ACK) [] _)
    unfold handshake
    split
    next heq =>
      rw [heq] at hpush
      exact hpush
    next heq =>
      rw [heq] at hpush
      exact rel.frame_trans hpush (rel.switchState _ _)
  unfold TCPSession.onReceiveSYN at h
  split at h
  · cases h
    exact rel.flush s
  · split at h
    · cases h
    · cases h
    · cases h
    · cases h
      have hoptions {u : TCPSession τ} (hqueue : u.mForwardQueue = s.mForwardQueue)
          (hsize : u.mForwardQueueDataSize = s.mForwardQueueDataSize)
          (htunnel : u.mTunnel = s.mTunnel) : ForwardFrame R s (handshake ip u) :=
        rel.frame_trans (rel.frame_of_eq hqueue hsize htunnel) (hhandshake u)
      exact hoptions rfl rfl rfl

theorem accept (rel : TunnelRelation R) {ip : Packet} (h : accept ip s = some t) :
    Admits R ip s t := by
  obtain ⟨u, hu, rfl⟩ := Option.map_eq_some_iff.mp h
  have hcounted : ForwardFrame R s (s.countAccepted ip) := by
    obtain ⟨total, trace, heq⟩ := s.countAccepted_eq ip
    rw [heq]
    exact rel.frame_of_eq rfl rfl rfl
  have hnoted {v : TCPSession τ} (h : Admits R ip s v) : Admits R ip s v.noteTime := by
    have hv : ForwardFrame R v v.noteTime := rel.frame_of_eq rfl rfl rfl
    rcases h with h | ⟨w, hw, hqueues, h⟩
    · exact .inl (rel.frame_trans h hv)
    · exact .inr ⟨w, hw, hqueues, rel.frame_trans h hv⟩
  refine hnoted (rel.admits_frame hcounted ?_)
  unfold dispatchFlags at hu
  split at hu
  · exact .inl (rel.onReceiveSYN hu)
  · split at hu
    · cases hu
      have hnumbers : ForwardFrame R (s.countAccepted ip) ((s.countAccepted ip).finNumbered ip) :=
        rel.frame_of_eq rfl rfl rfl
      refine .inl (rel.frame_trans hnumbers ?_)
      exact of_backFrame (onReceiveFIN_frame ip _)
        ((rel.rule _).onReceiveFIN (s := s.countAccepted ip) ip (rel.refl _))
    · split at hu
      · cases hu
        exact .inl (rel.switchState .closed _)
      · simp only at hu
        split at hu
        · refine rel.admits_frame ?_ (rel.onReceiveACK hu)
          exact rel.frame_of_eq rfl rfl rfl
        · split at hu
          · cases hu
            exact .inl ⟨rfl, rfl, rel.keepAlive _⟩
          · cases hu
            exact .inl (rel.frame_of_eq rfl rfl rfl)

/-! ### Calls from the tunnel -/

theorem onRemoteFinished (rel : TunnelRelation R) (s : TCPSession τ) :
    ForwardFrame R s s.onRemoteFinished := by
  have hfinished : ForwardFrame R s { s with mRemoteFinished := true } := rel.frame_of_eq rfl rfl rfl
  exact rel.frame_trans hfinished (rel.flush _)

theorem onTunnelDisconnected (rel : TunnelRelation R) (reason : U8) (s : TCPSession τ) :
    ForwardFrame R s (s.onTunnelDisconnected reason) := by
  unfold TCPSession.onTunnelDisconnected
  split
  · exact rel.onRemoteFinished s
  · exact rel.onRemoteFinished s
  · exact rel.switchState _ s
  · exact rel.switchState _ s
  · exact rel.switchState _ s
  · exact rel.switchState _ s
  · exact of_backFrame (resetConnection_frame s) ((rel.rule _).resetConnection (rel.refl _))

theorem relayLoop (rel : TunnelRelation R) (fuel : Nat) (data : Bytes) (s : TCPSession τ) :
    ForwardFrame R s (relayLoop fuel data s).2 := by
  refine ⟨(relayLoop_frame fuel data s).forwardQueue, (relayLoop_frame fuel data s).forwardQueueDataSize,
    (rel.rule _).relayLoop fuel data (rel.refl _)⟩

theorem onTunnelDataBack (rel : TunnelRelation R) (data : Bytes) (s : TCPSession τ) :
    ForwardFrame R s (s.onTunnelDataBack data) := by
  have hpaused (t : TCPSession τ) :
      ForwardFrame R t { t with mTunnel := ITunnel.pauseReceiveData t.mTunnel } := ⟨rfl, rfl, rel.pause _⟩
  have hnoted (t : TCPSession τ) : ForwardFrame R t t.noteTime := rel.frame_of_eq rfl rfl rfl
  unfold TCPSession.onTunnelDataBack
  refine rel.frame_trans ?_ (hnoted _)
  split
  · exact rel.frame_trans (hpaused s) (rel.onRemoteFinished _)
  · have hcounted (i : Nat) (t : TCPSession τ) : ForwardFrame R t (t.countRecv i) := by
      unfold countRecv
      split <;> exact rel.frame_of_eq rfl rfl rfl
    have hfull (t : TCPSession τ) : ForwardFrame R t t.pauseIfFull := by
      unfold pauseIfFull
      split
      · exact hpaused t
      · exact rel.frame_of_eq rfl rfl rfl
    have hrelayed := rel.relayLoop data.length data s
    exact rel.frame_trans (rel.frame_trans hrelayed (hcounted _ _)) (hfull _)

end TunnelRelation

end TCPSession

end NetCore
