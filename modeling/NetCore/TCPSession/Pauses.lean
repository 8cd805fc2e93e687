import NetCore.TCPSession.BackPressure
import NetCore.TCPSession.StepRelation

/-!
# The inputs that leave a pause in force

Only a pause that is in force in CLOSE_WAIT is never released.  It comes there in two ways: with a FIN
of the application that finds the tunnel paused, and with a delivery behind that FIN which fills the
queue.  A run without either keeps the tunnel receiving all through CLOSE_WAIT.
-/

namespace NetCore
namespace TCPSession

open ReceiveGate

variable {τ : Type} [ITunnel τ] [ReceiveGate τ]

def Flows (t : τ) : Prop := Down t ∨ (Stands t ∧ Receives t)

theorem flows_rule : BackTunnelRule (Flows (τ := τ)) where
  resume h := h.elim (fun h => .inl (down_rule.resume h)) fun h => .inr (resume h.1)
  destroy _ := .inl (destroy _)

theorem Flows.still {t t' : τ} (h : Flows t) (hcalls : ITunnel.Calls t t')
    (hstill : ITunnel.Still t t') : Flows t' := by
  rcases h with hdown | ⟨hstands, hreceives⟩
  · exact .inl (down_calls hdown hcalls)
  · have hkept := ReceiveGate.still hstands hstill
    exact .inr ⟨hkept.1, hkept.2 hreceives⟩

-- Nothing a packet brings about pauses the tunnel.
theorem flows_relation :
    BackRelation fun s t : TCPSession τ => Flows s.mTunnel → Flows t.mTunnel where
  refl _ := id
  trans h h' := fun hflows => h' (h hflows)
  pop s := by
    rw [popAcked_mTunnel]
    exact id
  send _ := flows_rule.sendBackData
  number _ _ := id
  refuse _ _ := id
  switch state _ := flows_rule.switchState state
  rst s := by
    rw [rstSent_mTunnel]
    exact id
  finish _ := id
  upload ip s := by
    intro hflows
    rcases s.uploaded_tunnel ip with heq | heq <;> rw [heq]
    · exact hflows
    · exact hflows.still (.requestSendData .refl) .requestSendData

theorem accepted_flows {ip : Packet} {s t : TCPSession τ} (h : Flows s.mTunnel)
    (haccepted : Accepted ip s t) : Flows t.mTunnel := by
  cases haccepted with
  | syn => exact flows_relation.flush s h
  | fin => exact flows_relation.onReceiveFIN ip s h
  | rst => exact flows_rule.switchState _ h
  | stale tunnel _ _ htunnel =>
    rcases htunnel with rfl | rfl
    · exact h
    · exact h.still (.keepAlive .refl) .keepAlive
  | ack _ _ hstep => exact flows_relation.onReceiveACK hstep h

theorem onTunnelWritable_flows {s : TCPSession τ} (h : Flows s.mTunnel) :
    Flows s.onTunnelWritable.mTunnel := by
  have hgate := drainLoop_gate ((BufferQueue.bytes s.mForwardQueue).length + 1) s.mForwardQueue
    s.mTunnel
  have hdrained : Flows s.drained.mTunnel := by
    rcases h with hdown | ⟨hstands, hreceives⟩
    · exact .inl (hgate.1 hdown)
    · by_cases hfailed : (drain s.mForwardQueue s.mTunnel).failed = none
      · have hkept := (hgate.2 hstands).1 hfailed
        exact .inr ⟨hkept.1, hkept.2 hreceives⟩
      · exact .inl ((hgate.2 hstands).2 hfailed)
  have hcounted {t : TCPSession τ} (n : Nat) (ht : Flows t.mTunnel) :
      Flows (t.countSent n).mTunnel := by
    unfold countSent
    split
    · exact ht
    · exact ht.still (.pauseSendData .refl) .pauseSendData
  unfold onTunnelWritable
  split
  · exact h.still (.pauseSendData .refl) .pauseSendData
  · dsimp only
    split
    · exact hcounted _ (flows_relation.onTunnelDisconnected _ s.drained hdrained)
    · exact hcounted _ hdrained

/-! ## Into CLOSE_WAIT -/

omit [ReceiveGate τ] in
theorem switchState_waits {state : TCPState} {s : TCPSession τ} (hstate : state ≠ .closeWait) :
    (s.switchState state).mState ≠ .closeWait := by
  rw [switchState_mState]
  exact hstate

omit [ReceiveGate τ] in
theorem push_waits {s : TCPSession τ} (hsound : s.BackSound) {data : Bytes}
    (hdata : data.length ≤ TCP_IP_PAYLOAD_SIZE)
    (hwait : (pushInBackQueue ACK data s).2.mState = .closeWait) : s.mState = .closeWait := by
  rcases pushInBackQueue_mState hsound ACK hdata with hsame | hclosed
  · exact hsame.symm.trans hwait
  · exact absurd (hclosed.symm.trans hwait) (by decide)

omit [ReceiveGate τ] in
theorem flush_waits {s : TCPSession τ} (hsound : s.BackSound)
    (hwait : s.flushBackQueue.mState = .closeWait) : s.mState = .closeWait := by
  by_cases hfin : s.popAcked.FinDue
  -- a FIN that is numbered leads on, one that is refused leaves the session where it is
  · by_cases hle : s.mLocalNext ≤ s.mLocalSeq
    · rw [flushBackQueue_fin hfin hle] at hwait
      unfold leave at hwait
      refine absurd hwait (switchState_waits ?_)
      split <;> decide
    · rw [flushBackQueue_fin_refused hfin (by bv_omega)] at hwait
      exact s.popAcked_mState.symm.trans hwait
  · rw [flushBackQueue_of_not_finDue hfin] at hwait
    rcases sendBackData_mState (popAcked_sound hsound) with hsame | hclosed
    · exact (s.popAcked_mState.symm.trans hsame.symm).trans hwait
    · exact absurd (hclosed.symm.trans hwait) (by decide)

omit [ReceiveGate τ] in
theorem pushThenFlush_waits {s : TCPSession τ} (hsound : s.BackSound)
    (hwait : (pushInBackQueue ACK [] s).2.flushBackQueue.mState = .closeWait) :
    s.mState = .closeWait := by
  have hempty : ([] : Bytes).length ≤ TCP_IP_PAYLOAD_SIZE := Nat.zero_le _
  exact push_waits hsound hempty (flush_waits (push_sound hsound hempty) hwait)

omit [ReceiveGate τ] in
theorem onReceiveACK_waits {ip : Packet} {s t : TCPSession τ} (hsound : s.BackSound)
    (hstep : onReceiveACK ip s = some t) (hwait : t.mState = .closeWait) : s.mState = .closeWait := by
  have hempty : ([] : Bytes).length ≤ TCP_IP_PAYLOAD_SIZE := Nat.zero_le _
  have hswitched {state : TCPState} (hstate : state ≠ .closeWait)
      (hmoved : (s.switchState state).flushBackQueue.mState = .closeWait) : s.mState = .closeWait :=
    absurd (flush_waits (switchState_sound hsound) hmoved) (switchState_waits hstate)
  -- SYN_RCVED, FIN_WAIT1, LAST_ACK and CLOSING go elsewhere, ESTABLISHED and the rest stay
  rcases onReceiveACK_cases hstep with ⟨-, rfl⟩ | ⟨-, rfl⟩ | ⟨-, rfl⟩ | ⟨-, rfl⟩ | ⟨-, rfl⟩ |
    ⟨-, -, -, -, -, rfl⟩
  · have hnot : (s.switchState .established).mState ≠ .closeWait := switchState_waits (by decide)
    have hsound' : (s.switchState .established).BackSound := switchState_sound hsound
    rcases acceptFirstPayload_cases ip (s.switchState .established) with
      ⟨-, heq⟩ | ⟨-, -, heq⟩ | ⟨-, heq⟩ <;> rw [heq] at hwait
    · exact absurd (flush_waits (s := (s.switchState .established).uploaded ip) hsound' hwait) hnot
    · exact absurd (pushThenFlush_waits hsound' hwait) hnot
    · exact absurd (flush_waits hsound' hwait) hnot
  · exact hswitched (by decide) hwait
  · exact hswitched (by decide) hwait
  · exact hswitched (by decide) hwait
  · rcases acceptPayload_cases ip s with ⟨-, heq⟩ | ⟨-, -, heq⟩ | ⟨-, heq⟩ <;> rw [heq] at hwait
    · exact push_waits (s := s.uploaded ip) hsound hempty hwait
    · exact pushThenFlush_waits hsound hwait
    · exact flush_waits hsound hwait
  · exact flush_waits hsound hwait

omit [ReceiveGate τ] in
-- Only a FIN in ESTABLISHED takes a session to CLOSE_WAIT.
theorem accepted_waits {ip : Packet} {s t : TCPSession τ} (hsound : s.BackSound)
    (haccepted : Accepted ip s t) (hwait : t.mState = .closeWait) :
    s.mState = .closeWait ∨ (s.mState = .established ∧ NetCore.hasFlag ip.flag FIN) := by
  have hempty : ([] : Bytes).length ≤ TCP_IP_PAYLOAD_SIZE := Nat.zero_le _
  cases haccepted with
  | syn => exact .inl (flush_waits hsound hwait)
  | fin _ hfin =>
    by_cases hmoves : s.FinMoves
    · by_cases hle : (s.finNumbered ip).mLocalNext ≤ s.mLocalSeq
      · rw [onReceiveFIN_moves hle hmoves, switchState_mState] at hwait
        have hturn := finMoves_turn ip hmoves
        rw [hwait] at hturn
        generalize hold : s.mState = old at hturn
        cases hturn
        exact .inr ⟨rfl, hfin⟩
      · rw [onReceiveFIN_refused (by bv_omega)] at hwait
        exact .inl hwait
    · rw [onReceiveFIN_stays hmoves] at hwait
      exact .inl (push_waits (s := s.finNumbered ip) hsound hempty hwait)
  | rst => exact absurd hwait (switchState_waits (by decide))
  | stale => exact .inl hwait
  | ack _ _ hstep => exact .inl (onReceiveACK_waits (s := s.acknowledged ip) hsound hstep hwait)

omit [ReceiveGate τ] in
theorem relayLoop_waits (fuel : Nat) {data : Bytes} {s : TCPSession τ} (hsound : s.BackSound)
    (hwait : (relayLoop fuel data s).2.mState = .closeWait) : s.mState = .closeWait := by
  induction fuel generalizing data s with
  | zero => exact hwait
  | succ fuel ih =>
    have hchunk := List.length_take_le TCP_IP_PAYLOAD_SIZE data
    have hpushed := push_waits hsound hchunk
    have hsound' := push_sound hsound hchunk
    unfold relayLoop at hwait
    split at hwait
    · exact hwait
    · split at hwait
      next heq =>
        rw [heq] at hpushed
        exact hpushed hwait
      next heq =>
        rw [heq] at hpushed hsound'
        exact hpushed (ih hsound' hwait)

omit [ReceiveGate τ] in
-- A disconnect ends the download or closes the session.
theorem onTunnelDisconnected_waits {s : TCPSession τ} {reason : U8}
    (hnot : (s.onTunnelDisconnected reason).mRemoteFinished = false) :
    (s.onTunnelDisconnected reason).mState ≠ .closeWait := by
  have hfinished : s.onRemoteFinished.mRemoteFinished = true :=
    (flushBackQueue_frame { s with mRemoteFinished := true }).remoteFinished
  have hreset : s.resetConnection.mState ≠ .closeWait := by
    rw [resetConnection_mState]
    decide
  unfold onTunnelDisconnected at hnot ⊢
  split at hnot
  · exact absurd (hfinished.symm.trans hnot) (by decide)
  · exact absurd (hfinished.symm.trans hnot) (by decide)
  · exact switchState_waits (by decide)
  · exact switchState_waits (by decide)
  · exact switchState_waits (by decide)
  · exact switchState_waits (by decide)
  · exact hreset

omit [ReceiveGate τ] in
theorem onTunnelWritable_waits {s : TCPSession τ} (hnot : s.onTunnelWritable.mRemoteFinished = false)
    (hwait : s.onTunnelWritable.mState = .closeWait) : s.mState = .closeWait := by
  rcases onTunnelWritable_cases s with hinert | ⟨-, reason, n, -, heq⟩
  · exact hinert.state.symm.trans hwait
  · have hcounted := countSent_inert n (s.drained.onTunnelDisconnected reason)
    rw [heq, hcounted.remoteFinished] at hnot
    rw [heq, hcounted.state] at hwait
    exact absurd hwait (onTunnelDisconnected_waits hnot)

omit [ReceiveGate τ] in
theorem onTunnelDataBack_waits {s : TCPSession τ} (hsound : s.BackSound) {data : Bytes}
    (hdata : data ≠ []) (hwait : (s.onTunnelDataBack data).mState = .closeWait) :
    s.mState = .closeWait := by
  have hcounted := countRecv_inert (relayLoop data.length data s).1 (relayLoop data.length data s).2
  have hpaused := hcounted.trans (pauseIfFull_inert _)
  unfold onTunnelDataBack at hwait
  rw [if_neg hdata] at hwait
  exact relayLoop_waits data.length hsound (hpaused.state.symm.trans hwait)

/-! ## Deliveries -/

omit [ReceiveGate τ] in
/-- What is queued behind a delivery of one chunk, if it does not reset the connection. -/
def sizeBehindDelivery (data : Bytes) (s : TCPSession τ) : U32 :=
  if s.mLocalNext ≤ s.mLocalSeq then
    s.sizeBehind s.mLocalNext + BitVec.ofNat 32 (40 + data.length)
  else s.mBackQueueDataSize

omit [ReceiveGate τ] in
theorem push_sizeBehind {s : TCPSession τ} (hsound : s.BackSound) {data : Bytes}
    (hdata : data.length ≤ TCP_IP_PAYLOAD_SIZE)
    (hwait : (pushInBackQueue ACK data s).2.mState = .closeWait) :
    (pushInBackQueue ACK data s).2.mBackQueueDataSize = s.sizeBehindDelivery data := by
  unfold sizeBehindDelivery
  by_cases hle : s.mLocalNext ≤ s.mLocalSeq
  · rw [pushInBackQueue_of_le hle] at hwait ⊢
    rw [if_pos hle, ← pushed_size hle data]
    rcases sendBackData_ends (popAcked_sound (enqueueBack_sound hsound ACK hdata)) with
      heq | ⟨u, heq, -, hsize, -⟩
    · have hclosed := congrArg mState heq
      rw [resetConnection_mState] at hclosed
      exact absurd (hclosed.symm.trans hwait) (by decide)
    · have hkept : u.resumeIfRoom.mBackQueueDataSize = u.mBackQueueDataSize := by
        unfold resumeIfRoom
        split <;> rfl
      exact (congrArg mBackQueueDataSize heq).trans (hkept.trans hsize)
  · rw [pushInBackQueue_refused (by bv_omega), if_neg hle]
    rfl

-- A delivery of one chunk that does not fill the queue lets a receiving tunnel receive.
theorem onTunnelDataBack_flows {s : TCPSession τ} (hsound : s.BackSound) (h : Flows s.mTunnel)
    {data : Bytes} (hdata : data ≠ []) (hlen : data.length ≤ TCP_IP_PAYLOAD_SIZE)
    (hsize : s.sizeBehindDelivery data < TCP_SESSION_BUFFER_SIZE)
    (hwait : (s.onTunnelDataBack data).mState = .closeWait) :
    Flows (s.onTunnelDataBack data).mTunnel := by
  have hrelayed : (relayLoop data.length data s).2 = (pushInBackQueue ACK data s).2 := by
    obtain ⟨fuel, hfuel⟩ := Nat.exists_eq_succ_of_ne_zero
      (Nat.ne_of_gt (List.length_pos_iff.mpr hdata))
    rw [hfuel, Nat.succ_eq_add_one, relayLoop_single s hdata hlen]
  have hpushed : Flows (relayLoop data.length data s).2.mTunnel := by
    rw [hrelayed]
    exact flows_rule.pushInBackQueue ACK data h
  generalize hr : relayLoop data.length data s = r at hrelayed hpushed
  have hcounted : (r.2.countRecv r.1).mTunnel = r.2.mTunnel ∧
      (r.2.countRecv r.1).mBackQueueDataSize = r.2.mBackQueueDataSize := by
    unfold countRecv
    split <;> exact ⟨rfl, rfl⟩
  have heq : s.onTunnelDataBack data = noteTime (r.2.countRecv r.1).pauseIfFull := by
    unfold onTunnelDataBack
    rw [if_neg hdata, hr]
  have hstate : r.2.mState = .closeWait := by
    rw [heq] at hwait
    have hinert := (countRecv_inert r.1 r.2).trans (pauseIfFull_inert _)
    exact hinert.state.symm.trans hwait
  -- what is queued is what the push has left
  have hroom : ¬ TCP_SESSION_BUFFER_SIZE ≤ (r.2.countRecv r.1).mBackQueueDataSize := by
    rw [hrelayed] at hstate
    rw [hcounted.2, hrelayed, push_sizeBehind hsound hlen hstate]
    bv_omega
  rw [heq, pauseIfFull, if_neg hroom]
  show Flows (r.2.countRecv r.1).mTunnel
  rw [hcounted.1]
  exact hpushed

/-! ## Runs -/

/-- The input leaves no pause in force in CLOSE_WAIT: the FIN of the application finds the tunnel
    receiving, and behind it a delivery is one chunk and does not fill the queue. -/
def LeavesFlowing (s : TCPSession τ) : Event τ → Prop
  | .accept ip =>
      s.mState = .established → NetCore.hasFlag ip.flag FIN → Stands s.mTunnel →
        Receives s.mTunnel
  | .tunnelDataBack data =>
      data ≠ [] → s.mState = .closeWait → data.length ≤ TCP_IP_PAYLOAD_SIZE ∧
        s.sizeBehindDelivery data < TCP_SESSION_BUFFER_SIZE
  | .environment tunnel _ _ =>
      Down tunnel ∨
        (Stands s.mTunnel ∧ Stands tunnel ∧ (Receives s.mTunnel → Receives tunnel))
  | _ => True

-- The tunnel of a session in CLOSE_WAIT is down or receives, until the remote has finished.
def WaitsFlowing (s : TCPSession τ) : Prop :=
  s.mRemoteFinished = false → s.mState = .closeWait → Flows s.mTunnel

structure Flowing (s : TCPSession τ) : Prop where
  opened : s.Opened
  released : s.Released
  waits : s.WaitsFlowing

theorem Flowing.keepsReceiving {s : TCPSession τ} {e : Event τ} (h : s.Flowing)
    (hinput : s.LeavesFlowing e) : s.KeepsReceiving e := by
  have hkeeps : s.mRemoteFinished = false → s.mState = .closeWait → Stands s.mTunnel →
      Receives s.mTunnel := by
    intro hfinished hwait hstands
    rcases h.waits hfinished hwait with hdown | ⟨-, hreceives⟩
    · exact absurd hstands (not_stands hdown)
    · exact hreceives
  cases e with
  | environment tunnel now rand => exact hinput
  | accept | tunnelConnected | tunnelDisconnected | tunnelWritable | tunnelDataBack | written =>
    exact fun hfinished hwait _ => hkeeps hfinished hwait

theorem step_waitsFlowing {s s' : TCPSession τ} {e : Event τ} (h : s.Flowing)
    (hinput : s.LeavesFlowing e) (hstep : step s e = some s') : s'.WaitsFlowing := by
  have hopened := h.opened
  intro hnot hwait
  cases e with
  | accept ip =>
    obtain ⟨t, haccepted, rfl⟩ := accept_accepted hopened.2 hstep
    obtain ⟨total, trace, heq⟩ := countAccepted_eq ip s
    rw [heq] at haccepted
    have hfinished : s.mRemoteFinished = false := (accepted_finished haccepted).symm.trans hnot
    have hentered : s.mState = .closeWait ∨
        (s.mState = .established ∧ NetCore.hasFlag ip.flag FIN) :=
      accepted_waits (s := { s with mTotalAccept := total, trace := trace }) (t := t) hopened.1
        haccepted hwait
    -- in CLOSE_WAIT before, or there by this FIN
    have hbefore : Flows s.mTunnel := by
      rcases hentered with hwaited | ⟨hestablished, hfin⟩
      · exact h.waits hfinished hwaited
      · rcases (h.released hfinished).known with hdown | hstands
        · exact .inl hdown
        · exact .inr ⟨hstands, hinput hestablished hfin hstands⟩
    exact accepted_flows (s := { s with mTotalAccept := total, trace := trace }) (t := t) hbefore
      haccepted
  | tunnelConnected =>
    cases hstep
    exact h.waits hnot hwait
  | tunnelDisconnected reason =>
    cases hstep
    exact absurd hwait (onTunnelDisconnected_waits hnot)
  | tunnelWritable =>
    cases hstep
    have hfinished : s.mRemoteFinished = false := Bool.eq_false_iff.mpr fun hfinished =>
      Bool.eq_false_iff.mp hnot (onTunnelWritable_finished hfinished)
    exact onTunnelWritable_flows (h.waits hfinished (onTunnelWritable_waits hnot hwait))
  | tunnelDataBack data =>
    cases hstep
    by_cases hdata : data = []
    -- a delivery of nothing is the end of the remote
    · subst hdata
      have hfinished := (flushBackQueue_frame
        { s with mTunnel := ITunnel.pauseReceiveData s.mTunnel, mRemoteFinished := true }).remoteFinished
      have hfalse : true = false := hfinished.symm.trans hnot
      cases hfalse
    · have hwaited := onTunnelDataBack_waits hopened.1 hdata hwait
      have hfinished := (onTunnelDataBack_finished hdata s).symm.trans hnot
      obtain ⟨hlen, hsize⟩ := hinput hdata hwaited
      exact onTunnelDataBack_flows hopened.1 (h.waits hfinished hwaited) hdata hlen hsize hwait
  | written i n =>
    cases hstep
    exact h.waits hnot hwait
  | environment tunnel now rand =>
    cases hstep
    rcases hinput with hdown | ⟨hbefore, hstands, hreceives⟩
    · exact .inl hdown
    · rcases h.waits hnot hwait with hdown | ⟨-, hflowing⟩
      · exact absurd hbefore (not_stands hdown)
      · exact .inr ⟨hstands, hreceives hflowing⟩

theorem Flowing.step {s s' : TCPSession τ} {e : Event τ} (h : s.Flowing)
    (hinput : s.LeavesFlowing e) (hstep : step s e = some s') : s'.Flowing where
  opened := step_opened h.opened hstep
  released := step_released h.opened h.released (h.keepsReceiving hinput) hstep
  waits := step_waitsFlowing h hinput hstep

theorem Born.flowing {s : TCPSession τ} (h : s.Born) (hstands : Stands s.mTunnel) : s.Flowing := by
  have hnewborn := h.newborn
  refine ⟨hnewborn.opened, fun _ => unblocked_of_not_may (.inr hstands) ?_, fun _ hwait => ?_⟩
  · exact not_mayFinish_of_eq hnewborn.state (by decide)
  · exact absurd (hnewborn.state.symm.trans hwait) (by decide)

-- Inputs that leave no pause in force meet the condition under which the tunnel is resumed.
theorem run_keepsReceiving {s : TCPSession τ} {es : List (Event τ)} (hborn : s.Born)
    (hstands : Stands s.mTunnel) (hinput : Lib.Along step LeavesFlowing s es) :
    Lib.Along step KeepsReceiving s es :=
  hinput.mono_of_kept Flowing (fun _ _ _ h hinput hstep => h.step hinput hstep)
    (fun _ _ h hinput => h.keepsReceiving hinput) (hborn.flowing hstands)

/-- With such inputs the tunnel of a session that still delivers is receiving all through CLOSE_WAIT,
    and in ESTABLISHED whenever less than half the buffer is queued. -/
theorem run_receives {s s' : TCPSession τ} {es : List (Event τ)} (hborn : s.Born)
    (hstands : Stands s.mTunnel) (hinput : Lib.Along step LeavesFlowing s es)
    (hrun : Lib.run step s es = some s') (hfinished : s'.mRemoteFinished = false)
    (hup : ¬ Down s'.mTunnel) :
    (s'.mState = .closeWait → Receives s'.mTunnel) ∧
      (s'.mState = .established → s'.mBackQueueDataSize < TCP_SESSION_BUFFER_SIZE >>> 1 →
        Receives s'.mTunnel) := by
  have hflowing : s'.Flowing := hinput.invariant Flowing
    (fun _ _ _ h hinput hstep => h.step hinput hstep) (hborn.flowing hstands) hrun
  have hunblocked := (run_unblocks hborn hstands (run_keepsReceiving hborn hstands hinput) hrun).2
    hfinished
  constructor
  · intro hwait
    exact ((hflowing.waits hfinished hwait).resolve_left hup).2
  · intro hestablished hsize
    exact hunblocked.receives (.inl hestablished) hsize (hunblocked.known.resolve_left hup)

-- Decided at a direct tunnel: the FIN finds its socket watched, and the deliveries are as above.
def LeavesReading (s : TCPSession TCPTunnel) : Event TCPTunnel → Prop
  | .accept ip => s.mState = .established → NetCore.hasFlag ip.flag FIN → s.mTunnel.Reading
  | .tunnelDataBack data =>
      data ≠ [] → s.mState = .closeWait → data.length ≤ TCP_IP_PAYLOAD_SIZE ∧
        s.sizeBehindDelivery data < TCP_SESSION_BUFFER_SIZE
  | .environment _ _ _ => False
  | _ => True

instance (s : TCPSession TCPTunnel) : ∀ e, Decidable (s.LeavesReading e)
  | .accept _ | .tunnelDataBack _ => inferInstanceAs (Decidable (_ → _ → _))
  | .environment _ _ _ => inferInstanceAs (Decidable False)
  | .tunnelConnected | .tunnelDisconnected _ | .tunnelWritable | .written _ _ =>
    inferInstanceAs (Decidable True)

theorem LeavesReading.leavesFlowing (s : TCPSession TCPTunnel) (e : Event TCPTunnel)
    (h : s.LeavesReading e) : s.LeavesFlowing e := by
  cases e with
  | accept => exact fun hestablished hfin _ => h hestablished hfin
  | environment => exact absurd h id
  | tunnelDataBack => exact h
  | tunnelConnected | tunnelDisconnected | tunnelWritable | written => trivial

-- The application ends its stream and goes on with its download.
def sampleHalfClosed : List (Event TCPTunnel) :=
  [.accept (sampleByte 101 0x61), .tunnelDataBack [1, 2, 3], .tunnelWritable,
    .accept (samplePacket 102 1004 (FIN ||| ACK) [] nothing_fits), .tunnelDataBack [4, 5],
    .accept (samplePacket 103 1006 ACK [] nothing_fits), .tunnelDataBack [6]]

theorem run_receives_sample :
    ∃ s' : TCPSession TCPTunnel,
      Lib.run step (sampleBorn sampleTunnel) sampleHalfClosed = some s' ∧
        s'.mState = .closeWait ∧ s'.mLocalNext = 6 ∧ s'.mLocalSeq = 7 ∧ Receives s'.mTunnel := by
  have hreach : ∃ s' : TCPSession TCPTunnel,
      Lib.run step (sampleBorn sampleTunnel) sampleHalfClosed = some s' ∧
        s'.mState = .closeWait ∧ s'.mLocalNext = 6 ∧ s'.mLocalSeq = 7 ∧
        s'.mRemoteFinished = false ∧ ¬ s'.mTunnel.mSocket < 0 := Lib.run_reaches (by decide)
  obtain ⟨s', hrun, hstate, hnext, hseq, hfinished, hup⟩ := hreach
  have hreading : Lib.Along step LeavesReading (sampleBorn sampleTunnel) sampleHalfClosed := by decide
  have hreceives := run_receives (sampleBorn_born (by decide)) sampleBorn_stands
    (hreading.mono LeavesReading.leavesFlowing) hrun hfinished hup
  exact ⟨s', hrun, hstate, hnext, hseq, hreceives.1 hstate⟩

end TCPSession

end NetCore
