import NetCore.ITunnel.Gate
import NetCore.TCPSession.Finish
import NetCore.TCPSession.Transient

/-!
# Back-pressure

`onTunnelDataBack` pauses the tunnel when the back queue is full, and a flush resumes it when the
queue is down to the half, but only in ESTABLISHED.  CLOSE_WAIT, in which the download goes on as
well, leaves a paused tunnel paused.
-/

namespace NetCore
namespace TCPSession

open ReceiveGate

variable {τ : Type}

/-- The size of the back queue once a flush with this left edge has popped. -/
def sizeBehind (edge : U32) (s : TCPSession τ) : U32 :=
  (s.mBackQueue.takeWhile (popsSegment edge)).foldl (fun n d => n - BitVec.ofNat 32 d.capacity)
    s.mBackQueueDataSize

/-- So little is queued that a flush may resume the tunnel. -/
def HasRoom (size : U32) : Prop := size < TCP_SESSION_BUFFER_SIZE >>> 1

instance (size : U32) : Decidable (HasRoom size) := inferInstanceAs (Decidable (_ < _))

theorem popLoop_size (queue : List TCPDatagram) (s : TCPSession τ) :
    (popLoop queue s).mBackQueueDataSize =
      (queue.takeWhile (popsSegment s.mLocalNext)).foldl
        (fun n d => n - BitVec.ofNat 32 d.capacity) s.mBackQueueDataSize := by
  induction queue generalizing s with
  | nil => rfl
  | cons d queue ih =>
    rw [popLoop, List.takeWhile_cons]
    split
    · rw [List.foldl_cons, ih]
      rfl
    · rfl

theorem popAcked_size (s : TCPSession τ) :
    s.popAcked.mBackQueueDataSize = s.sizeBehind s.mLocalNext := popLoop_size s.mBackQueue s

theorem popAcked_mTunnel (s : TCPSession τ) : s.popAcked.mTunnel = s.mTunnel := by
  obtain ⟨_, _, _, heq, -⟩ := s.popAcked_eq
  rw [heq]

theorem foldl_sub_add (queue : List TCPDatagram) (n m : U32) :
    queue.foldl (fun n d => n - BitVec.ofNat 32 d.capacity) (n + m) =
      queue.foldl (fun n d => n - BitVec.ofNat 32 d.capacity) n + m := by
  induction queue generalizing n with
  | nil => rfl
  | cons d queue ih =>
    rw [List.foldl_cons, List.foldl_cons, ← ih]
    congr 1
    bv_omega

variable [ITunnel τ]

-- A pushed segment adds its capacity to what the flush behind it leaves.
theorem pushed_size {s : TCPSession τ} (hle : s.mLocalNext ≤ s.mLocalSeq) (data : Bytes) :
    (s.enqueueBack ACK data).popAcked.mBackQueueDataSize =
      s.sizeBehind s.mLocalNext + BitVec.ofNat 32 (40 + data.length) := by
  have hcapacity : (s.newSegment ACK data).capacity = 40 + data.length := by
    show (s.updateWindowSize.packageBytes ACK data).length = _
    rw [length_packageBytes]
    rfl
  have hqueue : (s.mBackQueue ++ [s.newSegment ACK data]).takeWhile (popsSegment s.mLocalNext) =
      s.mBackQueue.takeWhile (popsSegment s.mLocalNext) := by
    rw [List.takeWhile_append]
    split
    next hall =>
      rw [List.takeWhile_cons, newSegment_stays hle, if_neg Bool.false_ne_true, List.append_nil]
      exact ((List.takeWhile_prefix _).eq_of_length hall).symm
    next => rfl
  rw [popAcked_size]
  unfold sizeBehind
  rw [enqueueBack_mLocalNext, enqueueBack_mBackQueue, hqueue, ← hcapacity]
  exact foldl_sub_add _ _ _

-- The send loop ends with a reset, or as `resumeIfRoom` ends it.
theorem sendBackData_ends {s : TCPSession τ} (hsound : s.BackSound) :
    s.sendBackData = s.resetConnection ∨
      ∃ u : TCPSession τ, s.sendBackData = u.resumeIfRoom ∧ u.mTunnel = s.mTunnel ∧
        u.mBackQueueDataSize = s.mBackQueueDataSize ∧ u.mState = s.mState := by
  rcases sendBackData_cases hsound with ⟨_, _, -, -, heq⟩ | ⟨d, rest, -, -, -, heq⟩ | ⟨-, heq⟩
  · exact .inl heq
  · exact .inr ⟨s.sentFront d rest, heq, rfl, rfl, rfl⟩
  · exact .inr ⟨s, heq, rfl, rfl, rfl⟩

variable [ReceiveGate τ]

-- Destroyed, or standing.
def Known (t : τ) : Prop := Down t ∨ Stands t

theorem down_rule : BackTunnelRule (Down (τ := τ)) where
  resume h := down_calls h (.resumeReceiveData .refl)
  destroy _ := destroy _

theorem known_rule : BackTunnelRule (Known (τ := τ)) where
  resume h := h.elim (fun h => .inl (down_rule.resume h)) fun h => .inr (resume h).1
  destroy _ := .inl (destroy _)

theorem Known.still {t t' : τ} (h : Known t) (hcalls : ITunnel.Calls t t')
    (hstill : ITunnel.Still t t') : Known t' :=
  h.elim (fun h => .inl (down_calls h hcalls)) fun h => .inr (ReceiveGate.still h hstill).1

-- A session that still delivers and has little to deliver lets its tunnel receive.
structure Unblocked (s : TCPSession τ) : Prop where
  known : Known s.mTunnel
  receives : s.MayFinish → HasRoom s.mBackQueueDataSize → Stands s.mTunnel → Receives s.mTunnel

theorem Unblocked.of_eq {s s' : TCPSession τ} (h : s.Unblocked)
    (hstate : s'.MayFinish → s.MayFinish) (hsize : s'.mBackQueueDataSize = s.mBackQueueDataSize)
    (htunnel : s'.mTunnel = s.mTunnel) : s'.Unblocked where
  known := htunnel ▸ h.known
  receives hmay hroom hstands := by
    rw [htunnel] at hstands ⊢
    exact h.receives (hstate hmay) (hsize ▸ hroom) hstands

-- A call that is not about receiving blocks nothing.
theorem Unblocked.still {s : TCPSession τ} (h : s.Unblocked) {t : τ}
    (hcalls : ITunnel.Calls s.mTunnel t) (hstill : ITunnel.Still s.mTunnel t) :
    Unblocked { s with mTunnel := t } where
  known := h.known.still hcalls hstill
  receives hmay hroom hstands := by
    rcases h.known with hdown | hbefore
    · exact absurd hstands (not_stands (down_calls hdown hcalls))
    · exact (ReceiveGate.still hbefore hstill).2 (h.receives hmay hroom hbefore)

theorem unblocked_of_not_may {s : TCPSession τ} (h : Known s.mTunnel) (hstate : ¬ s.MayFinish) :
    s.Unblocked := ⟨h, fun hmay => absurd hmay hstate⟩

omit [ITunnel τ] [ReceiveGate τ] in
theorem not_mayFinish_of_eq {s : TCPSession τ} {state : TCPState} (h : s.mState = state)
    (hstate : state ≠ .established ∧ state ≠ .closeWait) : ¬ s.MayFinish := by
  unfold MayFinish
  rw [h]
  exact not_or.mpr hstate

-- In CLOSE_WAIT nothing resumes the tunnel; everywhere else a flush leaves it receiving.
theorem sendBackData_unblocked {s : TCPSession τ} (hsound : s.BackSound) (hknown : Known s.mTunnel)
    (hroom : s.mState = .closeWait → HasRoom s.mBackQueueDataSize → Stands s.mTunnel →
      Receives s.mTunnel) : s.sendBackData.Unblocked := by
  rcases sendBackData_ends hsound with heq | ⟨u, heq, htunnel, hsize, hstate⟩
  · rw [heq]
    refine unblocked_of_not_may (known_rule.resetConnection hknown) ?_
    exact not_mayFinish_of_eq (resetConnection_mState s) (by decide)
  · rw [heq]
    unfold resumeIfRoom
    split
    next =>
      rcases hknown with hdown | hstands
      · have hdown' : Down (ITunnel.resumeReceiveData u.mTunnel) := by
          rw [htunnel]
          exact down_rule.resume hdown
        exact ⟨.inl hdown', fun _ _ hstands => absurd hstands (not_stands hdown')⟩
      · have hresumed := resume (htunnel ▸ hstands : Stands u.mTunnel)
        exact ⟨.inr hresumed.1, fun _ _ _ => hresumed.2⟩
    next hnot =>
      refine ⟨htunnel ▸ hknown, fun hmay hlow hstands => ?_⟩
      rw [htunnel] at hstands ⊢
      rcases hmay with hestablished | hwait
      · exact absurd ⟨hestablished, hlow⟩ hnot
      · exact hroom (hstate ▸ hwait) (hsize ▸ hlow) hstands

theorem flush_unblocked {s : TCPSession τ} (hsound : s.BackSound) (hknown : Known s.mTunnel)
    (hfinished : s.mRemoteFinished = false)
    (hroom : s.mState = .closeWait → HasRoom (s.sizeBehind s.mLocalNext) → Stands s.mTunnel →
      Receives s.mTunnel) : s.flushBackQueue.Unblocked := by
  have hnot : ¬ s.popAcked.FinDue := by
    intro hfin
    have hdue := hfin.1
    rw [(popAcked_frame s).remoteFinished, hfinished] at hdue
    cases hdue
  rw [flushBackQueue_of_not_finDue hnot]
  refine sendBackData_unblocked (popAcked_sound hsound) ?_ ?_
  · rw [popAcked_mTunnel]
    exact hknown
  · rw [popAcked_mState, popAcked_size, popAcked_mTunnel]
    exact hroom

theorem push_unblocked {s : TCPSession τ} {data : Bytes} (hsound : s.BackSound)
    (hdata : data.length ≤ TCP_IP_PAYLOAD_SIZE) (h : s.Unblocked)
    (hroom : s.mState = .closeWait → s.mLocalNext ≤ s.mLocalSeq →
      HasRoom (s.sizeBehind s.mLocalNext + BitVec.ofNat 32 (40 + data.length)) → Stands s.mTunnel →
      Receives s.mTunnel) : (pushInBackQueue ACK data s).2.Unblocked := by
  by_cases hle : s.mLocalNext ≤ s.mLocalSeq
  · rw [pushInBackQueue_of_le hle]
    refine sendBackData_unblocked (popAcked_sound (enqueueBack_sound hsound ACK hdata)) ?_ ?_
    · rw [popAcked_mTunnel]
      exact h.known
    · rw [popAcked_mState, pushed_size hle, popAcked_mTunnel]
      exact fun hwait => hroom hwait hle
  · rw [pushInBackQueue_refused (by bv_omega)]
    exact h.of_eq id rfl rfl

/-! ## Packets -/

omit [ITunnel τ] [ReceiveGate τ] in
/-- The step leaves the queue below the half.  A delivery of several chunks, which no tunnel with a
    buffer of `SHARED_BUFFER_SIZE` makes, is counted among them. -/
def Shrinks (s : TCPSession τ) : Event τ → Prop
  | .accept ip =>
      if NetCore.hasFlag ip.flag SYN then HasRoom (s.sizeBehind s.mLocalNext)
      else if NetCore.hasFlag ip.flag FIN then
        HasRoom (s.sizeBehind (s.finNumbered ip).mLocalNext + 40)
      else s.mLocalNext ≤ s.relativeAck ip ∧ HasRoom (s.sizeBehind (s.relativeAck ip))
  | .tunnelDataBack data =>
      data.length ≤ TCP_IP_PAYLOAD_SIZE →
        HasRoom (s.sizeBehind s.mLocalNext + BitVec.ofNat 32 (40 + data.length))
  | _ => False

omit [ReceiveGate τ] in
theorem switchState_mTunnel {state : TCPState} (s : TCPSession τ) (h : state ≠ .closed) :
    (s.switchState state).mTunnel = s.mTunnel := by
  unfold switchState
  split <;> rfl

omit [ReceiveGate τ] in
theorem switchState_size (state : TCPState) (s : TCPSession τ) :
    (s.switchState state).mBackQueueDataSize = s.mBackQueueDataSize := by
  unfold switchState
  split
  · rfl
  · split <;> rfl

theorem switchState_closed_down {s : TCPSession τ} (h : s.mState ≠ .closed) :
    Down (s.switchState .closed).mTunnel := by
  unfold switchState
  rw [if_neg h]
  exact destroy _

theorem push_known {s : TCPSession τ} (hknown : Known s.mTunnel) (flag : U8) (data : Bytes) :
    Known (pushInBackQueue flag data s).2.mTunnel := by
  by_cases hle : s.mLocalNext ≤ s.mLocalSeq
  · rw [pushInBackQueue_of_le hle]
    refine known_rule.sendBackData ?_
    rw [popAcked_mTunnel]
    exact hknown
  · rw [pushInBackQueue_refused (by bv_omega)]
    exact hknown

-- In ESTABLISHED a flush behind a push releases the tunnel.
theorem pushThenFlush_unblocked {s : TCPSession τ} (hsound : s.BackSound)
    (hknown : Known s.mTunnel) (hfinished : s.mRemoteFinished = false)
    (hstate : s.mState = .established) : (pushInBackQueue ACK [] s).2.flushBackQueue.Unblocked := by
  have hempty : ([] : Bytes).length ≤ TCP_IP_PAYLOAD_SIZE := Nat.zero_le _
  refine flush_unblocked ?_ (push_known hknown ACK []) ?_ fun hwait => ?_
  · by_cases hle : s.mLocalNext ≤ s.mLocalSeq
    · rw [pushInBackQueue_of_le hle]
      exact sendBackData_sound (popAcked_sound (enqueueBack_sound hsound ACK hempty))
    · rw [pushInBackQueue_refused (by bv_omega)]
      exact hsound
  · rw [(pushInBackQueue_frame ACK [] s).remoteFinished]
    exact hfinished
  · rcases pushInBackQueue_mState hsound ACK hempty with hsame | hclosed
    · exact absurd (hwait.symm.trans (hsame.trans hstate)) (by decide)
    · exact absurd (hwait.symm.trans hclosed) (by decide)

omit [ReceiveGate τ] in
theorem uploaded_tunnel (ip : Packet) (s : TCPSession τ) :
    (s.uploaded ip).mTunnel = s.mTunnel ∨
      (s.uploaded ip).mTunnel = ITunnel.requestSendData s.mTunnel := by
  unfold uploaded queuedForward
  simp only
  split
  · exact .inr rfl
  · exact .inl rfl

theorem Unblocked.uploaded {s : TCPSession τ} (h : s.Unblocked) (ip : Packet) :
    (s.uploaded ip).Unblocked := by
  rcases s.uploaded_tunnel ip with heq | heq
  · exact h.of_eq id rfl heq
  · have hstill := h.still (.requestSendData .refl) .requestSendData
    refine hstill.of_eq id rfl ?_
    rw [heq]

theorem acceptPayload_unblocked {s : TCPSession τ} (hsound : s.BackSound) (h : s.Unblocked)
    (hfinished : s.mRemoteFinished = false) (hstate : s.mState = .established) (ip : Packet) :
    (acceptPayload ip s).Unblocked := by
  have hwait : s.mState ≠ .closeWait := by rw [hstate]; decide
  rcases acceptPayload_cases ip s with ⟨-, heq⟩ | ⟨-, -, heq⟩ | ⟨-, heq⟩
  · rw [heq]
    exact push_unblocked (s := s.uploaded ip) hsound (Nat.zero_le _) (h.uploaded ip)
      fun hnot => absurd hnot hwait
  · rw [heq]
    exact pushThenFlush_unblocked hsound h.known hfinished hstate
  · rw [heq]
    exact flush_unblocked hsound h.known hfinished fun hnot => absurd hnot hwait

theorem acceptFirstPayload_unblocked {s : TCPSession τ} (hsound : s.BackSound) (h : Known s.mTunnel)
    (hfinished : s.mRemoteFinished = false) (hstate : s.mState = .established) (ip : Packet) :
    (acceptFirstPayload ip s).Unblocked := by
  have hwait : s.mState ≠ .closeWait := by rw [hstate]; decide
  rcases acceptFirstPayload_cases ip s with ⟨-, heq⟩ | ⟨-, -, heq⟩ | ⟨-, heq⟩
  · have hknown : Known (s.uploaded ip).mTunnel := by
      rcases s.uploaded_tunnel ip with heq | heq
      · rw [heq]
        exact h
      · rw [heq]
        exact h.still (.requestSendData .refl) .requestSendData
    rw [heq]
    exact flush_unblocked (s := s.uploaded ip) hsound hknown hfinished fun hnot => absurd hnot hwait
  · rw [heq]
    exact pushThenFlush_unblocked hsound h hfinished hstate
  · rw [heq]
    exact flush_unblocked hsound h hfinished fun hnot => absurd hnot hwait

-- A FIN in ESTABLISHED goes through a flush that releases the tunnel before the state changes.
theorem onReceiveFIN_unblocked {ip : Packet} {s : TCPSession τ} (hsound : s.BackSound)
    (h : s.Unblocked)
    (hroom : s.mState = .closeWait → HasRoom (s.sizeBehind (s.finNumbered ip).mLocalNext + 40) →
      Stands s.mTunnel → Receives s.mTunnel) : (onReceiveFIN ip s).Unblocked := by
  have hempty : ([] : Bytes).length ≤ TCP_IP_PAYLOAD_SIZE := Nat.zero_le _
  have hnumbered : (s.finNumbered ip).Unblocked := h.of_eq id rfl rfl
  have hpushed : (pushInBackQueue ACK [] (s.finNumbered ip)).2.Unblocked :=
    push_unblocked (s := s.finNumbered ip) hsound hempty hnumbered fun hwait _ => hroom hwait
  by_cases hmoves : s.FinMoves
  · by_cases hle : (s.finNumbered ip).mLocalNext ≤ s.mLocalSeq
    · rw [onReceiveFIN_moves hle hmoves]
      rcases hmoves with hstate | hstate
      · have hfin : s.finState ip = .closeWait := by
          unfold finState
          rw [hstate]
        have hsent := pushInBackQueue_of_le (s := s.finNumbered ip) hle ACK []
        have hends := sendBackData_ends (popAcked_sound (enqueueBack_sound (s := s.finNumbered ip)
          hsound ACK hempty))
        have htunnel := (pushInBackQueue ACK [] (s.finNumbered ip)).2.switchState_mTunnel
          (show TCPState.closeWait ≠ .closed by decide)
        rw [hfin]
        rcases pushInBackQueue_mState (s := s.finNumbered ip) hsound ACK hempty with hsame | hclosed
        · refine hpushed.of_eq (fun _ => .inl (hsame.trans hstate)) (switchState_size _ _) htunnel
        · -- the reset has destroyed the tunnel
          have hdown : Down (pushInBackQueue ACK [] (s.finNumbered ip)).2.mTunnel := by
            rw [hsent] at hclosed ⊢
            rcases hends with heq | ⟨u, heq, -, -, hu⟩
            · rw [heq, resetConnection_eq]
              refine switchState_closed_down ?_
              rw [rstSent_mState, popAcked_mState]
              show s.mState ≠ .closed
              rw [hstate]
              decide
            · have hkept : s.mState = .closed := by
                have hstate' := (congrArg mState heq).trans ((resumeIfRoom_inert u).state.trans hu)
                rw [popAcked_mState] at hstate'
                exact hstate'.symm.trans hclosed
              exact absurd (hstate.symm.trans hkept) (by decide)
          rw [← htunnel] at hdown
          exact ⟨.inl hdown, fun _ _ hstands => absurd hstands (not_stands hdown)⟩
      · have hother : s.finState ip ≠ .established ∧ s.finState ip ≠ .closeWait ∧
            s.finState ip ≠ .closed := by
          unfold finState
          rcases hstate with hstate | hstate <;> rw [hstate] <;> simp only
          · split <;> decide
          · decide
        refine unblocked_of_not_may ?_ (not_mayFinish_of_eq (switchState_mState _ _)
          ⟨hother.1, hother.2.1⟩)
        rw [switchState_mTunnel _ hother.2.2]
        exact hpushed.known
    · rw [onReceiveFIN_refused (by bv_omega)]
      exact h.of_eq id rfl rfl
  · rw [onReceiveFIN_stays hmoves]
    exact hpushed

theorem onReceiveACK_unblocked {ip : Packet} {s t : TCPSession τ} (hsound : s.BackSound)
    (h : s.Unblocked) (hfinished : s.mRemoteFinished = false)
    (hroom : s.mState = .closeWait → HasRoom (s.sizeBehind s.mLocalNext) → Stands s.mTunnel →
      Receives s.mTunnel) (hstep : onReceiveACK ip s = some t) : t.Unblocked := by
  have hswitched {state : TCPState} (hstate : state ≠ .closeWait) :
      (s.switchState state).flushBackQueue.Unblocked := by
    refine flush_unblocked ?_ (known_rule.switchState state h.known) ?_ fun hwait => ?_
    · exact switchState_sound hsound
    · rw [(switchState_frame state s).remoteFinished]
      exact hfinished
    · rw [switchState_mState] at hwait
      exact absurd hwait hstate
  rcases onReceiveACK_cases hstep with ⟨-, rfl⟩ | ⟨-, rfl⟩ | ⟨-, rfl⟩ | ⟨-, rfl⟩ | ⟨hstate, rfl⟩ |
    ⟨-, -, -, -, -, rfl⟩
  · refine acceptFirstPayload_unblocked ?_ ?_ ?_ (switchState_mState _ _) ip
    · exact switchState_sound hsound
    · exact known_rule.switchState _ h.known
    · rw [(switchState_frame _ s).remoteFinished]
      exact hfinished
  · exact hswitched (by decide)
  · exact hswitched (by decide)
  · exact hswitched (by decide)
  · exact acceptPayload_unblocked hsound h hfinished hstate ip
  · exact flush_unblocked hsound h.known hfinished hroom

theorem accepted_unblocked {ip : Packet} {s t : TCPSession τ} (hsound : s.BackSound)
    (h : s.Unblocked) (hfinished : s.mRemoteFinished = false)
    (hroom : s.mState = .closeWait → s.Shrinks (.accept ip) → Stands s.mTunnel →
      Receives s.mTunnel) (haccepted : Accepted ip s t) : t.Unblocked := by
  cases haccepted with
  | syn hsyn =>
    exact flush_unblocked hsound h.known hfinished fun hwait hlow =>
      hroom hwait ((if_pos hsyn).mpr hlow)
  | fin hsyn hfin =>
    refine onReceiveFIN_unblocked hsound h fun hwait hlow => hroom hwait ?_
    exact (if_neg (by simp [hsyn])).mpr ((if_pos hfin).mpr hlow)
  | rst =>
    exact unblocked_of_not_may (known_rule.switchState _ h.known)
      (not_mayFinish_of_eq (switchState_mState _ _) (by decide))
  | stale tunnel _ _ htunnel =>
    rcases htunnel with rfl | rfl
    · exact h.of_eq id rfl rfl
    · exact (h.still (.keepAlive .refl) .keepAlive).of_eq id rfl rfl
  | ack hplain hle hstep =>
    refine onReceiveACK_unblocked (s := s.acknowledged ip) hsound (h.of_eq id rfl rfl) hfinished
      (fun hwait hlow => hroom hwait ?_) hstep
    exact (if_neg (by simp [hplain.1])).mpr ((if_neg (by simp [hplain.2.1])).mpr ⟨hle, hlow⟩)

/-! ## Calls from the tunnel -/

-- What a run of `sendData` calls leaves of the tunnel.
theorem drainLoop_gate (fuel : Nat) (queue : List TCPDatagram) (t : τ) :
    (Down t → Down (drainLoop fuel queue t).tunnel) ∧
    (Stands t → ((drainLoop fuel queue t).failed = none → Stands (drainLoop fuel queue t).tunnel ∧
        (Receives t → Receives (drainLoop fuel queue t).tunnel)) ∧
      ((drainLoop fuel queue t).failed ≠ none → Down (drainLoop fuel queue t).tunnel)) := by
  induction fuel generalizing queue t with
  | zero => exact ⟨id, fun h => ⟨fun _ => ⟨h, id⟩, fun hfailed => absurd rfl hfailed⟩⟩
  | succ fuel ih =>
    cases queue with
    | nil => exact ⟨id, fun h => ⟨fun _ => ⟨h, id⟩, fun hfailed => absurd rfl hfailed⟩⟩
    | cons d queue =>
      rw [drainLoop_cons]
      cases hsend : ITunnel.sendData t d.readable (!d.hasFlag PSH) with
      | failed reason t' =>
        exact ⟨fun _ => failed hsend, fun _ => ⟨fun hnone => absurd hnone (by simp),
          fun _ => failed hsend⟩⟩
      | sent n t' =>
        have hdown (h : Down t) : Down t' := down_calls h (.sent .refl hsend)
        have hstands (h : Stands t) := ReceiveGate.still h (.sent hsend)
        simp only
        split
        · exact ⟨hdown, fun h => ⟨fun _ => hstands h, fun hfailed => absurd rfl hfailed⟩⟩
        · have hrest := ih (leftOver d n queue) t'
          refine ⟨fun h => hrest.1 (hdown h), fun h => ⟨fun hnone => ?_, fun hfailed => ?_⟩⟩
          · have hafter := (hrest.2 (hstands h).1).1 hnone
            exact ⟨hafter.1, fun hon => hafter.2 ((hstands h).2 hon)⟩
          · exact (hrest.2 (hstands h).1).2 hfailed

theorem Unblocked.countSent {s : TCPSession τ} (h : s.Unblocked) (n : Nat) :
    (s.countSent n).Unblocked := by
  unfold TCPSession.countSent
  split
  · exact h.of_eq id rfl rfl
  · exact h.still (.pauseSendData .refl) .pauseSendData

-- A failing `sendData` ends the download, or finds it ended.
theorem onTunnelDisconnected_unblocked {s : TCPSession τ} (hknown : Known s.mTunnel) (reason : U8) :
    (s.onTunnelDisconnected reason).mRemoteFinished = false →
      (s.onTunnelDisconnected reason).Unblocked := by
  have hclosed : (s.switchState .closed).Unblocked :=
    unblocked_of_not_may (known_rule.switchState _ hknown)
      (not_mayFinish_of_eq (switchState_mState _ _) (by decide))
  have hreset : s.resetConnection.Unblocked :=
    unblocked_of_not_may (known_rule.resetConnection hknown)
      (not_mayFinish_of_eq (resetConnection_mState s) (by decide))
  have hfinished : s.onRemoteFinished.mRemoteFinished = true :=
    (flushBackQueue_frame { s with mRemoteFinished := true }).remoteFinished
  intro hnot
  unfold onTunnelDisconnected at hnot ⊢
  split at hnot
  · exact absurd (hfinished.symm.trans hnot) (by decide)
  · exact absurd (hfinished.symm.trans hnot) (by decide)
  · exact hclosed
  · exact hclosed
  · exact hclosed
  · exact hclosed
  · exact hreset

omit [ReceiveGate τ] in
theorem onTunnelDisconnected_finished {s : TCPSession τ} (h : s.mRemoteFinished = true)
    (reason : U8) : (s.onTunnelDisconnected reason).mRemoteFinished = true := by
  have hfinished : s.onRemoteFinished.mRemoteFinished = true :=
    (flushBackQueue_frame { s with mRemoteFinished := true }).remoteFinished
  have hclosed := (switchState_frame .closed s).remoteFinished.trans h
  unfold onTunnelDisconnected
  split
  · exact hfinished
  · exact hfinished
  · exact hclosed
  · exact hclosed
  · exact hclosed
  · exact hclosed
  · exact (resetConnection_frame s).remoteFinished.trans h

omit [ReceiveGate τ] in
theorem onTunnelWritable_finished {s : TCPSession τ} (h : s.mRemoteFinished = true) :
    s.onTunnelWritable.mRemoteFinished = true := by
  rcases onTunnelWritable_cases s with hinert | ⟨-, reason, n, -, heq⟩
  · exact hinert.remoteFinished.trans h
  · rw [heq, (countSent_inert _ _).remoteFinished]
    exact onTunnelDisconnected_finished (s := s.drained) h reason

omit [ReceiveGate τ] in
theorem onTunnelDataBack_finished {data : Bytes} (hdata : data ≠ []) (s : TCPSession τ) :
    (s.onTunnelDataBack data).mRemoteFinished = s.mRemoteFinished := by
  have hrelayed := relayLoop_finished data.length data s
  have hcounted := countRecv_inert (relayLoop data.length data s).1 (relayLoop data.length data s).2
  have hpaused := hcounted.trans (pauseIfFull_inert _)
  unfold onTunnelDataBack
  rw [if_neg hdata]
  exact hpaused.remoteFinished.trans hrelayed

theorem onTunnelWritable_unblocked {s : TCPSession τ} (h : s.Unblocked)
    (hnot : s.onTunnelWritable.mRemoteFinished = false) : s.onTunnelWritable.Unblocked := by
  have hgate := drainLoop_gate ((BufferQueue.bytes s.mForwardQueue).length + 1) s.mForwardQueue
    s.mTunnel
  have hdrained : Known s.drained.mTunnel := by
    rcases h.known with hdown | hstands
    · exact .inl (hgate.1 hdown)
    · by_cases hfailed : (drain s.mForwardQueue s.mTunnel).failed = none
      · exact .inr ((hgate.2 hstands).1 hfailed).1
      · exact .inl ((hgate.2 hstands).2 hfailed)
  unfold onTunnelWritable at hnot ⊢
  by_cases hempty : s.mForwardQueue = []
  · rw [if_pos hempty]
    exact h.still (.pauseSendData .refl) .pauseSendData
  · rw [if_neg hempty] at hnot ⊢
    simp only at hnot ⊢
    cases hfailed : (drain s.mForwardQueue s.mTunnel).failed with
    | none =>
      refine Unblocked.countSent ⟨hdrained, fun hmay hroom hstands => ?_⟩ _
      rcases h.known with hdown | hbefore
      · exact absurd hstands (not_stands (hgate.1 hdown))
      · exact ((hgate.2 hbefore).1 hfailed).2 (h.receives hmay hroom hbefore)
    | some reason =>
      rw [hfailed] at hnot
      refine (onTunnelDisconnected_unblocked hdrained reason ?_).countSent _
      rw [← (countSent_inert _ _).remoteFinished]
      exact hnot

-- A round of the relay: outside CLOSE_WAIT its flush releases the tunnel, and a tunnel that
-- receives in CLOSE_WAIT goes on receiving.
structure Relaying (s : TCPSession τ) : Prop where
  sound : s.BackSound
  unblocked : s.Unblocked
  waiting : s.mState = .closeWait → Stands s.mTunnel → Receives s.mTunnel

theorem Relaying.push {s : TCPSession τ} (h : s.Relaying) {data : Bytes}
    (hdata : data.length ≤ TCP_IP_PAYLOAD_SIZE) : (pushInBackQueue ACK data s).2.Relaying := by
  refine ⟨?_, push_unblocked h.sound hdata h.unblocked fun hwait _ _ => h.waiting hwait, ?_⟩
  · by_cases hle : s.mLocalNext ≤ s.mLocalSeq
    · rw [pushInBackQueue_of_le hle]
      exact sendBackData_sound (popAcked_sound (enqueueBack_sound h.sound ACK hdata))
    · rw [pushInBackQueue_refused (by bv_omega)]
      exact h.sound
  · intro hwait
    by_cases hle : s.mLocalNext ≤ s.mLocalSeq
    · rw [pushInBackQueue_of_le hle] at hwait ⊢
      simp only at hwait ⊢
      rcases sendBackData_ends (popAcked_sound (enqueueBack_sound h.sound ACK hdata)) with
        heq | ⟨u, heq, htunnel, -, hstate⟩
      · rw [heq, resetConnection_mState] at hwait
        cases hwait
      · rw [heq, (resumeIfRoom_inert u).state] at hwait
        rw [popAcked_mState] at hstate
        have hnot : ¬ (u.mState = .established ∧
            u.mBackQueueDataSize < TCP_SESSION_BUFFER_SIZE >>> 1) := by
          rw [hwait]
          exact fun h => absurd h.1 (by decide)
        rw [heq, resumeIfRoom, if_neg hnot, htunnel, popAcked_mTunnel]
        exact h.waiting (hstate.symm.trans hwait)
    · rw [pushInBackQueue_refused (by bv_omega)] at hwait ⊢
      exact h.waiting hwait

theorem Relaying.relayLoop (fuel : Nat) {data : Bytes} {s : TCPSession τ} (h : s.Relaying) :
    (relayLoop fuel data s).2.Relaying := by
  induction fuel generalizing data s with
  | zero => exact h
  | succ fuel ih =>
    have hpushed := h.push (List.length_take_le TCP_IP_PAYLOAD_SIZE data)
    unfold TCPSession.relayLoop
    split
    · exact h
    · split
      next heq =>
        rw [heq] at hpushed
        exact hpushed
      next heq =>
        rw [heq] at hpushed
        exact ih hpushed

omit [ReceiveGate τ] in
-- One chunk is one push.
theorem relayLoop_single {fuel : Nat} {data : Bytes} (s : TCPSession τ) (hdata : data ≠ [])
    (hlen : data.length ≤ TCP_IP_PAYLOAD_SIZE) :
    (relayLoop (fuel + 1) data s).2 = (pushInBackQueue ACK data s).2 := by
  have hdone (u : TCPSession τ) : (relayLoop fuel [] u).2 = u := by cases fuel <;> rfl
  unfold relayLoop
  rw [if_neg hdata, List.take_of_length_le hlen, List.drop_eq_nil_of_le hlen]
  split
  next heq => rw [heq]
  next heq =>
    rw [heq]
    exact hdone _

theorem pauseIfFull_unblocked {s : TCPSession τ} (h : s.Unblocked) : s.pauseIfFull.Unblocked := by
  unfold pauseIfFull
  split
  next hfull =>
    refine ⟨?_, fun _ hroom => ?_⟩
    · exact h.known.elim (fun hdown => .inl (down_calls hdown (.pauseReceiveData .refl)))
        fun hstands => .inr (pause hstands)
    · unfold HasRoom at hroom
      have hhalf : TCP_SESSION_BUFFER_SIZE >>> 1 < TCP_SESSION_BUFFER_SIZE := by decide
      have hlow : s.mBackQueueDataSize < TCP_SESSION_BUFFER_SIZE >>> 1 := hroom
      exact absurd hfull (by bv_omega)
  next => exact h

theorem onTunnelDataBack_unblocked {s : TCPSession τ} {data : Bytes} (hsound : s.BackSound)
    (h : s.Unblocked) (hdata : data ≠ [])
    (hroom : s.mState = .closeWait → s.Shrinks (.tunnelDataBack data) → Stands s.mTunnel →
      Receives s.mTunnel) : (s.onTunnelDataBack data).Unblocked := by
  have hrelayed : (relayLoop data.length data s).2.Unblocked := by
    by_cases hlen : data.length ≤ TCP_IP_PAYLOAD_SIZE
    · obtain ⟨fuel, hfuel⟩ := Nat.exists_eq_succ_of_ne_zero
        (Nat.ne_of_gt (List.length_pos_iff.mpr hdata))
      rw [hfuel, Nat.succ_eq_add_one, relayLoop_single s hdata hlen]
      exact push_unblocked hsound hlen h fun hwait _ hlow => hroom hwait fun _ => hlow
    · have hrelaying : s.Relaying :=
        ⟨hsound, h, fun hwait => hroom hwait fun hle => absurd hle hlen⟩
      exact (hrelaying.relayLoop data.length).unblocked
  have hcounted : ((relayLoop data.length data s).2.countRecv
      (relayLoop data.length data s).1).Unblocked := by
    unfold countRecv
    split
    · exact hrelayed.of_eq id rfl rfl
    · exact hrelayed
  unfold onTunnelDataBack
  rw [if_neg hdata]
  exact (pauseIfFull_unblocked hcounted).of_eq id rfl rfl

/-! ## Runs -/

/-- A step in CLOSE_WAIT that leaves little in the back queue finds the tunnel receiving, and a
    tunnel neither stops receiving nor comes back to life by itself. -/
def KeepsReceiving (s : TCPSession τ) : Event τ → Prop
  | .environment tunnel _ _ =>
      Down tunnel ∨
        (Stands s.mTunnel ∧ Stands tunnel ∧ (Receives s.mTunnel → Receives tunnel))
  | e => s.mRemoteFinished = false → s.mState = .closeWait → s.Shrinks e → Stands s.mTunnel →
      Receives s.mTunnel

def Released (s : TCPSession τ) : Prop := s.mRemoteFinished = false → s.Unblocked

theorem step_released {s s' : TCPSession τ} {e : Event τ} (hopened : s.Opened) (h : s.Released)
    (hkeeps : s.KeepsReceiving e) (hstep : step s e = some s') : s'.Released := by
  intro hnot
  cases e with
  | accept ip =>
    obtain ⟨t, haccepted, rfl⟩ := accept_accepted hopened.2 hstep
    obtain ⟨total, trace, heq⟩ := countAccepted_eq ip s
    rw [heq] at haccepted
    have hfinished : s.mRemoteFinished = false :=
      (accepted_finished haccepted).symm.trans hnot
    have hcounted : Unblocked { s with mTotalAccept := total, trace := trace } :=
      (h hfinished).of_eq id rfl rfl
    have haccepted' := accepted_unblocked (s := { s with mTotalAccept := total, trace := trace })
      hopened.1 hcounted hfinished (hkeeps hfinished) haccepted
    exact haccepted'.of_eq id rfl rfl
  | tunnelConnected =>
    cases hstep
    exact h hnot
  | tunnelDisconnected reason =>
    cases hstep
    have hfinished : s.mRemoteFinished = false := Bool.eq_false_iff.mpr fun hfinished =>
      Bool.eq_false_iff.mp hnot (onTunnelDisconnected_finished hfinished reason)
    exact onTunnelDisconnected_unblocked (h hfinished).known reason hnot
  | tunnelWritable =>
    cases hstep
    have hfinished : s.mRemoteFinished = false := Bool.eq_false_iff.mpr fun hfinished =>
      Bool.eq_false_iff.mp hnot (onTunnelWritable_finished hfinished)
    exact onTunnelWritable_unblocked (h hfinished) hnot
  | tunnelDataBack data =>
    cases hstep
    by_cases hdata : data = []
    · subst hdata
      have hfinished := (flushBackQueue_frame
        { s with mTunnel := ITunnel.pauseReceiveData s.mTunnel, mRemoteFinished := true }).remoteFinished
      have hfalse : true = false := hfinished.symm.trans hnot
      cases hfalse
    · have hfinished := (onTunnelDataBack_finished hdata s).symm.trans hnot
      exact onTunnelDataBack_unblocked hopened.1 (h hfinished) hdata (hkeeps hfinished)
  | written i n =>
    cases hstep
    exact (h hnot).of_eq id rfl rfl
  | environment tunnel now rand =>
    cases hstep
    rcases hkeeps with hdown | ⟨hbefore, hstands, hreceives⟩
    · exact ⟨.inl hdown, fun _ _ hstands => absurd hstands (not_stands hdown)⟩
    · exact ⟨.inr hstands, fun hmay hroom _ => hreceives ((h hnot).receives hmay hroom hbefore)⟩

theorem run_unblocks {s s' : TCPSession τ} {es : List (Event τ)} (hborn : s.Born)
    (hstands : Stands s.mTunnel) (hkeeps : Lib.Along step KeepsReceiving s es)
    (hrun : Lib.run step s es = some s') : s'.Opened ∧ s'.Released := by
  have hnewborn := hborn.newborn
  have hstart : s.Opened ∧ s.Released := by
    refine ⟨hnewborn.opened, fun _ => unblocked_of_not_may (.inr hstands) ?_⟩
    exact not_mayFinish_of_eq hnewborn.state (by decide)
  exact Lib.Along.invariant (fun s => s.Opened ∧ s.Released)
    (fun _ _ _ h hkeeps hstep => ⟨step_opened h.1 hstep, step_released h.1 h.2 hkeeps hstep⟩)
    hstart hkeeps hrun

/-- In a run over a tunnel that stood at the beginning, whose steps in CLOSE_WAIT never leave a small
    back queue behind a paused tunnel, the tunnel of a session that still delivers is receiving
    whenever less than half the buffer is queued. -/
theorem receive_resumed {s s' : TCPSession τ} {es : List (Event τ)} (hborn : s.Born)
    (hstands : Stands s.mTunnel) (hkeeps : Lib.Along step KeepsReceiving s es)
    (hrun : Lib.run step s es = some s') (hfinished : s'.mRemoteFinished = false)
    (hstate : s'.mState = .established ∨ s'.mState = .closeWait)
    (hsize : s'.mBackQueueDataSize < TCP_SESSION_BUFFER_SIZE >>> 1) (hup : ¬ Down s'.mTunnel) :
    Receives s'.mTunnel := by
  have hunblocked := (run_unblocks hborn hstands hkeeps hrun).2 hfinished
  exact hunblocked.receives hstate hsize (hunblocked.known.resolve_left hup)

-- A packet or a call of the tunnel that finds a receiving tunnel in CLOSE_WAIT.
def FindsReading (s : TCPSession TCPTunnel) : Event TCPTunnel → Prop
  | .environment _ _ _ => False
  | _ => s.mState = .closeWait → s.mTunnel.Reading

instance (s : TCPSession TCPTunnel) : ∀ e, Decidable (s.FindsReading e)
  | .environment _ _ _ => inferInstanceAs (Decidable False)
  | .accept _ | .tunnelConnected | .tunnelDisconnected _ | .tunnelWritable | .tunnelDataBack _
  | .written _ _ => inferInstanceAs (Decidable (_ → _))

theorem FindsReading.keepsReceiving (s : TCPSession TCPTunnel) (e : Event TCPTunnel)
    (h : s.FindsReading e) : s.KeepsReceiving e := by
  cases e with
  | environment => exact absurd h id
  | accept | tunnelConnected | tunnelDisconnected | tunnelWritable | tunnelDataBack | written =>
    exact fun _ hwait _ _ => h hwait

theorem sampleBorn_stands : Stands (sampleBorn sampleTunnel).mTunnel := by
  let stub : EventStub := ⟨evREAD ||| evERROR, epollIN, 5, some 1, 0⟩
  have hlookup : (sampleBorn sampleTunnel).mTunnel.reactor.mFd2Events.lookup
      (sampleBorn sampleTunnel).mTunnel.mSocket = some stub := by decide
  refine ⟨by decide, by decide, evREAD ||| evERROR, ⟨by decide, stub, hlookup, ?_⟩, by decide⟩
  exact ⟨by decide, rfl, by decide⟩

theorem receive_resumed_sample :
    ∃ s' : TCPSession TCPTunnel,
      Lib.run step (sampleBorn sampleTunnel)
        [.accept (samplePacket 101 1001 ACK [] (by decide)), .tunnelDataBack [1, 2, 3],
          .accept (samplePacket 101 1001 (FIN ||| ACK) [] (by decide)), .tunnelDataBack [4],
          .accept (samplePacket 102 1004 ACK [] (by decide))] = some s' ∧
      Receives s'.mTunnel := by
  have hreach : ∃ s' : TCPSession TCPTunnel,
      Lib.run step (sampleBorn sampleTunnel)
        [.accept (samplePacket 101 1001 ACK [] (by decide)), .tunnelDataBack [1, 2, 3],
          .accept (samplePacket 101 1001 (FIN ||| ACK) [] (by decide)), .tunnelDataBack [4],
          .accept (samplePacket 102 1004 ACK [] (by decide))] = some s' ∧
      s'.mRemoteFinished = false ∧ s'.mState = .closeWait ∧
      s'.mBackQueueDataSize < TCP_SESSION_BUFFER_SIZE >>> 1 ∧ ¬ s'.mTunnel.mSocket < 0 :=
    Lib.run_reaches (by decide)
  obtain ⟨s', hrun, hfinished, hstate, hsize, hup⟩ := hreach
  have hreading : Lib.Along step FindsReading (sampleBorn sampleTunnel)
      [.accept (samplePacket 101 1001 ACK [] (by decide)), .tunnelDataBack [1, 2, 3],
        .accept (samplePacket 101 1001 (FIN ||| ACK) [] (by decide)), .tunnelDataBack [4],
        .accept (samplePacket 102 1004 ACK [] (by decide))] := by decide
  exact ⟨s', hrun, receive_resumed (sampleBorn_born (by decide)) sampleBorn_stands
    (hreading.mono FindsReading.keepsReceiving) hrun hfinished (.inr hstate) hsize hup⟩

/-! ## A download that stops -/

section Stopped

variable {τ : Type}

def total (queue : List TCPDatagram) : U32 :=
  queue.foldr (fun d n => n + BitVec.ofNat 32 d.capacity) 0

theorem total_append (queue : List TCPDatagram) (d : TCPDatagram) :
    total (queue ++ [d]) = total queue + BitVec.ofNat 32 d.capacity := by
  induction queue with
  | nil => rfl
  | cons x queue ih =>
    show total (queue ++ [d]) + BitVec.ofNat 32 x.capacity =
      total queue + BitVec.ofNat 32 x.capacity + BitVec.ofNat 32 d.capacity
    rw [ih]
    bv_omega

theorem foldl_total (queue : List TCPDatagram) (m : U32) :
    queue.foldl (fun n d => n - BitVec.ofNat 32 d.capacity) (m + total queue) = m := by
  induction queue generalizing m with
  | nil => exact BitVec.add_zero m
  | cons d queue ih =>
    have hnext : m + total (d :: queue) - BitVec.ofNat 32 d.capacity = m + total queue := by
      show m + (total queue + BitVec.ofNat 32 d.capacity) - BitVec.ofNat 32 d.capacity = _
      bv_omega
    rw [List.foldl_cons, hnext, ih]

variable [ITunnel τ]

theorem newSegment_capacity (data : Bytes) (s : TCPSession τ) :
    (s.newSegment ACK data).capacity = 40 + data.length := by
  show (s.updateWindowSize.packageBytes ACK data).length = _
  rw [length_packageBytes]
  rfl

-- A push behind a front that stays, in a session that is not closed.
theorem push_behind {s : TCPSession τ} {d : TCPDatagram} {queue : List TCPDatagram} {data : Bytes}
    (hsound : s.BackSound) (hqueue : s.mBackQueue = d :: queue) (horder : ¬ s.mLocalNext < d.mSeq)
    (hstays : popsSegment s.mLocalNext d = false) (hle : s.mLocalNext ≤ s.mLocalSeq)
    (hdata : data.length ≤ TCP_IP_PAYLOAD_SIZE) (hopen : s.mState ≠ .closed) :
    ∃ (d' : TCPDatagram) (t : TCPSession τ), pushInBackQueue ACK data s = (true, t) ∧
      (d' = d ∨ d' = handedOver d) ∧ t.mBackQueue = d' :: (queue ++ [s.newSegment ACK data]) ∧
      t.BackSound ∧ t.mState = s.mState ∧
      t.mLocalSeq = s.mLocalSeq + BitVec.ofNat 32 data.length ∧
      t.mBackQueueDataSize = s.mBackQueueDataSize + BitVec.ofNat 32 (40 + data.length) ∧
      (t.mTunnel = s.mTunnel ∨ s.mState = .established ∧ HasRoom t.mBackQueueDataSize ∧
        t.mTunnel = ITunnel.resumeReceiveData s.mTunnel) := by
  have hpushed : (s.enqueueBack ACK data).mBackQueue = d :: (queue ++ [s.newSegment ACK data]) := by
    rw [enqueueBack_mBackQueue, hqueue, List.cons_append]
  have hpop : (s.enqueueBack ACK data).popAcked = s.enqueueBack ACK data :=
    popAcked_of_front hpushed hstays
  have hsound' := enqueueBack_sound hsound ACK hdata
  obtain ⟨d', hqueue', hd', hstate', hseq', -⟩ := sendBackData_orderly hsound' hpushed horder
  have hends := sendBackData_ends hsound'
  have hsize : (s.enqueueBack ACK data).mBackQueueDataSize =
      s.mBackQueueDataSize + BitVec.ofNat 32 (40 + data.length) := by
    rw [← newSegment_capacity data s]
    rfl
  refine ⟨d', (s.enqueueBack ACK data).sendBackData, ?_, hd', hqueue', sendBackData_sound hsound',
    hstate', ?_, ?_⟩
  · rw [pushInBackQueue_of_le hle, hpop]
  · rw [hseq', enqueueBack_mLocalSeq, newSegment_seqLen, if_neg (by decide)]
  · rcases hends with heq | ⟨u, heq, htunnel, husize, hustate⟩
    · rw [heq, resetConnection_mState] at hstate'
      exact absurd hstate'.symm hopen
    · rw [heq, ← hsize, ← husize]
      unfold resumeIfRoom
      split
      next hroom =>
        refine ⟨rfl, .inr ⟨hustate.symm.trans hroom.1, hroom.2, ?_⟩⟩
        exact congrArg ITunnel.resumeReceiveData htunnel
      next => exact ⟨rfl, .inl htunnel⟩

variable [ReceiveGate τ]

-- An established session that has numbered `n` bytes, none of which is acknowledged.
structure Filled (n : Nat) (s : TCPSession τ) : Prop where
  sound : s.BackSound
  established : s.mState = .established
  unfinished : s.mRemoteFinished = false
  localBase : s.mLocalSeqBase = 1000
  next : s.mLocalNext = 1
  seq : s.mLocalSeq.toNat = 1 + n
  front : ∃ d queue, s.mBackQueue = d :: queue ∧ d.mSeq = 1 ∧ 0 < d.mLength
  below : ∀ d ∈ s.mBackQueue, d.mSeq.toNat ≤ n
  size : s.mBackQueueDataSize = total s.mBackQueue
  least : n ≤ s.mBackQueueDataSize.toNat
  most : s.mBackQueueDataSize.toNat ≤ 41 * n
  stands : Stands s.mTunnel

omit [ITunnel τ] [ReceiveGate τ] in
-- A segment with payload at the left edge is neither popped nor out of order.
theorem front_stays {next : U32} {d : TCPDatagram} (hseq : d.mSeq = next) (hlength : 0 < d.mLength) :
    popsSegment next d = false ∧ ¬ next < d.mSeq := by
  unfold popsSegment
  rw [hseq]
  have hne : ¬ d.mLength = 0 := by omega
  have hlt : ¬ next < next := BitVec.lt_irrefl next
  exact ⟨by simp [hne, hlt], hlt⟩

theorem Filled.push {n : Nat} {s : TCPSession τ} (h : Filled n s) {data : Bytes}
    (hpos : 0 < data.length) (hdata : data.length ≤ TCP_IP_PAYLOAD_SIZE)
    (hroom : n + data.length ≤ 2 ^ 20) :
    ∃ t, pushInBackQueue ACK data s = (true, t) ∧ Filled (n + data.length) t := by
  obtain ⟨d, queue, hqueue, hseq, hlength⟩ := h.front
  obtain ⟨hstays, horder⟩ := front_stays (hseq.trans h.next.symm) hlength
  have hnextSeq := h.seq
  have hle : s.mLocalNext ≤ s.mLocalSeq := by
    rw [h.next, BitVec.le_def, hnextSeq]
    show 1 ≤ 1 + n
    omega
  obtain ⟨d', t, hpush, hd', hqueue', hsound, hstate, hseq', hsize, htunnel⟩ :=
    push_behind h.sound hqueue horder hstays hle hdata (by rw [h.established]; decide)
  have hframe := pushInBackQueue_frame ACK data s
  rw [hpush] at hframe
  have hsame : d'.mSeq = d.mSeq ∧ d'.mLength = d.mLength ∧ d'.capacity = d.capacity := by
    rcases hd' with rfl | rfl
    · exact ⟨rfl, rfl, rfl⟩
    · exact ⟨rfl, rfl, rfl⟩
  have hleast := h.least
  have hmost := h.most
  have hgrown : t.mBackQueueDataSize.toNat = s.mBackQueueDataSize.toNat + (40 + data.length) := by
    rw [hsize, BitVec.toNat_add, BitVec.toNat_ofNat]
    omega
  refine ⟨t, hpush, hsound, hstate.trans h.established, hframe.remoteFinished.trans h.unfinished,
    hframe.localSeqBase.trans h.localBase, hframe.localNext.trans h.next, ?_, ?_, ?_, ?_, ?_, ?_, ?_⟩
  · rw [hseq', BitVec.toNat_add, BitVec.toNat_ofNat, hnextSeq]
    omega
  · exact ⟨d', _, hqueue', hsame.1.trans hseq, hsame.2.1.symm ▸ hlength⟩
  · rw [hqueue']
    intro x hx
    rcases List.mem_cons.mp hx with rfl | hx
    · rw [hsame.1]
      have hfront := h.below d (by rw [hqueue]; exact List.mem_cons_self)
      omega
    · rcases List.mem_append.mp hx with hx | hx
      · have hold := h.below x (by rw [hqueue]; exact List.mem_cons_of_mem d hx)
        omega
      · rw [List.mem_singleton.mp hx, newSegment_mSeq, hnextSeq]
        omega
  · have htotal : total (d' :: (queue ++ [s.newSegment ACK data])) =
        total (d :: queue ++ [s.newSegment ACK data]) := by
      show total (queue ++ _) + BitVec.ofNat 32 d'.capacity = total (queue ++ _) + _
      rw [hsame.2.2]
    rw [hqueue', htotal, total_append, newSegment_capacity, hsize, h.size, hqueue]
  · omega
  · omega
  · rcases htunnel with heq | ⟨-, -, heq⟩
    · rw [heq]
      exact h.stands
    · rw [heq]
      exact (resume h.stands).1

theorem Filled.relayLoop {n fuel : Nat} {data : Bytes} {s : TCPSession τ} (h : Filled n s)
    (hfuel : data.length ≤ fuel) (hroom : n + data.length ≤ 2 ^ 20) :
    Filled (n + data.length) (relayLoop fuel data s).2 := by
  induction fuel generalizing n data s with
  | zero =>
    rw [show data.length = 0 by omega]
    exact h
  | succ fuel ih =>
    unfold TCPSession.relayLoop
    by_cases hdata : data = []
    · rw [if_pos hdata, hdata]
      exact h
    · have hpos := List.length_pos_iff.mpr hdata
      have hsize : 0 < TCP_IP_PAYLOAD_SIZE := by decide
      have htake := List.length_take (i := TCP_IP_PAYLOAD_SIZE) (l := data)
      have hdrop := List.length_drop (i := TCP_IP_PAYLOAD_SIZE) (l := data)
      have htakePos : 0 < (data.take TCP_IP_PAYLOAD_SIZE).length := by omega
      have hdropFuel : (data.drop TCP_IP_PAYLOAD_SIZE).length ≤ fuel := by omega
      obtain ⟨t, hpush, hfilled⟩ := h.push htakePos (by omega) (by omega)
      have hrest := ih hfilled hdropFuel (by omega)
      rw [if_neg hdata, hpush]
      simp only
      rw [show n + data.length = n + (data.take TCP_IP_PAYLOAD_SIZE).length +
        (data.drop TCP_IP_PAYLOAD_SIZE).length by omega]
      exact hrest

theorem Filled.inert {n : Nat} {s t : TCPSession τ} (h : Filled n s) (hinert : Inert s t)
    (hbase : t.mLocalSeqBase = s.mLocalSeqBase) (hsize : t.mBackQueueDataSize = s.mBackQueueDataSize)
    (hstands : Stands t.mTunnel) : Filled n t where
  sound := by
    unfold BackSound
    rw [hinert.backQueue]
    exact h.sound
  established := hinert.state.trans h.established
  unfinished := hinert.remoteFinished.trans h.unfinished
  localBase := hbase.trans h.localBase
  next := hinert.localNext.trans h.next
  seq := hinert.localSeq ▸ h.seq
  front := hinert.backQueue ▸ h.front
  below := hinert.backQueue ▸ h.below
  size := by
    rw [hsize, hinert.backQueue]
    exact h.size
  least := hsize ▸ h.least
  most := hsize ▸ h.most
  stands := hstands

-- A delivery is numbered whole, and pauses the tunnel if it fills the queue.
theorem Filled.onTunnelDataBack {n : Nat} {s : TCPSession τ} (h : Filled n s) {data : Bytes}
    (hdata : data ≠ []) (hroom : n + data.length ≤ 2 ^ 20) :
    Filled (n + data.length) (s.onTunnelDataBack data) ∧ (2 ^ 18 ≤ n + data.length →
      ∃ t : τ, Stands t ∧ (s.onTunnelDataBack data).mTunnel = ITunnel.pauseReceiveData t) := by
  have hrelayed := h.relayLoop (Nat.le_refl _) hroom
  generalize hr : TCPSession.relayLoop data.length data s = r at hrelayed
  have hcounted : Filled (n + data.length) (r.2.countRecv r.1) := by
    have hinert := countRecv_inert r.1 r.2
    unfold countRecv at hinert ⊢
    split
    · rw [if_pos ‹_›] at hinert
      exact hrelayed.inert hinert rfl rfl hrelayed.stands
    · exact hrelayed
  have hinert := (pauseIfFull_inert (r.2.countRecv r.1)).trans (noteTime_inert _)
  have heq : s.onTunnelDataBack data = noteTime (r.2.countRecv r.1).pauseIfFull := by
    unfold TCPSession.onTunnelDataBack
    rw [if_neg hdata, hr]
  have hleast := hcounted.least
  rw [heq]
  unfold pauseIfFull at hinert ⊢
  split
  next hfull =>
    rw [if_pos hfull] at hinert
    refine ⟨hcounted.inert hinert rfl rfl (pause hcounted.stands), fun _ => ?_⟩
    exact ⟨_, hcounted.stands, rfl⟩
  next hnot =>
    rw [if_neg hnot] at hinert
    refine ⟨hcounted.inert hinert rfl rfl hcounted.stands, fun hfull => absurd ?_ hnot⟩
    rw [BitVec.le_def]
    show 2 ^ 18 ≤ _
    omega

-- Deliveries of one size.
theorem Filled.run_deliveries {n : Nat} {s : TCPSession τ} (h : Filled n s) {data : Bytes}
    (hdata : data ≠ []) (count : Nat) (hroom : n + count * data.length ≤ 2 ^ 20) :
    ∃ t, Lib.run step s (List.replicate count (.tunnelDataBack data)) = some t ∧
      Filled (n + count * data.length) t := by
  induction count generalizing n s with
  | zero => exact ⟨s, rfl, by simpa using h⟩
  | succ count ih =>
    rw [Nat.succ_mul] at hroom ⊢
    obtain ⟨hnext, -⟩ := h.onTunnelDataBack hdata (by omega)
    obtain ⟨t, hrun, hfilled⟩ := ih hnext (by omega)
    refine ⟨t, ?_, ?_⟩
    · rw [List.replicate_succ, Lib.run_cons _ rfl]
      exact hrun
    · rw [show n + (count * data.length + data.length) = n + data.length + count * data.length by
        omega]
      exact hfilled

-- The FIN of the application has been acknowledged over `n` bytes not yet acknowledged.
structure Waiting (n : Nat) (s : TCPSession τ) : Prop where
  sound : s.BackSound
  waits : s.mState = .closeWait
  unfinished : s.mRemoteFinished = false
  localBase : s.mLocalSeqBase = 1000
  next : s.mLocalNext = 1
  queue : ∃ (queue : List TCPDatagram) (u : TCPSession τ), s.mBackQueue = queue ++ [u.newSegment ACK []] ∧
    (∀ d ∈ queue, d.mSeq.toNat ≤ n) ∧ u.mLocalSeq.toNat = 1 + n
  size : s.mBackQueueDataSize = total s.mBackQueue

-- The FIN finds the queue full and leaves the tunnel alone.
theorem Filled.accept_fin {n : Nat} {s : TCPSession τ} (h : Filled n s) (hfull : 2 ^ 17 ≤ n)
    (hroom : n ≤ 2 ^ 20) :
    ∃ t, s.accept (samplePacket 101 1001 (FIN ||| ACK) [] (by decide)) = some t ∧ Waiting n t ∧
      t.mTunnel = s.mTunnel := by
  obtain ⟨total', trace', hcounted⟩ :=
    countAccepted_eq (samplePacket 101 1001 (FIN ||| ACK) [] (by decide)) s
  generalize hip : samplePacket 101 1001 (FIN ||| ACK) [] (by decide) = ip at hcounted
  obtain ⟨d, queue, hqueue, hseq, hlength⟩ := h.front
  generalize hu : ({ s with mTotalAccept := total', trace := trace' } : TCPSession τ) = u at hcounted
  have hack : u.relativeAck ip = 1 := by
    rw [← hu, ← hip]
    show tcpRelativeSeq 1001 s.mLocalSeqBase = 1
    rw [h.localBase]
    decide
  have hnext : (u.finNumbered ip).mLocalNext = 1 := by
    show (if u.mLocalNext ≤ u.relativeAck ip then u.relativeAck ip else u.mLocalNext) = 1
    rw [hack, if_pos]
    rw [← hu]
    show s.mLocalNext ≤ 1
    rw [h.next]
    exact BitVec.le_refl _
  have hstate : (u.finNumbered ip).mState = .established := by
    rw [← hu]
    exact h.established
  have hfront : (u.finNumbered ip).mBackQueue = d :: queue := by
    rw [← hu]
    exact hqueue
  have hseqU : (u.finNumbered ip).mLocalSeq = s.mLocalSeq := by rw [← hu]; rfl
  have hsizeU : (u.finNumbered ip).mBackQueueDataSize = s.mBackQueueDataSize := by rw [← hu]; rfl
  have htunnelU : (u.finNumbered ip).mTunnel = s.mTunnel := by rw [← hu]; rfl
  have hfinishedU : (u.finNumbered ip).mRemoteFinished = false := by
    rw [← hu]
    exact h.unfinished
  have hbaseU : (u.finNumbered ip).mLocalSeqBase = 1000 := by
    rw [← hu]
    exact h.localBase
  have hsoundU : (u.finNumbered ip).BackSound := by
    rw [← hu]
    exact h.sound
  have hseqNat := h.seq
  have hle : (u.finNumbered ip).mLocalNext ≤ (u.finNumbered ip).mLocalSeq := by
    rw [hnext, hseqU, BitVec.le_def, hseqNat]
    show 1 ≤ 1 + n
    omega
  obtain ⟨hstays, horder⟩ := front_stays (hseq.trans hnext.symm) hlength
  have hempty : ([] : Bytes).length ≤ TCP_IP_PAYLOAD_SIZE := Nat.zero_le _
  obtain ⟨d', t, hpush, hd', hqueue', hsound, hstate', hseq', hsize, htunnel⟩ :=
    push_behind hsoundU hfront horder hstays hle hempty (by rw [hstate]; decide)
  have hframe := pushInBackQueue_frame ACK [] (u.finNumbered ip)
  rw [hpush] at hframe
  have hsame : d'.mSeq = d.mSeq ∧ d'.capacity = d.capacity := by
    rcases hd' with rfl | rfl <;> exact ⟨rfl, rfl⟩
  have hleast := h.least
  have hmost := h.most
  -- too much is queued for the flush of the FIN to resume the tunnel
  have hfull' : ¬ HasRoom t.mBackQueueDataSize := by
    unfold HasRoom
    rw [hsize, hsizeU, BitVec.lt_def, BitVec.toNat_add]
    show ¬ (_ + 40) % 2 ^ 32 < 2 ^ 17
    omega
  have htunnel' : t.mTunnel = s.mTunnel := by
    rcases htunnel with heq | ⟨-, hroom, -⟩
    · exact heq.trans htunnelU
    · exact absurd hroom hfull'
  refine ⟨noteTime (t.switchState .closeWait), ?_, ?_, ?_⟩
  · unfold accept dispatchFlags
    rw [hcounted, ← hip, if_neg (by decide), if_pos (by decide), hip]
    unfold onReceiveFIN
    rw [show u.mState = .established from hstate, hpush]
    rfl
  · refine ⟨?_, switchState_mState _ _, ?_, ?_, ?_, ⟨d' :: queue, u.finNumbered ip, ?_, ?_, ?_⟩, ?_⟩
    · exact switchState_sound hsound
    · exact ((switchState_frame _ t).remoteFinished.trans hframe.remoteFinished).trans hfinishedU
    · exact ((switchState_frame _ t).localSeqBase.trans hframe.localSeqBase).trans hbaseU
    · exact ((switchState_frame _ t).localNext.trans hframe.localNext).trans hnext
    · exact (switchState_backQueue _ t).trans hqueue'
    · intro x hx
      rcases List.mem_cons.mp hx with rfl | hx
      · rw [hsame.1]
        exact h.below d (by rw [hqueue]; exact List.mem_cons_self)
      · exact h.below x (by rw [hqueue]; exact List.mem_cons_of_mem d hx)
    · rw [hseqU]
      exact hseqNat
    · have htotal : total (d' :: (queue ++ [(u.finNumbered ip).newSegment ACK []])) =
          total (d :: queue ++ [(u.finNumbered ip).newSegment ACK []]) := by
        show total (queue ++ _) + BitVec.ofNat 32 d'.capacity = total (queue ++ _) + _
        rw [hsame.2]
      show (t.switchState .closeWait).mBackQueueDataSize = total (t.switchState .closeWait).mBackQueue
      rw [switchState_size, switchState_backQueue, hqueue', htotal, total_append,
        newSegment_capacity, hsize, hsizeU, h.size, hqueue]
  · exact (switchState_mTunnel t (by decide)).trans htunnel'

omit [ReceiveGate τ] in
-- An acknowledgement of everything drains the queue and leaves the tunnel as it is.
theorem Waiting.accept_ack {n : Nat} {s : TCPSession τ} (h : Waiting n s) {ack_seq : U32}
    (hack : tcpRelativeSeq ack_seq 1000 = BitVec.ofNat 32 (1 + n)) (hroom : n ≤ 2 ^ 20) :
    ∃ t, s.accept (samplePacket 102 ack_seq ACK [] (by decide)) = some t ∧ t.mState = .closeWait ∧
      t.mRemoteFinished = false ∧ t.mBackQueueDataSize = 40 ∧ t.mTunnel = s.mTunnel := by
  obtain ⟨total', trace', hcounted⟩ :=
    countAccepted_eq (samplePacket 102 ack_seq ACK [] (by decide)) s
  generalize hip : samplePacket 102 ack_seq ACK [] (by decide) = ip at hcounted
  generalize hu : ({ s with mTotalAccept := total', trace := trace' } : TCPSession τ) = u at hcounted
  obtain ⟨queue, w, hqueue, hbelow, hseq⟩ := h.queue
  have hrelative : u.relativeAck ip = BitVec.ofNat 32 (1 + n) := by
    rw [← hu, ← hip]
    show tcpRelativeSeq ack_seq s.mLocalSeqBase = _
    rw [h.localBase]
    exact hack
  have hedge : (BitVec.ofNat 32 (1 + n)).toNat = 1 + n := by
    rw [BitVec.toNat_ofNat]
    omega
  have hnew : u.mLocalNext ≤ u.relativeAck ip := by
    rw [hrelative, BitVec.le_def, hedge, ← hu]
    show s.mLocalNext.toNat ≤ 1 + n
    rw [h.next]
    show 1 ≤ 1 + n
    omega
  generalize hv : u.acknowledged ip = v
  have hqueueV : v.mBackQueue = queue ++ [w.newSegment ACK []] := by
    rw [← hv, ← hu]
    exact hqueue
  have hnextV : v.mLocalNext = BitVec.ofNat 32 (1 + n) := by
    rw [← hv]
    exact hrelative
  have hstateV : v.mState = .closeWait := by
    rw [← hv, ← hu]
    exact h.waits
  have hfinishedV : v.mRemoteFinished = false := by
    rw [← hv, ← hu]
    exact h.unfinished
  have hsoundV : v.BackSound := by
    rw [← hv, ← hu]
    exact h.sound
  have htunnelV : v.mTunnel = s.mTunnel := by rw [← hv, ← hu]; rfl
  have hsizeV : v.mBackQueueDataSize = total v.mBackQueue := by
    rw [hqueueV, ← hqueue, ← h.size, ← hv, ← hu]
    rfl
  have hpops : ∀ d ∈ queue, popsSegment v.mLocalNext d := by
    intro d hd
    have hlow := hbelow d hd
    have hlt : d.mSeq < v.mLocalNext := by
      rw [hnextV, BitVec.lt_def, hedge]
      omega
    simp [popsSegment, hlt]
  have hkept : popsSegment v.mLocalNext (w.newSegment ACK []) = false := by
    have hnot : ¬ w.mLocalSeq < v.mLocalNext := by
      rw [hnextV, BitVec.lt_def, hedge, hseq]
      omega
    simp [popsSegment, hnot]
  have hqueueP : v.popAcked.mBackQueue = [w.newSegment ACK []] := by
    rw [popAcked_mBackQueue, hqueueV, List.dropWhile_append_of_pos hpops, List.dropWhile_cons,
      hkept, if_neg Bool.false_ne_true]
  have hsizeP : v.popAcked.mBackQueueDataSize = 40 := by
    have htake : v.mBackQueue.takeWhile (popsSegment v.mLocalNext) = queue := by
      rw [hqueueV, List.takeWhile_append_of_pos hpops, List.takeWhile_cons, hkept,
        if_neg Bool.false_ne_true, List.append_nil]
    rw [popAcked_size, sizeBehind, htake, hsizeV, hqueueV, total_append, newSegment_capacity,
      BitVec.add_comm]
    exact foldl_total queue 40
  have horder : ¬ v.popAcked.mLocalNext < (w.newSegment ACK []).mSeq := by
    rw [(popAcked_frame v).localNext, hnextV, newSegment_mSeq, BitVec.lt_def, hedge, hseq]
    omega
  have hsoundP := popAcked_sound hsoundV
  obtain ⟨-, -, -, hstateS, -⟩ := sendBackData_orderly hsoundP hqueueP horder
  rw [popAcked_mState, hstateV] at hstateS
  have hflush : v.flushBackQueue = v.popAcked.sendBackData := by
    refine flushBackQueue_of_not_finDue fun hfin => ?_
    have hdue := hfin.1
    rw [(popAcked_frame v).remoteFinished, hfinishedV] at hdue
    cases hdue
  have hflag : ip.flag = ACK := by rw [← hip]; rfl
  have honly : onReceiveACK ip v = some v.flushBackQueue := by
    unfold onReceiveACK
    rw [hstateV]
  refine ⟨noteTime v.flushBackQueue, ?_, ?_, ?_, ?_⟩
  · unfold accept dispatchFlags
    rw [hcounted, hflag, if_neg (by decide), if_neg (by decide), if_neg (by decide)]
    simp only
    rw [if_pos hnew]
    show Option.map noteTime (onReceiveACK ip (u.acknowledged ip)) = _
    rw [hv, honly]
    rfl
  · exact (congrArg mState hflush).trans hstateS
  · exact (flushBackQueue_frame v).remoteFinished.trans hfinishedV
  · show v.flushBackQueue.mBackQueueDataSize = 40 ∧ v.flushBackQueue.mTunnel = s.mTunnel
    rw [hflush]
    rcases sendBackData_ends hsoundP with heq | ⟨x, heq, htunnel, hsize, hstate⟩
    · rw [heq, resetConnection_mState] at hstateS
      cases hstateS
    · have hwaits : x.mState = .closeWait := by
        rw [hstate, popAcked_mState]
        exact hstateV
      rw [heq, resumeIfRoom, if_neg fun h => absurd (hwaits.symm.trans h.1) (by decide)]
      exact ⟨hsize.trans hsizeP, htunnel.trans ((popAcked_mTunnel v).trans htunnelV)⟩

end Stopped

-- The five deliveries of all that `SHARED_BUFFER_SIZE` holds that fill the queue.
def sampleDeliveries : List (Event TCPTunnel) :=
  List.replicate 5 (.tunnelDataBack (List.replicate 61440 0))

/-- Pausing over a full queue, a FIN of the application and an acknowledgement of everything: the
    queue is drained, the remote has not finished, and nothing is read from it any more. -/
theorem receive_stopped :
    (sampleBorn sampleTunnel).Born ∧ Stands (sampleBorn sampleTunnel).mTunnel ∧
      ∃ s' : TCPSession TCPTunnel,
        Lib.run step (sampleBorn sampleTunnel)
          ([.accept (samplePacket 101 1001 ACK [] (by decide)), .tunnelDataBack [0x61]] ++
            sampleDeliveries ++
            [.accept (samplePacket 101 1001 (FIN ||| ACK) [] (by decide)),
              .accept (samplePacket 102 308202 ACK [] (by decide))]) = some s' ∧
        s'.mRemoteFinished = false ∧ s'.mState = .closeWait ∧
        s'.mBackQueueDataSize < TCP_SESSION_BUFFER_SIZE >>> 1 ∧ ¬ Down s'.mTunnel ∧
        ¬ Receives s'.mTunnel := by
  refine ⟨sampleBorn_born (by decide), sampleBorn_stands, ?_⟩
  have hreach : ∃ s : TCPSession TCPTunnel,
      Lib.run step (sampleBorn sampleTunnel)
        [.accept (samplePacket 101 1001 ACK [] (by decide)), .tunnelDataBack [0x61]] = some s ∧
      (s.mState = .established ∧ s.mRemoteFinished = false ∧ s.mLocalSeqBase = 1000 ∧
        s.mLocalNext = 1 ∧ s.mLocalSeq = 2 ∧ s.mBackQueueDataSize = 41 ∧
        ¬ s.mTunnel.mSocket < 0 ∧ s.mBackQueue.length = 1 ∧ s.mBackQueueDataSize = total s.mBackQueue ∧
        s.mBackQueue.all fun d => d.mSeq = 1 ∧ d.mLength = 1) := Lib.run_reaches (by decide)
  obtain ⟨s, hrun, hstate, hfinished, hbase, hnext, hseq, hsize, hup, hlen, htotal, hall⟩ := hreach
  have hreading : Lib.Along step FindsReading (sampleBorn sampleTunnel)
      [.accept (samplePacket 101 1001 ACK [] (by decide)), .tunnelDataBack [0x61]] := by decide
  obtain ⟨hopened, hreleased⟩ := run_unblocks (sampleBorn_born (by decide)) sampleBorn_stands
    (hreading.mono FindsReading.keepsReceiving) hrun
  obtain ⟨d, hqueue⟩ := List.length_eq_one_iff.mp hlen
  have hd : d.mSeq = 1 ∧ d.mLength = 1 := by
    rw [hqueue] at hall
    simpa using hall
  have hfilled : Filled 1 s := by
    refine ⟨hopened.1, hstate, hfinished, hbase, hnext, ?_, ⟨d, [], hqueue, hd.1, ?_⟩, ?_, htotal, ?_,
      ?_, (hreleased hfinished).known.resolve_left hup⟩
    · rw [hseq]
      rfl
    · rw [hd.2]
      exact Nat.zero_lt_one
    · rw [hqueue]
      intro x hx
      rw [List.mem_singleton.mp hx, hd.1]
      decide
    · rw [hsize]
      decide
    · rw [hsize]
      decide
  have hbytes : (List.replicate 61440 (0 : U8)).length = 61440 := List.length_replicate
  unfold sampleDeliveries
  generalize List.replicate 61440 (0 : U8) = data at hbytes
  have hdata : data ≠ [] := by
    rintro rfl
    exact absurd hbytes (by decide)
  -- four deliveries fit, the fifth pauses the tunnel
  obtain ⟨u, hu, hfour⟩ := hfilled.run_deliveries hdata 4 (by omega)
  obtain ⟨hpaused, hpauses⟩ := hfour.onTunnelDataBack hdata (by omega)
  obtain ⟨t, hstands, htunnel⟩ := hpauses (by omega)
  obtain ⟨v, hv, hwaiting, hvtunnel⟩ := hpaused.accept_fin (by omega) (by omega)
  rw [hbytes] at hwaiting
  have hall : tcpRelativeSeq 308202 1000 = BitVec.ofNat 32 (1 + (1 + 4 * 61440 + 61440)) := by decide
  obtain ⟨w, hw, hwstate, hwfinished, hwsize, hwtunnel⟩ := hwaiting.accept_ack hall (by omega)
  have hpause := TCPTunnel.Connected.pause hstands
  have hgate : w.mTunnel = t.pauseReceiveData := hwtunnel.trans (hvtunnel.trans htunnel)
  refine ⟨w, ?_, hwfinished, hwstate, ?_, ?_, ?_⟩
  · rw [List.replicate_succ', List.append_assoc, List.append_assoc, Lib.run_append _ hrun,
      Lib.run_append _ hu, List.singleton_append, Lib.run_cons _ rfl, Lib.run_cons _ hv,
      Lib.run_cons _ hw, Lib.run_nil]
  · rw [hwsize]
    decide
  · rw [hgate]
    exact fun hdown => not_stands hdown hpause.1
  · rw [hgate]
    exact hpause.2

end TCPSession

end NetCore
