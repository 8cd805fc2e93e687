import NetCore.TCPSession.BackInvariant

/-!
# Accepting packets

What the functions under `accept` do, one lemma for each.  A SACK option changes nothing:
`getOptionAddr` returns the address of its kind byte, which `onSack` reads as the length.
-/

namespace NetCore

/-- Neither SYN, FIN nor RST. -/
def Packet.Plain (ip : Packet) : Prop :=
  hasFlag ip.flag SYN = false ∧ hasFlag ip.flag FIN = false ∧ hasFlag ip.flag RST = false

instance (ip : Packet) : Decidable ip.Plain := inferInstanceAs (Decidable (_ ∧ _ ∧ _))

namespace TCPSession

variable {τ : Type}

theorem onSack_of_kind {sack : Bytes} (h : byteAt sack 0 = optSACK) (s : TCPSession τ) :
    onSack sack s = s := by
  unfold onSack
  simp only
  rw [h, if_pos (by decide)]

theorem countAccepted_frame (ip : Packet) (s : TCPSession τ) : BackFrame s (s.countAccepted ip) := by
  refine BackFrame.trans ?_ (emit_frame rfl _)
  split
  · refine BackFrame.trans ?_ (emit_frame rfl _)
    exact { BackFrame.refl s with }
  · exact { BackFrame.refl s with }

theorem countAccepted_inert (ip : Packet) (s : TCPSession τ) : Inert s (s.countAccepted ip) := by
  refine Inert.trans ?_ (emit_inert (by simp [TracePoint.inert]) _)
  split
  · exact ⟨rfl, rfl, rfl, rfl, rfl, [.captured ip], rfl, by simp [TracePoint.inert]⟩
  · exact .of_eq rfl rfl rfl rfl rfl rfl

theorem countAccepted_eq (ip : Packet) (s : TCPSession τ) :
    ∃ total trace, s.countAccepted ip = { s with mTotalAccept := total, trace := trace } := by
  unfold countAccepted
  simp only
  split <;> exact ⟨_, _, rfl⟩

@[simp] theorem noteTime_trace (s : TCPSession τ) : s.noteTime.trace = s.trace := rfl

theorem noteTime_inert (s : TCPSession τ) : Inert s s.noteTime := .of_eq rfl rfl rfl rfl rfl rfl

def filledDatagram (ip : Packet) (s : TCPSession τ) : TCPDatagram :=
  (s.forwardDatagram ip).withSegment ((s.forwardDatagram ip).write ip.payload)

theorem filledDatagram_readable (ip : Packet) (s : TCPSession τ) :
    (s.filledDatagram ip).readable = ip.payload := by
  have hfits := ip.fits
  have hroom : ip.payload.length ≤ (Segment.new ip.payload.length).remain := by
    unfold Segment.remain Segment.capacity Segment.new
    simp only [Nat.sub_zero]
    split
    · omega
    · rw [List.length_replicate]
  exact Segment.readable_write_of_le hroom

theorem filledDatagram_size (ip : Packet) (s : TCPSession τ) :
    (s.filledDatagram ip).size = ip.payload.length := by
  rw [← Segment.length_readable, filledDatagram_readable]

variable [ITunnel τ]

def queuedForward (ip : Packet) (s : TCPSession τ) : TCPSession τ :=
  let datagram := s.filledDatagram ip
  let size := s.mForwardQueueDataSize + BitVec.ofNat 32 datagram.size
  { s with
    mForwardQueue :=
      s.mForwardQueue.insertIdx
        (BufferQueue.findNotSmaller TCPDatagram.compare (s.forwardDatagram ip) s.mForwardQueue)
        datagram
    mForwardQueueDataSize := size
    mTunnel := if 0 < size then ITunnel.requestSendData s.mTunnel else s.mTunnel }

omit [ITunnel τ] in
/-- The duplicate test of `enqueueIfNeed`. -/
def QueuedAlready (ip : Packet) (s : TCPSession τ) : Prop :=
  ∃ t, s.mForwardQueue[BufferQueue.findNotSmaller TCPDatagram.compare (s.forwardDatagram ip)
    s.mForwardQueue]? = some t ∧ t.mSeq = s.relativeSeq ip

omit [ITunnel τ] in
-- The test of `enqueueIfNeed` for data that has been acknowledged.
def Repeated (ip : Packet) (s : TCPSession τ) : Prop :=
  compareU32 (s.relativeSeq ip) s.mRemoteNext < 0

-- Nothing to queue, a repeated segment acknowledged again, or a new one queued.
theorem enqueueIfNeed_cases (ip : Packet) (s : TCPSession τ) :
    (ip.payload = [] ∧ enqueueIfNeed ip s = (0, s)) ∨
    (ip.payload ≠ [] ∧ s.Repeated ip ∧ enqueueIfNeed ip s = (0, (pushInBackQueue ACK [] s).2)) ∨
    (ip.payload ≠ [] ∧ ¬ s.Repeated ip ∧ s.QueuedAlready ip ∧ enqueueIfNeed ip s = (0, s)) ∨
    (ip.payload ≠ [] ∧ ¬ s.Repeated ip ∧ ¬ s.QueuedAlready ip ∧
      enqueueIfNeed ip s = (ip.payload.length, s.queuedForward ip)) := by
  unfold enqueueIfNeed
  by_cases hempty : ip.payload = []
  · exact .inl ⟨hempty, by rw [hempty]; rfl⟩
  · right
    rw [if_neg (by simpa using hempty)]
    by_cases hrepeated : s.Repeated ip
    · exact .inl ⟨hempty, hrepeated, if_pos hrepeated⟩
    · right
      rw [if_neg (show ¬ compareU32 _ _ < 0 from hrepeated)]
      by_cases hqueued : s.QueuedAlready ip
      · obtain ⟨t, ht, hseq⟩ := hqueued
        refine .inl ⟨hempty, hrepeated, ⟨t, ht, hseq⟩, ?_⟩
        simp only [ht, Option.any_some]
        exact if_pos (decide_eq_true hseq)
      · refine .inr ⟨hempty, hrepeated, hqueued, ?_⟩
        simp only
        rw [if_neg]
        · rw [← filledDatagram_size ip s]
          rfl
        · rw [Option.any_eq_true]
          rintro ⟨t, ht, hseq⟩
          exact hqueued ⟨t, ht, of_decide_eq_true hseq⟩

-- In ESTABLISHED only a scan that does not end keeps the payload from being taken.
theorem onReceiveACK_established {s : TCPSession τ} (h : s.mState = .established) (ip : Packet) :
    onReceiveACK ip s = none ∨ onReceiveACK ip s = some (acceptPayload ip s) := by
  unfold onReceiveACK
  rw [h]
  simp only
  split
  · exact .inl rfl
  next sack hscan =>
    refine .inr ?_
    by_cases hsack : s.mSack
    · rw [if_pos hsack] at hscan
      rw [onSack_of_kind (getOptionAddr_found hscan)]
    · rw [if_neg hsack] at hscan
      exact absurd hscan (by simp)
  · exact .inr rfl

-- The states in which a new acknowledgement moves the session on.
theorem onReceiveACK_cases {ip : Packet} {s s' : TCPSession τ} (h : onReceiveACK ip s = some s') :
    (s.mState = .synRcved ∧ s' = acceptFirstPayload ip (s.switchState .established)) ∨
    (s.mState = .finWait1 ∧ s' = (s.switchState .finWait2).flushBackQueue) ∨
    (s.mState = .lastAck ∧ s' = (s.switchState .closed).flushBackQueue) ∨
    (s.mState = .closing ∧ s' = (s.switchState .timeWait).flushBackQueue) ∨
    (s.mState = .established ∧ s' = acceptPayload ip s) ∨
    (s.mState ≠ .synRcved ∧ s.mState ≠ .finWait1 ∧ s.mState ≠ .lastAck ∧ s.mState ≠ .closing ∧
      s.mState ≠ .established ∧ s' = s.flushBackQueue) := by
  cases hstate : s.mState
  case established =>
    rcases onReceiveACK_established hstate ip with heq | heq
    · rw [heq] at h
      cases h
    · rw [heq] at h
      cases h
      simp
  all_goals
    unfold onReceiveACK at h
    rw [hstate] at h
    cases h
    simp

-- The session after a new payload has been queued and counted.
def uploaded (ip : Packet) (s : TCPSession τ) : TCPSession τ :=
  { s.queuedForward ip with
    mRemoteNext := s.mRemoteNext + BitVec.ofNat 32 ip.payload.length }

omit [ITunnel τ] in
def Queues (ip : Packet) (s : TCPSession τ) : Prop :=
  ip.payload ≠ [] ∧ ¬ s.Repeated ip ∧ ¬ s.QueuedAlready ip

theorem acceptPayload_cases (ip : Packet) (s : TCPSession τ) :
    (s.Queues ip ∧ acceptPayload ip s = (pushInBackQueue ACK [] (s.uploaded ip)).2) ∨
    (ip.payload ≠ [] ∧ s.Repeated ip ∧
      acceptPayload ip s = (pushInBackQueue ACK [] s).2.flushBackQueue) ∨
    ((¬ s.Queues ip ∧ ¬ (ip.payload ≠ [] ∧ s.Repeated ip)) ∧
      acceptPayload ip s = s.flushBackQueue) := by
  unfold acceptPayload
  rcases enqueueIfNeed_cases ip s with
    ⟨hempty, heq⟩ | ⟨hne, hrepeated, heq⟩ | ⟨hne, hnew, hqueued, heq⟩ | ⟨hne, hnew, hfree, heq⟩ <;>
    rw [heq]
  · exact .inr (.inr ⟨⟨fun h => h.1 hempty, fun h => h.1 hempty⟩, rfl⟩)
  · exact .inr (.inl ⟨hne, hrepeated, rfl⟩)
  · exact .inr (.inr ⟨⟨fun h => h.2.2 hqueued, fun h => hnew h.2⟩, rfl⟩)
  · exact .inl ⟨⟨hne, hnew, hfree⟩, if_pos (List.length_pos_iff.mpr hne)⟩

theorem acceptFirstPayload_cases (ip : Packet) (s : TCPSession τ) :
    (s.Queues ip ∧ acceptFirstPayload ip s = (s.uploaded ip).flushBackQueue) ∨
    (ip.payload ≠ [] ∧ s.Repeated ip ∧
      acceptFirstPayload ip s = (pushInBackQueue ACK [] s).2.flushBackQueue) ∨
    ((¬ s.Queues ip ∧ ¬ (ip.payload ≠ [] ∧ s.Repeated ip)) ∧
      acceptFirstPayload ip s = s.flushBackQueue) := by
  have hzero (t : TCPSession τ) : { t with mRemoteNext := t.mRemoteNext + BitVec.ofNat 32 0 } = t := by
    rw [show t.mRemoteNext + BitVec.ofNat 32 0 = t.mRemoteNext from BitVec.add_zero _]
  unfold acceptFirstPayload
  rcases enqueueIfNeed_cases ip s with
    ⟨hempty, heq⟩ | ⟨hne, hrepeated, heq⟩ | ⟨hne, hnew, hqueued, heq⟩ | ⟨hne, hnew, hfree, heq⟩ <;>
    rw [heq]
  · exact .inr (.inr ⟨⟨fun h => h.1 hempty, fun h => h.1 hempty⟩,
      congrArg flushBackQueue (hzero s)⟩)
  · exact .inr (.inl ⟨hne, hrepeated, congrArg flushBackQueue (hzero _)⟩)
  · exact .inr (.inr ⟨⟨fun h => h.2.2 hqueued, fun h => hnew h.2⟩,
      congrArg flushBackQueue (hzero s)⟩)
  · exact .inl ⟨⟨hne, hnew, hfree⟩, rfl⟩

/-! ## FIN -/

omit [ITunnel τ] in
-- The state a FIN leads to.  In FIN_WAIT1 the code compares the acknowledgement with the left edge
-- it has just set from it.
def finState (ip : Packet) (s : TCPSession τ) : TCPState :=
  match s.mState with
  | .established => .closeWait
  | .finWait1 => if s.mLocalNext ≤ s.relativeAck ip then .timeWait else .closing
  | .finWait2 => .timeWait
  | state => state

omit [ITunnel τ] in
-- The states in which a FIN moves the session on.
def FinMoves (s : TCPSession τ) : Prop :=
  s.mState = .established ∨ s.mState = .finWait1 ∨ s.mState = .finWait2

inductive FinTurn : TCPState → TCPState → Prop
  | closeWait : FinTurn .established .closeWait
  | timeWait : FinTurn .finWait1 .timeWait
  | closing : FinTurn .finWait1 .closing
  | timeWait2 : FinTurn .finWait2 .timeWait

omit [ITunnel τ] in
theorem finState_ne_listen (ip : Packet) {s : TCPSession τ} (h : s.FinMoves) :
    s.finState ip ≠ .listen := by
  unfold finState
  rcases h with hstate | hstate | hstate <;> rw [hstate] <;> simp only
  · decide
  · split <;> decide
  · decide

omit [ITunnel τ] in
theorem finMoves_turn (ip : Packet) {s : TCPSession τ} (h : s.FinMoves) :
    FinTurn s.mState (s.finState ip) := by
  unfold finState
  rcases h with hstate | hstate | hstate <;> rw [hstate] <;> simp only
  · exact .closeWait
  · split
    · exact .timeWait
    · exact .closing
  · exact .timeWait2

theorem onReceiveFIN_refused {ip : Packet} {s : TCPSession τ}
    (h : s.mLocalSeq < (s.finNumbered ip).mLocalNext) :
    onReceiveFIN ip s = (s.finNumbered ip).emit [.refused ACK] := by
  unfold onReceiveFIN
  rw [pushInBackQueue_refused h]
  cases s.mState <;> rfl

theorem onReceiveFIN_stays {ip : Packet} {s : TCPSession τ} (h : ¬ s.FinMoves) :
    onReceiveFIN ip s = (pushInBackQueue ACK [] (s.finNumbered ip)).2 := by
  unfold onReceiveFIN
  cases hstate : s.mState
  case established => exact absurd (.inl hstate) h
  case finWait1 => exact absurd (.inr (.inl hstate)) h
  case finWait2 => exact absurd (.inr (.inr hstate)) h
  all_goals rfl

theorem onReceiveFIN_moves {ip : Packet} {s : TCPSession τ}
    (hle : (s.finNumbered ip).mLocalNext ≤ s.mLocalSeq) (h : s.FinMoves) :
    onReceiveFIN ip s =
      (pushInBackQueue ACK [] (s.finNumbered ip)).2.switchState (s.finState ip) := by
  have hnext := (pushInBackQueue_frame ACK [] (s.finNumbered ip)).localNext
  unfold onReceiveFIN finState
  rw [pushInBackQueue_of_le hle] at hnext ⊢
  rcases h with hstate | hstate | hstate <;> rw [hstate]
  -- the left edge is this acknowledgement exactly when it was not old
  simp only
  rw [hnext]
  by_cases hnew : s.mLocalNext ≤ s.relativeAck ip
  · rw [if_pos (by simp [finNumbered, hnew]), if_pos hnew]
  · rw [if_neg (by simp [finNumbered, hnew]; bv_omega), if_neg hnew]

-- Behind its numbers a FIN changes nothing but the back queue and the state.
theorem onReceiveFIN_frame (ip : Packet) (s : TCPSession τ) :
    BackFrame (s.finNumbered ip) (onReceiveFIN ip s) := by
  have hpush := pushInBackQueue_frame ACK [] (s.finNumbered ip)
  by_cases hmoves : s.FinMoves
  · by_cases hle : (s.finNumbered ip).mLocalNext ≤ s.mLocalSeq
    · rw [onReceiveFIN_moves hle hmoves]
      exact hpush.trans (switchState_frame _ _)
    · rw [onReceiveFIN_refused (by bv_omega)]
      exact emit_frame rfl _
  · rw [onReceiveFIN_stays hmoves]
    exact hpush

/-! ## The branches of `accept` -/

/-- A session with the window and the left edge of an acknowledgement. -/
def acknowledged (ip : Packet) (s : TCPSession τ) : TCPSession τ :=
  { s with
    mSendWindow := announcedWindow ip s.mWindowScale
    mLocalNext := s.relativeAck ip }

-- The branches of `accept`, but for a SYN at a session in LISTEN.
inductive Accepted (ip : Packet) (s : TCPSession τ) : TCPSession τ → Prop
  | syn : NetCore.hasFlag ip.flag SYN → Accepted ip s s.flushBackQueue
  | fin : NetCore.hasFlag ip.flag SYN = false → NetCore.hasFlag ip.flag FIN →
      Accepted ip s (onReceiveFIN ip s)
  | rst : NetCore.hasFlag ip.flag SYN = false → NetCore.hasFlag ip.flag FIN = false →
      NetCore.hasFlag ip.flag RST → Accepted ip s (s.switchState .closed)
  | stale (tunnel : τ) : ip.Plain → s.relativeAck ip < s.mLocalNext →
      tunnel = s.mTunnel ∨ tunnel = ITunnel.keepAlive s.mTunnel →
      Accepted ip s
        { s with mSendWindow := announcedWindow ip s.mWindowScale, mTunnel := tunnel }
  | ack {t : TCPSession τ} : ip.Plain → s.mLocalNext ≤ s.relativeAck ip →
      onReceiveACK ip (s.acknowledged ip) = some t → Accepted ip s t

theorem dispatchFlags_accepted {ip : Packet} {s t : TCPSession τ}
    (hopen : NetCore.hasFlag ip.flag SYN → s.mState ≠ .listen)
    (h : dispatchFlags ip s = some t) : Accepted ip s t := by
  unfold dispatchFlags at h
  by_cases hsyn : NetCore.hasFlag ip.flag SYN
  · rw [if_pos hsyn, onReceiveSYN, if_pos (hopen hsyn)] at h
    cases h
    exact .syn hsyn
  have hsyn' := Bool.eq_false_iff.mpr hsyn
  rw [if_neg hsyn] at h
  by_cases hfin : NetCore.hasFlag ip.flag FIN
  · rw [if_pos hfin] at h
    cases h
    exact .fin hsyn' hfin
  have hfin' := Bool.eq_false_iff.mpr hfin
  rw [if_neg hfin] at h
  by_cases hrst : NetCore.hasFlag ip.flag RST
  · rw [if_pos hrst] at h
    cases h
    exact .rst hsyn' hfin' hrst
  have hplain : ip.Plain := ⟨hsyn', hfin', Bool.eq_false_iff.mpr hrst⟩
  rw [if_neg hrst] at h
  simp only at h
  by_cases hle : s.mLocalNext ≤ s.relativeAck ip
  · rw [if_pos hle] at h
    exact .ack hplain hle h
  · have hstale : s.relativeAck ip < s.mLocalNext := by bv_omega
    rw [if_neg hle] at h
    split at h
    · cases h
      exact .stale _ hplain hstale (.inr rfl)
    · cases h
      exact .stale s.mTunnel hplain hstale (.inl rfl)

-- `accept` counts the packet, takes one of the branches and notes the time.
theorem accept_accepted {ip : Packet} {s s' : TCPSession τ} (hopen : s.mState ≠ .listen)
    (h : accept ip s = some s') :
    ∃ t, Accepted ip (s.countAccepted ip) t ∧ s' = t.noteTime := by
  unfold accept at h
  obtain ⟨t, ht, heq⟩ := Option.map_eq_some_iff.mp h
  refine ⟨t, dispatchFlags_accepted (fun _ => ?_) ht, heq.symm⟩
  rw [(countAccepted_inert ip s).state]
  exact hopen

/-! ## Calls from the tunnel -/

omit [ITunnel τ] in
theorem countRecv_inert (i : Nat) (s : TCPSession τ) : Inert s (s.countRecv i) := by
  unfold countRecv
  split
  · refine Inert.trans ?_ (emit_inert (by simp [TracePoint.inert]) _)
    exact .of_eq rfl rfl rfl rfl rfl rfl
  · exact Inert.refl s

theorem pauseIfFull_inert (s : TCPSession τ) : Inert s s.pauseIfFull := by
  unfold pauseIfFull
  split <;> exact .of_eq rfl rfl rfl rfl rfl rfl

theorem countSent_inert (n : Nat) (s : TCPSession τ) : Inert s (s.countSent n) := by
  unfold countSent
  split
  · refine Inert.trans ?_ (emit_inert (by simp [TracePoint.inert]) _)
    exact .of_eq rfl rfl rfl rfl rfl rfl
  · exact .of_eq rfl rfl rfl rfl rfl rfl

theorem drained_inert (s : TCPSession τ) : Inert s s.drained :=
  ⟨rfl, rfl, rfl, rfl, rfl, [.taken _], rfl, by simp [TracePoint.inert]⟩

-- A writable tunnel is drained into; only a failing `sendData` touches the back queue.
theorem onTunnelWritable_cases (s : TCPSession τ) :
    Inert s s.onTunnelWritable ∨
    (s.mForwardQueue ≠ [] ∧ ∃ reason n, (drain s.mForwardQueue s.mTunnel).failed = some reason ∧
      s.onTunnelWritable = (s.drained.onTunnelDisconnected reason).countSent n) := by
  unfold onTunnelWritable
  by_cases hempty : s.mForwardQueue = []
  · rw [if_pos hempty]
    exact .inl (.of_eq rfl rfl rfl rfl rfl rfl)
  · rw [if_neg hempty]
    simp only
    cases hfailed : (drain s.mForwardQueue s.mTunnel).failed with
    | none => exact .inl ((drained_inert s).trans (countSent_inert _ _))
    | some reason => exact .inr ⟨hempty, reason, _, rfl, rfl⟩

end TCPSession

end NetCore
