import Mathlib.Data.List.TakeWhile
import NetCore.TCPSession

/-!
# Flushing and pushing

What `flushBackQueue` and `pushInBackQueue` do, said once.  `BackFrame` lists what the functions on
the back queue leave alone.  The two equations unfold the nested calls: a push never numbers a FIN,
and a flush numbers at most one.  The rules at the end turn what the parts preserve into what a
flush or a push preserves.
-/

namespace NetCore

def TracePoint.takenBytes : TracePoint → Bytes
  | .taken data => data
  | _ => []

def TCPDatagram.seqLen (d : TCPDatagram) : U32 :=
  if d.hasFlag (FIN ||| SYN) then 1 else BitVec.ofNat 32 d.mLength

namespace TCPSession

variable {τ : Type}

def taken (s : TCPSession τ) : Bytes := s.trace.flatMap TracePoint.takenBytes

/-! ## What the back queue's functions leave alone -/

-- `s'` differs from `s` at most on the side of the back queue.
structure BackFrame (s s' : TCPSession τ) : Prop where
  forwardQueue : s'.mForwardQueue = s.mForwardQueue
  forwardQueueDataSize : s'.mForwardQueueDataSize = s.mForwardQueueDataSize
  remoteFinished : s'.mRemoteFinished = s.mRemoteFinished
  sack : s'.mSack = s.mSack
  localNext : s'.mLocalNext = s.mLocalNext
  localSeqBase : s'.mLocalSeqBase = s.mLocalSeqBase
  remoteNext : s'.mRemoteNext = s.mRemoteNext
  remoteSeqBase : s'.mRemoteSeqBase = s.mRemoteSeqBase
  taken : s'.taken = s.taken

theorem BackFrame.refl (s : TCPSession τ) : BackFrame s s :=
  ⟨rfl, rfl, rfl, rfl, rfl, rfl, rfl, rfl, rfl⟩

theorem BackFrame.trans {s t u : TCPSession τ} (h : BackFrame s t) (h' : BackFrame t u) :
    BackFrame s u where
  forwardQueue := h'.forwardQueue.trans h.forwardQueue
  forwardQueueDataSize := h'.forwardQueueDataSize.trans h.forwardQueueDataSize
  remoteFinished := h'.remoteFinished.trans h.remoteFinished
  sack := h'.sack.trans h.sack
  localNext := h'.localNext.trans h.localNext
  localSeqBase := h'.localSeqBase.trans h.localSeqBase
  remoteNext := h'.remoteNext.trans h.remoteNext
  remoteSeqBase := h'.remoteSeqBase.trans h.remoteSeqBase
  taken := h'.taken.trans h.taken

@[simp] theorem taken_emit (points : List TracePoint) (s : TCPSession τ) :
    (s.emit points).taken = s.taken ++ points.flatMap TracePoint.takenBytes := by
  simp only [taken, emit, List.flatMap_append]

theorem emit_frame {points : List TracePoint} (h : points.flatMap TracePoint.takenBytes = [])
    (s : TCPSession τ) : BackFrame s (s.emit points) :=
  { BackFrame.refl s with taken := by rw [taken_emit, h, List.append_nil] }

theorem sendBackSegment_frame (d : TCPDatagram) (s : TCPSession τ) :
    BackFrame s (sendBackSegment d s).2.2 := by
  unfold sendBackSegment
  split
  · exact BackFrame.refl s
  · simp only
    split
    · exact BackFrame.refl s
    · exact emit_frame rfl s

theorem popSegment_frame (d : TCPDatagram) (s : TCPSession τ) : BackFrame s (popSegment d s) := by
  refine BackFrame.trans ?_ (emit_frame rfl _)
  exact { BackFrame.refl s with }

theorem popLoop_frame (queue : List TCPDatagram) (s : TCPSession τ) :
    BackFrame s (popLoop queue s) := by
  induction queue generalizing s with
  | nil => exact { BackFrame.refl s with }
  | cons d queue ih =>
    unfold popLoop
    split
    · exact (popSegment_frame d s).trans (ih _)
    · exact { BackFrame.refl s with }

theorem popAcked_frame (s : TCPSession τ) : BackFrame s s.popAcked := popLoop_frame _ s

/-! ## The segments built -/

theorem length_packageBytes (s : TCPSession τ) (flag : U8) (data : Bytes) :
    (s.packageBytes flag data).length = 40 + (s.packageOptions flag).length + data.length := by
  simp [packageBytes, ipHeader, tcpHeader]
  omega

theorem size_buildPackage (s : TCPSession τ) (flag : U8) (data : Bytes) :
    (s.buildPackage flag data).size = 40 + (s.packageOptions flag).length + data.length := by
  rw [buildPackage, Segment.size_ofBytes, length_packageBytes]

def handedOver (d : TCPDatagram) : TCPDatagram := takeForWriting { d with mRetry := d.mRetry + 1 }

-- A segment that has bytes and is neither held nor aborted is taken.
theorem sendBackSegment_taken {d : TCPDatagram} (s : TCPSession τ) (hsize : 0 < d.size)
    (hbuffering : d.isBuffering = false) (habort : d.isAbort = false) :
    sendBackSegment d s =
      ((d.size : Int), handedOver d, s.emit (packagePoints (handedOver d) s)) := by
  unfold sendBackSegment
  rw [if_neg (by omega)]
  simp only [hbuffering, habort, Bool.or_self, Bool.false_eq_true, if_false]
  rfl

/-! ## The pop loop -/

theorem popLoop_eq (queue : List TCPDatagram) (s : TCPSession τ) :
    ∃ total size points, popLoop queue s =
        { s with
          mBackQueue := queue.dropWhile (popsSegment s.mLocalNext), mTotalBack := total,
          mBackQueueDataSize := size, trace := s.trace ++ points } ∧
      ∀ p ∈ points, ∃ d, p = .released d := by
  induction queue generalizing s with
  | nil => exact ⟨_, _, [], by rw [List.append_nil]; rfl, by simp⟩
  | cons d queue ih =>
    rw [popLoop, List.dropWhile_cons]
    split
    next hpops =>
      obtain ⟨total, size, points, heq, hpoints⟩ := ih (popSegment d s)
      refine ⟨total, size, .released (releaseMark d) :: points, ?_, ?_⟩
      · rw [heq]
        simp [popSegment, safeReleaseSegment, emit]
      · exact List.forall_mem_cons.mpr ⟨⟨_, rfl⟩, hpoints⟩
    next => exact ⟨_, _, [], by rw [List.append_nil], by simp⟩

-- The pop loop takes segments off the front, counts them and releases them.
theorem popAcked_eq (s : TCPSession τ) :
    ∃ total size points, s.popAcked =
        { s with
          mBackQueue := s.mBackQueue.dropWhile (popsSegment s.mLocalNext), mTotalBack := total,
          mBackQueueDataSize := size, trace := s.trace ++ points } ∧
      ∀ p ∈ points, ∃ d, p = .released d :=
  popLoop_eq s.mBackQueue s

theorem popAcked_mBackQueue (s : TCPSession τ) :
    s.popAcked.mBackQueue = s.mBackQueue.dropWhile (popsSegment s.mLocalNext) := by
  obtain ⟨_, _, _, heq, -⟩ := s.popAcked_eq
  rw [heq]

theorem popAcked_mState (s : TCPSession τ) : s.popAcked.mState = s.mState := by
  obtain ⟨_, _, _, heq, -⟩ := s.popAcked_eq
  rw [heq]

theorem popAcked_mLocalSeq (s : TCPSession τ) : s.popAcked.mLocalSeq = s.mLocalSeq := by
  obtain ⟨_, _, _, heq, -⟩ := s.popAcked_eq
  rw [heq]

-- A queue whose front stays is not touched.
theorem popAcked_of_front {s : TCPSession τ} {d : TCPDatagram} {rest : List TCPDatagram}
    (hqueue : s.mBackQueue = d :: rest) (hstays : popsSegment s.mLocalNext d = false) :
    s.popAcked = s := by
  rw [popAcked, hqueue, popLoop, if_neg (by rw [hstays]; decide), ← hqueue]

variable [ITunnel τ]

theorem switchState_frame (state : TCPState) (s : TCPSession τ) :
    BackFrame s (s.switchState state) := by
  unfold switchState
  split
  · exact BackFrame.refl s
  · refine BackFrame.trans ?_ (emit_frame rfl _)
    split <;> exact { BackFrame.refl s with }

-- The session as `resetConnection` leaves it up to `switchState`: `mLocalSeq` is back at the left
-- edge and the RST is out.
def rstSent (s : TCPSession τ) : TCPSession τ :=
  let s := { s.updateWindowSize with mLocalSeq := s.mLocalNext }
  (s.emit (packagePoints (handedOver s.rstSegment) s)).emit [.reset]

@[simp] theorem rstSent_mTunnel (s : TCPSession τ) : s.rstSent.mTunnel = s.mTunnel := by
  unfold rstSent
  dsimp only [emit, updateWindowSize]

@[simp] theorem rstSent_mState (s : TCPSession τ) : s.rstSent.mState = s.mState := by
  unfold rstSent
  dsimp only [emit, updateWindowSize]

@[simp] theorem rstSent_mBackQueue (s : TCPSession τ) : s.rstSent.mBackQueue = s.mBackQueue := by
  unfold rstSent
  dsimp only [emit, updateWindowSize]

-- The RST is built by the session with its numbers already back.
theorem rstSent_trace (s : TCPSession τ) : ∃ t : TCPSession τ,
    s.rstSent.trace = s.trace ++ (packagePoints (handedOver t.rstSegment) t ++ [.reset]) := by
  refine ⟨{ s.updateWindowSize with mLocalSeq := s.mLocalNext }, ?_⟩
  rw [← List.append_assoc]
  rfl

theorem resetConnection_eq (s : TCPSession τ) :
    s.resetConnection = s.rstSent.switchState .closed := by
  have hsize (t : TCPSession τ) : t.rstSegment.size = 40 := size_buildPackage t (RST ||| ACK) []
  unfold resetConnection
  simp only
  rw [sendBackSegment_taken _ (by rw [hsize]; decide) rfl rfl]
  simp only
  rw [hsize, if_pos (by decide)]
  rfl

theorem rstSent_frame (s : TCPSession τ) : BackFrame s s.rstSent := by
  refine BackFrame.trans ?_ (emit_frame rfl _)
  refine BackFrame.trans ?_ (emit_frame rfl _)
  exact { BackFrame.refl s with }

theorem resetConnection_frame (s : TCPSession τ) : BackFrame s s.resetConnection := by
  rw [resetConnection_eq]
  exact (rstSent_frame s).trans (switchState_frame _ _)

theorem resumeIfRoom_frame (s : TCPSession τ) : BackFrame s s.resumeIfRoom := by
  unfold resumeIfRoom
  split <;> exact { BackFrame.refl s with }

theorem enqueueBack_frame (flag : U8) (data : Bytes) (s : TCPSession τ) :
    BackFrame s (s.enqueueBack flag data) := by
  refine BackFrame.trans ?_ (emit_frame rfl _)
  exact { BackFrame.refl s with }

/-! ## The send loop -/

def sentFront (d : TCPDatagram) (rest : List TCPDatagram) (s : TCPSession τ) : TCPSession τ :=
  { s.emit (packagePoints (handedOver d) s) with mBackQueue := handedOver d :: rest }

-- The send loop hands its front segment over: it fits the window and waits for nothing.
def SendsFront (s : TCPSession τ) (d : TCPDatagram) : Prop :=
  BitVec.ofNat 32 d.size < s.sendLimit ∧ d.isBuffering = false ∧ d.mACKed = false

instance (s : TCPSession τ) (d : TCPDatagram) : Decidable (s.SendsFront d) :=
  inferInstanceAs (Decidable (_ ∧ _ ∧ _))

-- Behind the first segment the loop ends: one packet is all it sends.
theorem sendLoop_second {limit w : U32} (hw : 0 < w) (done rest : List TCPDatagram)
    (s : TCPSession τ) :
    sendLoop limit w 1 done rest s = (.finished, { s with mBackQueue := done ++ rest }) := by
  have hne : w ≠ 0 := by bv_omega
  cases rest with
  | nil => rw [sendLoop, List.append_nil]
  | cons d rest =>
    rw [sendLoop]
    by_cases hfin : d.hasFlag FIN
    · rw [if_pos ⟨hw, hfin⟩]
    · rw [if_neg (fun h => hfin h.2), if_neg (fun h => hne h.1)]
      simp only
      rw [if_neg (fun h => absurd h.2 (by decide))]

theorem sendBackData_nil {s : TCPSession τ} (hqueue : s.mBackQueue = []) :
    s.sendBackData = s.resumeIfRoom := by
  rw [sendBackData, hqueue, sendLoop, ← hqueue]

-- A front segment ahead of the left edge resets the connection.
theorem sendBackData_ahead {s : TCPSession τ} {d : TCPDatagram} {rest : List TCPDatagram}
    (hqueue : s.mBackQueue = d :: rest) (hahead : s.mLocalNext < d.mSeq) :
    s.sendBackData = s.resetConnection := by
  rw [sendBackData, hqueue, sendLoop, if_neg (by simp), if_pos ⟨rfl, hahead⟩, List.nil_append,
    ← hqueue]

-- Otherwise the front is handed over, or left where it is.
theorem sendBackData_front {s : TCPSession τ} {d : TCPDatagram} {rest : List TCPDatagram}
    (hqueue : s.mBackQueue = d :: rest) (hnotAhead : ¬ s.mLocalNext < d.mSeq) (hsize : 0 < d.size)
    (hlt : d.size < 2 ^ 32) (habort : d.isAbort = false) :
    s.sendBackData =
      if s.SendsFront d then (s.sentFront d rest).resumeIfRoom else s.resumeIfRoom := by
  have hself : { s with mBackQueue := d :: rest } = s := by rw [← hqueue]
  have hzero : (0 : U32) + BitVec.ofNat 32 d.size = BitVec.ofNat 32 d.size := BitVec.zero_add _
  have hw : (0 : U32) < BitVec.ofNat 32 d.size := by
    rw [BitVec.lt_def, BitVec.toNat_ofNat, Nat.mod_eq_of_lt hlt]
    exact hsize
  rw [sendBackData, hqueue, sendLoop, if_neg (by simp), if_neg (fun h => hnotAhead h.2)]
  simp only [hzero]
  by_cases hfits : BitVec.ofNat 32 d.size < s.sendLimit
  · rw [if_pos ⟨hfits, by decide⟩]
    by_cases hwaits : d.isBuffering = false ∧ d.mACKed = false
    · rw [if_pos (show s.SendsFront d from ⟨hfits, hwaits⟩), if_pos (by simp [hwaits]),
        sendBackSegment_taken s hsize hwaits.1 habort]
      simp only
      rw [if_pos (by omega), show (0 : U8) + 1 = 1 from rfl, sendLoop_second hw]
      rfl
    · rw [if_neg (show ¬ s.SendsFront d from fun h => hwaits h.2), if_neg (by simpa using hwaits),
        show (0 : U8) + 1 = 1 from rfl, sendLoop_second hw]
      simp only [List.nil_append, List.singleton_append, hself]
  · rw [if_neg (fun h => hfits h.1), if_neg (show ¬ s.SendsFront d from fun h => hfits h.1)]
    simp only [List.nil_append, hself]

/-! ## Numbering a segment -/

def newSegment (flag : U8) (data : Bytes) (s : TCPSession τ) : TCPDatagram :=
  { s.updateWindowSize.buildPackage flag data with
    needCapture := s.mCtrlType &&& ctrlCAPTURE != 0 }

@[simp] theorem newSegment_mSeq (flag : U8) (data : Bytes) (s : TCPSession τ) :
    (s.newSegment flag data).mSeq = s.mLocalSeq := rfl

@[simp] theorem newSegment_mFlag (flag : U8) (data : Bytes) (s : TCPSession τ) :
    (s.newSegment flag data).mFlag = flag := rfl

@[simp] theorem newSegment_mLength (flag : U8) (data : Bytes) (s : TCPSession τ) :
    (s.newSegment flag data).mLength = data.length := rfl

@[simp] theorem newSegment_mRetry (flag : U8) (data : Bytes) (s : TCPSession τ) :
    (s.newSegment flag data).mRetry = 0 := rfl

theorem newSegment_seqLen (flag : U8) (data : Bytes) (s : TCPSession τ) :
    (s.newSegment flag data).seqLen =
      if NetCore.hasFlag flag (FIN ||| SYN) then 1 else BitVec.ofNat 32 data.length := rfl

theorem newSegment_size (flag : U8) (data : Bytes) (s : TCPSession τ) :
    (s.newSegment flag data).size =
      40 + (s.updateWindowSize.packageOptions flag).length + data.length :=
  size_buildPackage _ flag data

@[simp] theorem enqueueBack_mBackQueue (flag : U8) (data : Bytes) (s : TCPSession τ) :
    (s.enqueueBack flag data).mBackQueue = s.mBackQueue ++ [s.newSegment flag data] := rfl

@[simp] theorem enqueueBack_mLocalSeq (flag : U8) (data : Bytes) (s : TCPSession τ) :
    (s.enqueueBack flag data).mLocalSeq = s.mLocalSeq + (s.newSegment flag data).seqLen := by
  by_cases h : (s.newSegment flag data).hasFlag (FIN ||| SYN)
  · rw [TCPDatagram.seqLen, if_pos h]
    exact if_pos h
  · rw [TCPDatagram.seqLen, if_neg h]
    exact if_neg h

@[simp] theorem enqueueBack_mState (flag : U8) (data : Bytes) (s : TCPSession τ) :
    (s.enqueueBack flag data).mState = s.mState := rfl

@[simp] theorem enqueueBack_mLocalNext (flag : U8) (data : Bytes) (s : TCPSession τ) :
    (s.enqueueBack flag data).mLocalNext = s.mLocalNext := rfl

@[simp] theorem enqueueBack_trace (flag : U8) (data : Bytes) (s : TCPSession τ) :
    (s.enqueueBack flag data).trace = s.trace ++ [.pushed (s.newSegment flag data)] := rfl

-- A segment just numbered is not behind the left edge and has not been handed over.
theorem newSegment_stays {flag : U8} {data : Bytes} {s : TCPSession τ}
    (hle : s.mLocalNext ≤ s.mLocalSeq) :
    popsSegment s.mLocalNext (s.newSegment flag data) = false := by
  have hnot : ¬ s.mLocalSeq < s.mLocalNext := by bv_omega
  simp [popsSegment, hnot]

/-! ## The nested calls unfolded -/

theorem pushInBackQueue_refused {s : TCPSession τ} (h : s.mLocalSeq < s.mLocalNext) (flag : U8)
    (data : Bytes) : pushInBackQueue flag data s = (false, s.emit [.refused flag]) := by
  rw [pushInBackQueue, pushWith, if_pos h]

-- The segment just pushed keeps the queue from being empty: a push numbers no FIN.
theorem pushInBackQueue_of_le {s : TCPSession τ} (hle : s.mLocalNext ≤ s.mLocalSeq) (flag : U8)
    (data : Bytes) :
    pushInBackQueue flag data s = (true, (s.enqueueBack flag data).popAcked.sendBackData) := by
  have hnot : ¬ s.mLocalSeq < s.mLocalNext := by bv_omega
  have hkept : (s.enqueueBack flag data).popAcked.mBackQueue ≠ [] := by
    intro hempty
    rw [popAcked_mBackQueue, enqueueBack_mBackQueue, List.dropWhile_eq_nil_iff] at hempty
    have hnew := hempty _ (List.mem_append_right _ (List.mem_singleton_self _))
    rw [enqueueBack_mLocalNext, newSegment_stays hle] at hnew
    exact Bool.false_ne_true hnew
  rw [pushInBackQueue, pushWith, if_neg hnot, flushBackQueue, flushDepth, flushWith,
    if_neg (fun hfin => hkept hfin.2.2)]

theorem flushBackQueue_of_not_finDue {s : TCPSession τ} (h : ¬ s.popAcked.FinDue) :
    s.flushBackQueue = s.popAcked.sendBackData := by
  rw [flushBackQueue, flushDepth, flushWith, if_neg h]

/-- Where a FIN just pushed takes the session. -/
def leave (s : TCPSession τ) : TCPSession τ :=
  s.switchState (if s.mState = .established then .finWait1 else .lastAck)

-- The FIN goes into an empty queue, where the flush nested in its push finds it.
theorem flushBackQueue_fin {s : TCPSession τ} (h : s.popAcked.FinDue)
    (hle : s.mLocalNext ≤ s.mLocalSeq) :
    s.flushBackQueue = (s.popAcked.enqueueBack (FIN ||| ACK) []).sendBackData.leave := by
  have hnext : s.popAcked.mLocalNext = s.mLocalNext := (popAcked_frame s).localNext
  have hle' : s.popAcked.mLocalNext ≤ s.popAcked.mLocalSeq := by
    rw [hnext, popAcked_mLocalSeq]
    exact hle
  have hnot : ¬ s.popAcked.mLocalSeq < s.popAcked.mLocalNext := by bv_omega
  have hqueue : (s.popAcked.enqueueBack (FIN ||| ACK) []).mBackQueue =
      [s.popAcked.newSegment (FIN ||| ACK) []] := by
    rw [enqueueBack_mBackQueue, h.2.2, List.nil_append]
  have hpop : (s.popAcked.enqueueBack (FIN ||| ACK) []).popAcked =
      s.popAcked.enqueueBack (FIN ||| ACK) [] := by
    apply popAcked_of_front hqueue
    rw [enqueueBack_mLocalNext]
    exact newSegment_stays hle'
  have hnested : ¬ (s.popAcked.enqueueBack (FIN ||| ACK) []).FinDue := by
    intro hfin
    rw [FinDue, hqueue] at hfin
    exact List.cons_ne_nil _ _ hfin.2.2
  rw [flushBackQueue, flushDepth, flushWith, if_pos h, pushWith, if_neg hnot]
  simp only
  rw [flushDepth, flushWith, hpop, if_neg hnested]
  rfl

theorem flushBackQueue_fin_refused {s : TCPSession τ} (h : s.popAcked.FinDue)
    (hlt : s.mLocalSeq < s.mLocalNext) :
    s.flushBackQueue = s.popAcked.emit [.refused (FIN ||| ACK)] := by
  have hnext : s.popAcked.mLocalNext = s.mLocalNext := (popAcked_frame s).localNext
  have hlt' : s.popAcked.mLocalSeq < s.popAcked.mLocalNext := by
    rw [hnext, popAcked_mLocalSeq]
    exact hlt
  rw [flushBackQueue, flushDepth, flushWith, if_pos h, pushWith, if_pos hlt']

/-! ## Frames of the loops and of the nested calls -/

theorem sendLoop_frame (limit w : U32) (packet : U8) (done rest : List TCPDatagram)
    (s : TCPSession τ) : BackFrame s (sendLoop limit w packet done rest s).2 := by
  have hreset (s : TCPSession τ) (queue : List TCPDatagram) :
      BackFrame s (resetConnection { s with mBackQueue := queue }) := by
    have hqueued : BackFrame s { s with mBackQueue := queue } := { BackFrame.refl s with }
    exact hqueued.trans (resetConnection_frame { s with mBackQueue := queue })
  induction rest generalizing w packet done s with
  | nil => exact { BackFrame.refl s with }
  | cons d rest ih =>
    rw [sendLoop]
    split
    · exact { BackFrame.refl s with }
    · split
      · dsimp only
        exact hreset s _
      · simp only
        split
        · split
          · have hsend := sendBackSegment_frame d s
            split
            · exact hsend.trans (ih _ _ _ _)
            · refine hsend.trans ?_
              exact { BackFrame.refl (sendBackSegment d s).2.2 with }
          · exact ih _ _ _ s
        · exact { BackFrame.refl s with }

theorem sendBackData_frame (s : TCPSession τ) : BackFrame s s.sendBackData := by
  have hloop := sendLoop_frame s.sendLimit 0 0 [] s.mBackQueue s
  unfold sendBackData
  split
  next hresult =>
    rw [hresult] at hloop
    exact hloop
  next hresult =>
    rw [hresult] at hloop
    exact hloop.trans (resumeIfRoom_frame _)

theorem flushBackQueue_frame (s : TCPSession τ) : BackFrame s s.flushBackQueue := by
  by_cases hfin : s.popAcked.FinDue
  · by_cases hle : s.mLocalNext ≤ s.mLocalSeq
    · rw [flushBackQueue_fin hfin hle]
      have hpushed := (popAcked_frame s).trans (enqueueBack_frame (FIN ||| ACK) [] s.popAcked)
      exact (hpushed.trans (sendBackData_frame _)).trans (switchState_frame _ _)
    · rw [flushBackQueue_fin_refused hfin (by bv_omega)]
      exact (popAcked_frame s).trans (emit_frame rfl _)
  · rw [flushBackQueue_of_not_finDue hfin]
    exact (popAcked_frame s).trans (sendBackData_frame _)

theorem pushInBackQueue_frame (flag : U8) (data : Bytes) (s : TCPSession τ) :
    BackFrame s (pushInBackQueue flag data s).2 := by
  by_cases hle : s.mLocalNext ≤ s.mLocalSeq
  · rw [pushInBackQueue_of_le hle]
    exact ((enqueueBack_frame flag data s).trans (popAcked_frame _)).trans (sendBackData_frame _)
  · rw [pushInBackQueue_refused (by bv_omega)]
    exact emit_frame rfl s

theorem relayLoop_frame (fuel : Nat) (data : Bytes) (s : TCPSession τ) :
    BackFrame s (relayLoop fuel data s).2 := by
  induction fuel generalizing data s with
  | zero => exact .refl s
  | succ fuel ih =>
    have hpush := pushInBackQueue_frame ACK (data.take TCP_IP_PAYLOAD_SIZE) s
    unfold relayLoop
    split
    · exact .refl s
    · split
      next heq =>
        rw [heq] at hpush
        exact hpush
      next heq =>
        rw [heq] at hpush
        exact hpush.trans (ih _ _)

end TCPSession

end NetCore
