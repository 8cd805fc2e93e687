import NetCore.TCPSession.Finish
import NetCore.TCPSession.Upload
import NetCore.TCPSession.Window

/-!
# The close of the remote is passed on

The FIN is pushed by a flush that finds the back queue empty.  A pure ACK empties it only once it
has been handed over, so one that waits behind the last data holds the FIN back when that data is
acknowledged; so does the ACK that the acknowledging packet itself makes the session push.

`Settles next s` says of the state before a flush, and of the left edge the event sets, that the
flush numbers the FIN, resets, or still waits for an acknowledgement.
-/

namespace NetCore
namespace TCPSession

variable {τ : Type}

/-- Once the remote has finished, a session that has not numbered its FIN waits for an
    acknowledgement. -/
def PassedOn (s : TCPSession τ) : Prop :=
  s.mRemoteFinished → s.MayFinish → s.mLocalNext < s.mLocalSeq

/-- The first segment that stays in the queue when `next` has been acknowledged. -/
def frontAt (next : U32) (s : TCPSession τ) : Option TCPDatagram :=
  (s.mBackQueue.dropWhile (popsSegment next)).head?

def AheadOf (next : U32) (s : TCPSession τ) : Prop := (s.frontAt next).any fun d => next < d.mSeq

/-- A flush with the left edge `next` leaves no close behind. -/
def Settles (next : U32) (s : TCPSession τ) : Prop :=
  next < s.mLocalSeq ∨ (next = s.mLocalSeq ∧ s.frontAt next = none) ∨ s.AheadOf next

/-- Nor does the push of a pure ACK. -/
def SettlesPush (next : U32) (s : TCPSession τ) : Prop :=
  next < s.mLocalSeq ∨ (next = s.mLocalSeq ∧ s.AheadOf next)

/-- Nor that push with a flush behind it.  The flush takes the ACK off again if it is the only
    segment and fits the window. -/
def SettlesBoth (next window : U32) (s : TCPSession τ) : Prop :=
  next < s.mLocalSeq ∨ (next = s.mLocalSeq ∧ s.frontAt next = none ∧ 40 < window) ∨ s.AheadOf next

instance (next : U32) (s : TCPSession τ) : Decidable (s.AheadOf next) :=
  inferInstanceAs (Decidable (_ = true))

instance (next : U32) (s : TCPSession τ) : Decidable (s.Settles next) :=
  inferInstanceAs (Decidable (_ ∨ _))

instance (next : U32) (s : TCPSession τ) : Decidable (s.SettlesPush next) :=
  inferInstanceAs (Decidable (_ ∨ _))

instance (next window : U32) (s : TCPSession τ) : Decidable (s.SettlesBoth next window) :=
  inferInstanceAs (Decidable (_ ∨ _))

theorem aheadOf_front {next : U32} {s : TCPSession τ} (h : s.AheadOf next) :
    ∃ d rest, s.mBackQueue.dropWhile (popsSegment next) = d :: rest ∧ next < d.mSeq := by
  unfold AheadOf frontAt at h
  cases hqueue : s.mBackQueue.dropWhile (popsSegment next) with
  | nil =>
    rw [hqueue] at h
    cases h
  | cons d rest =>
    rw [hqueue] at h
    exact ⟨d, rest, rfl, of_decide_eq_true h⟩

theorem frontAt_none {next : U32} {s : TCPSession τ} :
    s.frontAt next = none ↔ s.mBackQueue.dropWhile (popsSegment next) = [] :=
  List.head?_eq_none_iff

theorem passedOn_of_state {s : TCPSession τ} (h : ¬ s.MayFinish) : s.PassedOn :=
  fun _ hmay => absurd hmay h

theorem not_mayFinish_closed {s : TCPSession τ} (h : s.mState = .closed) : ¬ s.MayFinish := by
  unfold MayFinish
  rw [h]
  decide

-- What `PassedOn` looks at.
theorem PassedOn.of_eq {s s' : TCPSession τ} (h : s.PassedOn)
    (hfinished : s'.mRemoteFinished = s.mRemoteFinished) (hstate : s'.mState = s.mState)
    (hnext : s'.mLocalNext = s.mLocalNext) (hseq : s'.mLocalSeq = s.mLocalSeq) : s'.PassedOn := by
  unfold PassedOn MayFinish
  rw [hfinished, hstate, hnext, hseq]
  exact h

theorem PassedOn.inert {s s' : TCPSession τ} (h : s.PassedOn) (hinert : Inert s s') :
    s'.PassedOn :=
  h.of_eq hinert.remoteFinished hinert.state hinert.localNext hinert.localSeq

/-! ## What an event must find -/

/-- The segment at the left edge is still there: a flush does not reset. -/
def HoldsEdge (next : U32) (s : TCPSession τ) : Prop :=
  (s.frontAt next).any fun d => !(next < d.mSeq : Bool)

instance (next : U32) (s : TCPSession τ) : Decidable (s.HoldsEdge next) :=
  inferInstanceAs (Decidable (_ = true))

theorem holdsEdge_front {next : U32} {s : TCPSession τ} (h : s.HoldsEdge next) :
    ∃ d rest, s.mBackQueue.dropWhile (popsSegment next) = d :: rest ∧ ¬ next < d.mSeq := by
  unfold HoldsEdge frontAt at h
  cases hqueue : s.mBackQueue.dropWhile (popsSegment next) with
  | nil =>
    rw [hqueue] at h
    cases h
  | cons d rest =>
    rw [hqueue] at h
    exact ⟨d, rest, rfl, by simpa using h⟩

theorem SettlesBoth.settles {next window : U32} {s : TCPSession τ} (h : s.SettlesBoth next window) :
    s.Settles next := by
  rcases h with hlt | ⟨heq, hnone, -⟩ | hahead
  · exact .inl hlt
  · exact .inr (.inl ⟨heq, hnone⟩)
  · exact .inr (.inr hahead)

/-- The flush or push an acknowledgement leads to leaves no close behind. -/
def PassesAck (ip : Packet) (s : TCPSession τ) : Prop :=
  if s.mState = .established ∧ s.Queues ip then s.SettlesPush (s.relativeAck ip)
  else if s.mState ≠ .closeWait ∧ ip.payload ≠ [] ∧ s.Repeated ip then
    s.SettlesBoth (s.relativeAck ip) (s.acknowledged ip).sendLimit
  else s.Settles (s.relativeAck ip)

/-- Nor does that of a FIN.  In ESTABLISHED it goes to CLOSE_WAIT even if the push has reset. -/
def PassesFin (ip : Packet) (s : TCPSession τ) : Prop :=
  if s.mState = .established then
    (s.finNumbered ip).mLocalNext < s.mLocalSeq ∧ s.HoldsEdge (s.finNumbered ip).mLocalNext
  else s.SettlesPush (s.finNumbered ip).mLocalNext

/-- What a packet must find once the remote has finished. -/
def PassesPacket (ip : Packet) (s : TCPSession τ) : Prop :=
  if NetCore.hasFlag ip.flag SYN then True
  else if NetCore.hasFlag ip.flag FIN then s.MayFinish → s.PassesFin ip
  else if NetCore.hasFlag ip.flag RST ∨ s.relativeAck ip < s.mLocalNext then True
  else s.mState = .synRcved ∨ s.MayFinish → s.PassesAck ip

instance (ip : Packet) (s : TCPSession τ) : Decidable (s.PassesAck ip) := by
  unfold PassesAck
  infer_instance

instance (ip : Packet) (s : TCPSession τ) : Decidable (s.PassesFin ip) := by
  unfold PassesFin
  infer_instance

instance (ip : Packet) (s : TCPSession τ) : Decidable (s.PassesPacket ip) := by
  unfold PassesPacket
  infer_instance

-- A repeated payload is not queued, so its case is the second.
theorem PassesAck.settles {ip : Packet} {s : TCPSession τ} (h : s.PassesAck ip)
    (hnot : ¬ (s.mState = .established ∧ s.Queues ip)) : s.Settles (s.relativeAck ip) := by
  unfold PassesAck at h
  rw [if_neg hnot] at h
  split at h
  · exact h.settles
  · exact h

theorem PassesAck.both {ip : Packet} {s : TCPSession τ} (h : s.PassesAck ip)
    (hstate : s.mState ≠ .closeWait) (hne : ip.payload ≠ []) (hold : s.Repeated ip) :
    s.SettlesBoth (s.relativeAck ip) (s.acknowledged ip).sendLimit := by
  unfold PassesAck at h
  rw [if_neg (fun hqueues => hqueues.2.2.1 hold), if_pos ⟨hstate, hne, hold⟩] at h
  exact h

/-- There is room below 2^32 for the bytes the tunnel brings. -/
def RelayFits (n : Nat) (s : TCPSession τ) : Prop :=
  s.mRemoteFinished → s.MayFinish → s.mLocalSeq.toNat + n < 2 ^ 32

instance (n : Nat) (s : TCPSession τ) : Decidable (s.RelayFits n) :=
  inferInstanceAs (Decidable (_ → _))

variable [ITunnel τ]

/-! ## One flush -/

-- The send loop resets, or changes neither the state nor the numbers.
theorem sendBackData_moves {s : TCPSession τ} (hsound : s.BackSound) :
    ((∃ d rest, s.mBackQueue = d :: rest ∧ s.mLocalNext < d.mSeq) ∧
      s.sendBackData.mState = .closed) ∨
    ((∀ d rest, s.mBackQueue = d :: rest → ¬ s.mLocalNext < d.mSeq) ∧
      s.sendBackData.mState = s.mState ∧ s.sendBackData.mLocalSeq = s.mLocalSeq) := by
  rcases sendBackData_cases hsound with
    ⟨d, rest, hqueue, hahead, heq⟩ | ⟨d, rest, hqueue, hnot, -, heq⟩ | ⟨hwaits, heq⟩
  · refine .inl ⟨⟨d, rest, hqueue, hahead⟩, ?_⟩
    rw [heq, resetConnection_mState]
  · refine .inr ⟨?_, ?_, ?_⟩
    · intro d' rest' hqueue'
      rw [hqueue] at hqueue'
      cases hqueue'
      exact hnot
    · rw [heq, (resumeIfRoom_inert _).state]
      rfl
    · rw [heq, (resumeIfRoom_inert _).localSeq]
      rfl
  · refine .inr ⟨fun d rest hqueue => (hwaits d rest hqueue).1, ?_, ?_⟩
    · rw [heq, (resumeIfRoom_inert s).state]
    · rw [heq, (resumeIfRoom_inert s).localSeq]

theorem leave_state (s : TCPSession τ) : ¬ s.leave.MayFinish := by
  unfold leave MayFinish
  rw [switchState_mState]
  split <;> decide

theorem flush_passes {s : TCPSession τ} (hsound : s.BackSound)
    (h : s.mRemoteFinished → s.MayFinish → s.Settles s.mLocalNext) : s.flushBackQueue.PassedOn := by
  have hnext := (popAcked_frame s).localNext
  by_cases hfin : s.popAcked.FinDue
  · by_cases hle : s.mLocalNext ≤ s.mLocalSeq
    · rw [flushBackQueue_fin hfin hle]
      exact passedOn_of_state (leave_state _)
    · -- the FIN is refused: the edge is past all numbers
      have hempty := hfin.2.2
      rw [popAcked_mBackQueue] at hempty
      have hmay : s.MayFinish := by
        unfold MayFinish
        rw [← popAcked_mState]
        exact hfin.2.1
      rcases h ((popAcked_frame s).remoteFinished ▸ hfin.1) hmay with hlt | ⟨heq, -⟩ | hahead
      · bv_omega
      · bv_omega
      · obtain ⟨d, rest, hqueue, -⟩ := aheadOf_front hahead
        rw [hempty] at hqueue
        cases hqueue
  · have hframe := (popAcked_frame s).trans (sendBackData_frame s.popAcked)
    rw [flushBackQueue_of_not_finDue hfin]
    rcases sendBackData_moves (popAcked_sound hsound) with ⟨-, hclosed⟩ | ⟨hnot, hstate, hseq⟩
    · exact passedOn_of_state (not_mayFinish_closed hclosed)
    · intro hfinished hmay
      rw [hframe.remoteFinished] at hfinished
      unfold MayFinish at hmay
      rw [hstate, popAcked_mState] at hmay
      rw [hframe.localNext, hseq, popAcked_mLocalSeq]
      rw [popAcked_mBackQueue, hnext] at hnot
      rcases h hfinished hmay with hlt | ⟨-, hnone⟩ | hahead
      · exact hlt
      · -- nothing is left, so the FIN was due
        refine absurd ⟨?_, ?_, ?_⟩ hfin
        · rw [(popAcked_frame s).remoteFinished]
          exact hfinished
        · rw [popAcked_mState]
          exact hmay
        · rw [popAcked_mBackQueue]
          exact frontAt_none.mp hnone
      · obtain ⟨d, rest, hqueue, hlt⟩ := aheadOf_front hahead
        exact absurd hlt (hnot d rest hqueue)

/-! ## One pure ACK -/

-- The queue the flush of a push finds.
theorem pushed_queue (s : TCPSession τ) (hle : s.mLocalNext ≤ s.mLocalSeq) (data : Bytes) :
    (s.enqueueBack ACK data).popAcked.mBackQueue =
      s.mBackQueue.dropWhile (popsSegment s.mLocalNext) ++ [s.newSegment ACK data] := by
  have hstays : popsSegment s.mLocalNext (s.newSegment ACK data) = false := newSegment_stays hle
  rw [popAcked_mBackQueue, enqueueBack_mBackQueue, enqueueBack_mLocalNext, List.dropWhile_append]
  split
  next hempty =>
    rw [List.isEmpty_iff.mp hempty, List.dropWhile_cons, if_neg (by rw [hstays]; decide),
      List.nil_append]
  next => rfl

-- A push resets, or changes nothing but the queue and the count.
theorem push_moves {s : TCPSession τ} (hsound : s.BackSound) (hle : s.mLocalNext ≤ s.mLocalSeq)
    {data : Bytes} (hdata : data.length ≤ TCP_IP_PAYLOAD_SIZE) :
    ((∃ d rest, s.mBackQueue.dropWhile (popsSegment s.mLocalNext) ++ [s.newSegment ACK data] =
        d :: rest ∧ s.mLocalNext < d.mSeq) ∧
      (pushInBackQueue ACK data s).2.mState = .closed) ∨
    ((∀ d rest, s.mBackQueue.dropWhile (popsSegment s.mLocalNext) = d :: rest →
        ¬ s.mLocalNext < d.mSeq) ∧
      (pushInBackQueue ACK data s).2.mState = s.mState ∧
      (pushInBackQueue ACK data s).2.mLocalSeq = s.mLocalSeq + BitVec.ofNat 32 data.length) := by
  have hqueue := pushed_queue s hle data
  have hnext : (s.enqueueBack ACK data).popAcked.mLocalNext = s.mLocalNext :=
    (popAcked_frame _).localNext
  rw [pushInBackQueue_of_le hle]
  rcases sendBackData_moves (popAcked_sound (enqueueBack_sound hsound ACK hdata)) with
    ⟨⟨d, rest, hfront, hahead⟩, hclosed⟩ | ⟨hnot, hstate, hseq⟩
  · rw [hqueue] at hfront
    rw [hnext] at hahead
    exact .inl ⟨⟨d, rest, hfront, hahead⟩, hclosed⟩
  · refine .inr ⟨fun d rest hfront => ?_, ?_, ?_⟩
    · have hnot' := hnot d (rest ++ [s.newSegment ACK data]) (by
        rw [hqueue, hfront, List.cons_append])
      rw [hnext] at hnot'
      exact hnot'
    · rw [hstate, popAcked_mState, enqueueBack_mState]
    · rw [hseq, popAcked_mLocalSeq, enqueueBack_mLocalSeq, newSegment_seqLen,
        if_neg (by decide)]

theorem push_refused_eq {s : TCPSession τ} (hle : ¬ s.mLocalNext ≤ s.mLocalSeq) (data : Bytes) :
    (pushInBackQueue ACK data s).2 = s.emit [.refused ACK] := by
  rw [pushInBackQueue_refused (by bv_omega)]

theorem pushACK_passes {s : TCPSession τ} (hsound : s.BackSound)
    (h : s.mRemoteFinished → s.MayFinish → s.SettlesPush s.mLocalNext) :
    (pushInBackQueue ACK [] s).2.PassedOn := by
  have hframe := pushInBackQueue_frame ACK [] s
  have hempty : ([] : Bytes).length ≤ TCP_IP_PAYLOAD_SIZE := Nat.zero_le _
  by_cases hle : s.mLocalNext ≤ s.mLocalSeq
  · rcases push_moves hsound hle hempty with ⟨-, hclosed⟩ | ⟨hnot, hstate, hseq⟩
    · exact passedOn_of_state (not_mayFinish_closed hclosed)
    · intro hfinished hmay
      rw [hframe.remoteFinished] at hfinished
      unfold MayFinish at hmay
      rw [hstate] at hmay
      rw [hframe.localNext, hseq, List.length_nil]
      rcases h hfinished hmay with hlt | ⟨-, hahead⟩
      · rw [show s.mLocalSeq + BitVec.ofNat 32 0 = s.mLocalSeq from BitVec.add_zero _]
        exact hlt
      · obtain ⟨d, rest, hqueue, hlt⟩ := aheadOf_front hahead
        exact absurd hlt (hnot d rest hqueue)
  · rw [push_refused_eq hle]
    intro hfinished hmay
    rcases h hfinished hmay with hlt | ⟨heq, -⟩ <;> bv_omega

-- The pure ACK pushed into a queue that is acknowledged goes out at once if it fits.
theorem pushACK_alone {s : TCPSession τ} (hsound : s.BackSound)
    (hle : s.mLocalNext = s.mLocalSeq) (hnone : s.frontAt s.mLocalNext = none)
    (hfits : 40 < s.sendLimit) :
    (pushInBackQueue ACK [] s).2.mBackQueue = [handedOver (s.newSegment ACK [])] ∧
      (pushInBackQueue ACK [] s).2.mLocalSeq = s.mLocalSeq := by
  have hle' : s.mLocalNext ≤ s.mLocalSeq := by
    rw [hle]
    exact BitVec.le_refl _
  let u := (s.enqueueBack ACK []).popAcked
  have hu : u.BackSound := popAcked_sound (enqueueBare_sound hsound ACK)
  have hqueue : u.mBackQueue = [s.newSegment ACK []] := by
    rw [pushed_queue s hle' [], frontAt_none.mp hnone, List.nil_append]
  have hlimit : u.sendLimit = s.sendLimit := by
    have hwindow : u.mSendWindow = s.mSendWindow := popAcked_mSendWindow (s.enqueueBack ACK [])
    unfold sendLimit
    rw [hwindow]
  have hsize : (s.newSegment ACK []).size = 40 := newSegment_size ACK [] s
  have hsends : u.SendsFront (s.newSegment ACK []) := by
    refine ⟨?_, rfl, rfl⟩
    rw [hsize, hlimit]
    exact hfits
  have hnext : u.mLocalNext = s.mLocalNext := (popAcked_frame _).localNext
  rw [pushInBackQueue_of_le hle']
  rcases sendBackData_cases hu with ⟨d, rest, hqueue', hahead, -⟩ | ⟨d, rest, hqueue', -, -, heq⟩ |
    ⟨hwaits, -⟩
  · rw [hqueue] at hqueue'
    cases hqueue'
    rw [hnext, newSegment_mSeq, hle] at hahead
    exact absurd hahead (BitVec.lt_irrefl _)
  · rw [hqueue] at hqueue'
    cases hqueue'
    show u.sendBackData.mBackQueue = _ ∧ u.sendBackData.mLocalSeq = _
    rw [heq, (resumeIfRoom_inert _).backQueue, (resumeIfRoom_inert _).localSeq]
    refine ⟨rfl, ?_⟩
    show u.mLocalSeq = s.mLocalSeq
    rw [popAcked_mLocalSeq, enqueueBack_mLocalSeq, newSegment_seqLen, if_neg (by decide)]
    exact BitVec.add_zero _
  · exact absurd hsends (hwaits _ _ hqueue).2

theorem pushACK_sound {s : TCPSession τ} (hsound : s.BackSound) :
    (pushInBackQueue ACK [] s).2.BackSound := by
  have hempty : ([] : Bytes).length ≤ TCP_IP_PAYLOAD_SIZE := Nat.zero_le _
  exact push_sound hsound hempty

-- The ACK of a repeated segment and the flush behind it.
theorem pushThenFlush_passes {s : TCPSession τ} (hsound : s.BackSound)
    (h : s.mRemoteFinished → s.MayFinish → s.SettlesBoth s.mLocalNext s.sendLimit) :
    (pushInBackQueue ACK [] s).2.flushBackQueue.PassedOn := by
  have hframe := pushInBackQueue_frame ACK [] s
  refine flush_passes (pushACK_sound hsound) fun hfinished hmay => ?_
  rw [hframe.remoteFinished] at hfinished
  rw [hframe.localNext]
  have hempty : ([] : Bytes).length ≤ TCP_IP_PAYLOAD_SIZE := Nat.zero_le _
  have hmay' : s.MayFinish := by
    rcases pushInBackQueue_mState hsound ACK hempty with hsame | hclosed
    · unfold MayFinish at hmay ⊢
      rw [hsame] at hmay
      exact hmay
    · exact absurd hmay (not_mayFinish_closed hclosed)
  by_cases hle : s.mLocalNext ≤ s.mLocalSeq
  · rcases push_moves hsound hle hempty with ⟨-, hclosed⟩ | ⟨hnot, -, hseq⟩
    · exact absurd hmay (not_mayFinish_closed hclosed)
    · rcases h hfinished hmay' with hlt | ⟨heq, hnone, hfits⟩ | hahead
      · left
        rw [hseq, List.length_nil, show s.mLocalSeq + BitVec.ofNat 32 0 = s.mLocalSeq from
          BitVec.add_zero _]
        exact hlt
      · -- the ACK is out, so the flush takes it off again
        obtain ⟨hqueue, hseq'⟩ := pushACK_alone hsound heq hnone hfits
        refine .inr (.inl ⟨heq.trans hseq'.symm, frontAt_none.mpr ?_⟩)
        have hpops : popsSegment s.mLocalNext (handedOver (s.newSegment ACK [])) = true := by
          simp [popsSegment, handedOver, takeForWriting, TCPDatagram.withSegment]
        rw [hqueue, List.dropWhile_cons, if_pos hpops, List.dropWhile_nil]
      · obtain ⟨d, rest, hqueue, hlt⟩ := aheadOf_front hahead
        exact absurd hlt (hnot d rest hqueue)
  · rw [push_refused_eq hle]
    rcases h hfinished hmay' with hlt | ⟨heq, -⟩ | hahead
    · bv_omega
    · bv_omega
    · exact .inr (.inr hahead)

/-! ## Packets -/

-- A pure ACK that does not reset keeps what is still to be acknowledged.
theorem pushACK_holds {s : TCPSession τ} (hsound : s.BackSound) (hlt : s.mLocalNext < s.mLocalSeq)
    (hedge : s.HoldsEdge s.mLocalNext) :
    (pushInBackQueue ACK [] s).2.mLocalNext < (pushInBackQueue ACK [] s).2.mLocalSeq := by
  have hempty : ([] : Bytes).length ≤ TCP_IP_PAYLOAD_SIZE := Nat.zero_le _
  obtain ⟨d, rest, hqueue, hnot⟩ := holdsEdge_front hedge
  rw [(pushInBackQueue_frame ACK [] s).localNext]
  rcases push_moves hsound (by bv_omega) hempty with ⟨⟨d', rest', hqueue', hahead⟩, -⟩ | ⟨-, -, hseq⟩
  · rw [hqueue, List.cons_append] at hqueue'
    cases hqueue'
    exact absurd hahead hnot
  · rw [hseq, List.length_nil, show s.mLocalSeq + BitVec.ofNat 32 0 = s.mLocalSeq from
      BitVec.add_zero _]
    exact hlt

theorem onReceiveFIN_passes {ip : Packet} {s : TCPSession τ} (hsound : s.BackSound)
    (h : s.mRemoteFinished → s.MayFinish → s.PassesFin ip) : (onReceiveFIN ip s).PassedOn := by
  have hframe := onReceiveFIN_frame ip s
  have hsound' : (s.finNumbered ip).BackSound := hsound
  by_cases hmoves : s.FinMoves
  · by_cases hle : (s.finNumbered ip).mLocalNext ≤ s.mLocalSeq
    · rw [onReceiveFIN_moves hle hmoves] at hframe ⊢
      intro hfinished hmay
      rw [hframe.remoteFinished] at hfinished
      have hstate : s.mState = .established := by
        unfold MayFinish at hmay
        rw [switchState_mState] at hmay
        rcases hmoves with hstate | hstate | hstate
        · exact hstate
        all_goals
          unfold finState at hmay
          rw [hstate] at hmay
          simp only at hmay
          exfalso
          revert hmay
          first | decide | (split <;> decide)
      have hpasses := h hfinished (.inl hstate)
      unfold PassesFin at hpasses
      rw [if_pos hstate] at hpasses
      rw [(switchState_frame _ _).localNext, switchState_mLocalSeq]
      exact pushACK_holds hsound' hpasses.1 hpasses.2
    · rw [onReceiveFIN_refused (by bv_omega)]
      intro hfinished hmay
      have hpasses := h hfinished hmay
      unfold PassesFin SettlesPush at hpasses
      split at hpasses
      · have hlt := hpasses.1
        bv_omega
      · rcases hpasses with hlt | ⟨heq, -⟩ <;> bv_omega
  · rw [onReceiveFIN_stays hmoves]
    refine pushACK_passes hsound' fun hfinished hmay => ?_
    have hpasses := h hfinished hmay
    unfold PassesFin at hpasses
    rw [if_neg fun hstate => hmoves (.inl hstate)] at hpasses
    exact hpasses

theorem acceptPayload_passes {ip : Packet} {s : TCPSession τ} (hsound : s.BackSound)
    (hqueues : s.Queues ip → s.mRemoteFinished → s.MayFinish → s.SettlesPush s.mLocalNext)
    (hrepeated : ip.payload ≠ [] → s.Repeated ip → s.mRemoteFinished → s.MayFinish →
      s.SettlesBoth s.mLocalNext s.sendLimit)
    (hother : ¬ s.Queues ip → s.mRemoteFinished → s.MayFinish → s.Settles s.mLocalNext) :
    (acceptPayload ip s).PassedOn := by
  rcases acceptPayload_cases ip s with ⟨htakes, heq⟩ | ⟨hne, hold, heq⟩ | ⟨⟨hnot, -⟩, heq⟩
  · rw [heq]
    have hsound' : (s.uploaded ip).BackSound := hsound
    exact pushACK_passes hsound' (hqueues htakes)
  · rw [heq]
    exact pushThenFlush_passes hsound (hrepeated hne hold)
  · rw [heq]
    exact flush_passes hsound (hother hnot)

theorem acceptFirstPayload_passes {ip : Packet} {s : TCPSession τ} (hsound : s.BackSound)
    (hrepeated : ip.payload ≠ [] → s.Repeated ip → s.mRemoteFinished → s.MayFinish →
      s.SettlesBoth s.mLocalNext s.sendLimit)
    (hother : s.mRemoteFinished → s.MayFinish → s.Settles s.mLocalNext) :
    (acceptFirstPayload ip s).PassedOn := by
  rcases acceptFirstPayload_cases ip s with ⟨-, heq⟩ | ⟨hne, hold, heq⟩ | ⟨-, heq⟩
  · rw [heq]
    have hsound' : (s.uploaded ip).BackSound := hsound
    exact flush_passes hsound' hother
  · rw [heq]
    exact pushThenFlush_passes hsound (hrepeated hne hold)
  · rw [heq]
    exact flush_passes hsound hother

theorem switchState_sendLimit (state : TCPState) (s : TCPSession τ) :
    (s.switchState state).sendLimit = s.sendLimit := by
  unfold switchState
  split
  · rfl
  · split <;> rfl

-- The acknowledgement of data, in the state it finds the session in.
theorem onReceiveACK_passes {ip : Packet} {s t : TCPSession τ} (hsound : s.BackSound)
    (h : s.mRemoteFinished → s.mState = .synRcved ∨ s.MayFinish → s.PassesAck ip)
    (hstep : onReceiveACK ip (s.acknowledged ip) = some t) : t.PassedOn := by
  have hsound' : (s.acknowledged ip).BackSound := hsound
  have hpast (state : TCPState) (hstate : state ≠ .established ∧ state ≠ .closeWait) :
      ((s.acknowledged ip).switchState state).flushBackQueue.PassedOn := by
    refine flush_passes ?_ fun _ hmay => ?_
    · exact switchState_sound hsound
    · unfold MayFinish at hmay
      rw [switchState_mState] at hmay
      exact absurd hmay (by simp [hstate])
  rcases onReceiveACK_cases hstep with ⟨hstate, rfl⟩ | ⟨-, rfl⟩ | ⟨-, rfl⟩ | ⟨-, rfl⟩ |
    ⟨hstate, rfl⟩ | ⟨-, -, -, -, hstate, rfl⟩
  · -- the first acknowledgement opens the session
    have hstate' : s.mState = .synRcved := hstate
    have hframe := switchState_frame .established (s.acknowledged ip)
    have hqueue := switchState_backQueue .established (s.acknowledged ip)
    have hseq := switchState_mLocalSeq .established (s.acknowledged ip)
    have hnotYet : ¬ (s.mState = .established ∧ s.Queues ip) := by
      rw [hstate']
      exact fun hqueues => absurd hqueues.1 (by decide)
    have hwindow : ((s.acknowledged ip).switchState .established).sendLimit =
        (s.acknowledged ip).sendLimit := switchState_sendLimit _ _
    refine acceptFirstPayload_passes ?_ ?_ ?_
    · unfold BackSound
      rw [hqueue]
      exact hsound
    · intro hne hold hfinished _
      rw [hframe.remoteFinished] at hfinished
      unfold Repeated relativeSeq at hold
      rw [hframe.remoteNext, hframe.remoteSeqBase] at hold
      have hboth := (h hfinished (.inl hstate')).both (by rw [hstate']; decide) hne hold
      unfold SettlesBoth AheadOf frontAt
      rw [hqueue, hseq, hframe.localNext, hwindow]
      exact hboth
    · intro hfinished _
      rw [hframe.remoteFinished] at hfinished
      have hsettles := (h hfinished (.inl hstate')).settles hnotYet
      unfold Settles AheadOf frontAt
      rw [hqueue, hseq, hframe.localNext]
      exact hsettles
  · exact hpast .finWait2 (by decide)
  · exact hpast .closed (by decide)
  · exact hpast .timeWait (by decide)
  · have hstate' : s.mState = .established := hstate
    have hpasses : s.mRemoteFinished → s.PassesAck ip := fun hfinished =>
      h hfinished (.inr (.inl hstate'))
    refine acceptPayload_passes hsound' ?_ ?_ ?_
    · intro hqueues hfinished _
      have hpush := hpasses hfinished
      unfold PassesAck at hpush
      rw [if_pos ⟨hstate', hqueues⟩] at hpush
      exact hpush
    · intro hne hold hfinished _
      exact (hpasses hfinished).both (by rw [hstate']; decide) hne hold
    · intro hnot hfinished _
      exact (hpasses hfinished).settles fun hqueues => hnot hqueues.2
  · refine flush_passes hsound' fun hfinished hmay => ?_
    exact (h hfinished (.inr hmay)).settles fun hqueues => hstate hqueues.1

theorem accept_passes {ip : Packet} {s s' : TCPSession τ} (hopened : s.Opened) (hpassed : s.PassedOn)
    (h : s.mRemoteFinished → s.PassesPacket ip) (hstep : accept ip s = some s') : s'.PassedOn := by
  obtain ⟨t, haccepted, rfl⟩ := accept_accepted hopened.2 hstep
  obtain ⟨total, trace, hcounted⟩ := countAccepted_eq ip s
  rw [hcounted] at haccepted
  have hsound : BackSound ({ s with mTotalAccept := total, trace := trace } : TCPSession τ) :=
    hopened.1
  have ht : t.PassedOn := by
    cases haccepted with
    | syn => exact flush_passes hsound fun hfinished hmay => .inl (hpassed hfinished hmay)
    | fin hsyn hfin =>
      refine onReceiveFIN_passes hsound fun hfinished hmay => ?_
      have hpacket := h hfinished
      unfold PassesPacket at hpacket
      rw [if_neg (by rw [hsyn]; decide), if_pos hfin] at hpacket
      exact hpacket hmay
    | rst => exact passedOn_of_state (not_mayFinish_closed (switchState_mState _ _))
    | stale => exact hpassed
    | ack hplain hle hack =>
      refine onReceiveACK_passes hsound (fun hfinished hstate => ?_) hack
      have hpacket := h hfinished
      have hnot : ¬ (NetCore.hasFlag ip.flag RST ∨ s.relativeAck ip < s.mLocalNext) := by
        rw [hplain.2.2]
        rintro (hrst | hlt)
        · exact Bool.false_ne_true hrst
        · exact absurd hle (by show ¬ s.mLocalNext ≤ s.relativeAck ip; bv_omega)
      unfold PassesPacket at hpacket
      rw [if_neg (by rw [hplain.1]; decide), if_neg (by rw [hplain.2.1]; decide),
        if_neg hnot] at hpacket
      exact hpacket hstate
  exact ht.inert (noteTime_inert t)

/-! ## Calls from the tunnel -/

theorem onRemoteFinished_passes {s : TCPSession τ} (hsound : s.BackSound)
    (h : s.MayFinish → s.Settles s.mLocalNext) : s.onRemoteFinished.PassedOn := by
  have hsound' : BackSound ({ s with mRemoteFinished := true } : TCPSession τ) := hsound
  exact flush_passes hsound' fun _ hmay => h hmay

theorem onTunnelDisconnected_passes {s : TCPSession τ} (hsound : s.BackSound) (reason : U8)
    (h : s.MayFinish → s.Settles s.mLocalNext) : (s.onTunnelDisconnected reason).PassedOn := by
  unfold TCPSession.onTunnelDisconnected
  split
  · exact onRemoteFinished_passes hsound h
  · exact onRemoteFinished_passes hsound h
  · exact passedOn_of_state (not_mayFinish_closed (switchState_mState _ _))
  · exact passedOn_of_state (not_mayFinish_closed (switchState_mState _ _))
  · exact passedOn_of_state (not_mayFinish_closed (switchState_mState _ _))
  · exact passedOn_of_state (not_mayFinish_closed (switchState_mState _ _))
  · exact passedOn_of_state (not_mayFinish_closed (resetConnection_mState s))

-- A chunk of the relay moves the count away from the left edge.
theorem pushData_passes {s : TCPSession τ} {data : Bytes} {n : Nat} (hsound : s.BackSound)
    (hpassed : s.PassedOn) (hfits : s.RelayFits (data.length + n))
    (hdata : data.length ≤ TCP_IP_PAYLOAD_SIZE) (hle : s.mLocalNext ≤ s.mLocalSeq) :
    (pushInBackQueue ACK data s).2.PassedOn ∧ (pushInBackQueue ACK data s).2.RelayFits n := by
  have hframe := pushInBackQueue_frame ACK data s
  rcases push_moves hsound hle hdata with ⟨-, hclosed⟩ | ⟨-, hstate, hseq⟩
  · exact ⟨passedOn_of_state (not_mayFinish_closed hclosed),
      fun _ hmay => absurd hmay (not_mayFinish_closed hclosed)⟩
  · have hcount (hfinished : s.mRemoteFinished = true) (hmay : s.MayFinish) :
        (pushInBackQueue ACK data s).2.mLocalSeq.toNat = s.mLocalSeq.toNat + data.length := by
      have hroom := hfits hfinished hmay
      rw [hseq, BitVec.toNat_add, BitVec.toNat_ofNat, Nat.mod_eq_of_lt (show data.length < 2 ^ 32 by omega),
        Nat.mod_eq_of_lt (by omega)]
    have hmay' : (pushInBackQueue ACK data s).2.MayFinish → s.MayFinish := by
      unfold MayFinish
      rw [hstate]
      exact id
    constructor
    · intro hfinished hmay
      rw [hframe.remoteFinished] at hfinished
      have hlt := BitVec.lt_def.mp (hpassed hfinished (hmay' hmay))
      rw [hframe.localNext, BitVec.lt_def, hcount hfinished (hmay' hmay)]
      omega
    · intro hfinished hmay
      rw [hframe.remoteFinished] at hfinished
      have hroom := hfits hfinished (hmay' hmay)
      rw [hcount hfinished (hmay' hmay)]
      omega

theorem relayLoop_passes (fuel : Nat) {data : Bytes} {s : TCPSession τ} (hsound : s.BackSound)
    (hpassed : s.PassedOn) (hfits : s.RelayFits data.length) :
    (relayLoop fuel data s).2.PassedOn := by
  induction fuel generalizing data s with
  | zero => exact hpassed
  | succ fuel ih =>
    unfold relayLoop
    by_cases hempty : data = []
    · rw [if_pos hempty]
      exact hpassed
    rw [if_neg hempty]
    have htake : (data.take TCP_IP_PAYLOAD_SIZE).length ≤ TCP_IP_PAYLOAD_SIZE :=
      List.length_take_le _ _
    have hsplit : (data.take TCP_IP_PAYLOAD_SIZE).length + (data.drop TCP_IP_PAYLOAD_SIZE).length =
        data.length := by
      rw [← List.length_append, List.take_append_drop]
    by_cases hle : s.mLocalNext ≤ s.mLocalSeq
    · obtain ⟨hpassed', hfits'⟩ := pushData_passes hsound hpassed (hsplit ▸ hfits) htake hle
      have hsound' : (pushInBackQueue ACK (data.take TCP_IP_PAYLOAD_SIZE) s).2.BackSound := by
        rw [pushInBackQueue_of_le hle]
        exact sendBackData_sound (popAcked_sound (enqueueBack_sound hsound ACK htake))
      rw [pushInBackQueue_of_le hle] at hpassed' hfits' hsound' ⊢
      exact ih hsound' hpassed' hfits'
    · rw [pushInBackQueue_refused (by bv_omega)]
      exact hpassed

/-! ## Steps and runs -/

/-- What an event must find so that the close is passed on. -/
def PassesOn (s : TCPSession τ) : Event τ → Prop
  | .accept ip => s.mRemoteFinished → s.PassesPacket ip
  | .tunnelDataBack data =>
      (data = [] → s.MayFinish → s.Settles s.mLocalNext) ∧ s.RelayFits data.length
  | .tunnelDisconnected _ => s.MayFinish → s.Settles s.mLocalNext
  | .tunnelWritable =>
      (drain s.mForwardQueue s.mTunnel).failed ≠ none → s.MayFinish → s.Settles s.mLocalNext
  | _ => True

instance (s : TCPSession τ) : ∀ e, Decidable (s.PassesOn e)
  | .accept _ => inferInstanceAs (Decidable (_ → _))
  | .tunnelDataBack _ => inferInstanceAs (Decidable ((_ → _ → _) ∧ _))
  | .tunnelDisconnected _ => inferInstanceAs (Decidable (_ → _))
  | .tunnelWritable => inferInstanceAs (Decidable (_ → _ → _))
  | .tunnelConnected | .written _ _ | .environment _ _ _ => inferInstanceAs (Decidable True)

theorem step_passes {s s' : TCPSession τ} {e : Event τ} (hopened : s.Opened) (hpassed : s.PassedOn)
    (h : s.PassesOn e) (hstep : step s e = some s') : s'.PassedOn := by
  cases e with
  | accept ip => exact accept_passes hopened hpassed h hstep
  | tunnelConnected =>
    cases hstep
    exact hpassed
  | tunnelDisconnected reason =>
    cases hstep
    exact onTunnelDisconnected_passes hopened.1 reason h
  | tunnelWritable =>
    cases hstep
    rcases onTunnelWritable_cases s with hinert | ⟨-, reason, n, hfailed, heq⟩
    · exact hpassed.inert hinert
    · have hsound : s.drained.BackSound := hopened.1
      have hmay : s.MayFinish → s.Settles s.mLocalNext := h (by rw [hfailed]; exact nofun)
      rw [heq]
      exact (onTunnelDisconnected_passes hsound reason hmay).inert (countSent_inert n _)
  | tunnelDataBack data =>
    cases hstep
    obtain ⟨hend, hfits⟩ := h
    by_cases hdata : data = []
    · have hsound : BackSound
          ({ s with mTunnel := ITunnel.pauseReceiveData s.mTunnel } : TCPSession τ) := hopened.1
      unfold onTunnelDataBack
      rw [if_pos hdata]
      exact (onRemoteFinished_passes hsound (hend hdata)).inert (noteTime_inert _)
    · unfold onTunnelDataBack
      rw [if_neg hdata]
      have hrelayed := relayLoop_passes data.length hopened.1 hpassed hfits
      exact ((hrelayed.inert (countRecv_inert _ _)).inert (pauseIfFull_inert _)).inert
        (noteTime_inert _)
  | written i n =>
    cases hstep
    exact hpassed
  | environment tunnel now rand =>
    cases hstep
    exact hpassed

/-- In a run whose events all find what they need, no close of the remote is left behind. -/
theorem close_passed_on {s₀ s : TCPSession τ} {es : List (Event τ)} (hborn : s₀.Born)
    (hpasses : Lib.Along step PassesOn s₀ es) (hrun : Lib.run step s₀ es = some s) : s.PassedOn := by
  have hstart : s₀.Opened ∧ s₀.PassedOn := by
    refine ⟨hborn.newborn.opened, fun hfinished _ => ?_⟩
    rw [hborn.newborn.remoteFinished] at hfinished
    cases hfinished
  exact (hpasses.invariant (fun s => s.Opened ∧ s.PassedOn) (fun s e t h hcond hstep =>
    ⟨step_opened h.1 hstep, step_passes h.1 h.2 hcond hstep⟩) hstart hrun).2

theorem close_passed_on_sample :
    ∃ s : TCPSession TCPTunnel,
      Lib.run step (sampleBorn sampleTunnel)
        [.accept (samplePacket 101 1001 ACK [] (by decide)), .tunnelDataBack [1, 2, 3],
          .tunnelDisconnected 0, .accept (samplePacket 101 1004 ACK [] (by decide))] = some s ∧
      s.mRemoteFinished = true ∧ s.mState = .finWait1 ∧ s.PassedOn := by
  have hpasses : Lib.Along step PassesOn (sampleBorn sampleTunnel)
      [.accept (samplePacket 101 1001 ACK [] (by decide)), .tunnelDataBack [1, 2, 3],
        .tunnelDisconnected 0, .accept (samplePacket 101 1004 ACK [] (by decide))] := by decide
  have hreach : ∃ s : TCPSession TCPTunnel,
      Lib.run step (sampleBorn sampleTunnel)
        [.accept (samplePacket 101 1001 ACK [] (by decide)), .tunnelDataBack [1, 2, 3],
          .tunnelDisconnected 0, .accept (samplePacket 101 1004 ACK [] (by decide))] = some s ∧
      s.mRemoteFinished = true ∧ s.mState = .finWait1 := Lib.run_reaches (by decide)
  obtain ⟨s, hrun, hfinished, hstate⟩ := hreach
  exact ⟨s, hrun, hfinished, hstate, close_passed_on (sampleBorn_born (by decide)) hpasses hrun⟩

/-- A byte of upload is acknowledged behind the download, the remote finishes, and the download is
    acknowledged: the pure ACK has not gone out before, so the FIN waits, and nothing is left to
    acknowledge. -/
theorem close_left_behind :
    (sampleBorn sampleTunnel).Born ∧ ∃ s : TCPSession TCPTunnel,
      Lib.run step (sampleBorn sampleTunnel)
        [.accept (samplePacket 101 1001 ACK [] (by decide)), .tunnelDataBack [1, 2, 3],
          .accept (samplePacket 101 1001 ACK [0x61] (by decide)), .tunnelDisconnected 0,
          .accept (samplePacket 102 1004 ACK [] (by decide))] = some s ∧
      s.mState = .established ∧ s.mLocalNext = s.mLocalSeq ∧ s.mBackQueue.length = 1 ∧
      ¬ s.PassedOn := by
  refine ⟨sampleBorn_born (by decide), ?_⟩
  have hreach : ∃ s : TCPSession TCPTunnel,
      Lib.run step (sampleBorn sampleTunnel)
        [.accept (samplePacket 101 1001 ACK [] (by decide)), .tunnelDataBack [1, 2, 3],
          .accept (samplePacket 101 1001 ACK [0x61] (by decide)), .tunnelDisconnected 0,
          .accept (samplePacket 102 1004 ACK [] (by decide))] = some s ∧
      s.mRemoteFinished = true ∧ s.mState = .established ∧ s.mLocalNext = s.mLocalSeq ∧
      s.mBackQueue.length = 1 := Lib.run_reaches (by decide)
  obtain ⟨s, hrun, hfinished, hstate, hnext, hlength⟩ := hreach
  refine ⟨s, hrun, hstate, hnext, hlength, fun h => ?_⟩
  have hlt := h hfinished (.inl hstate)
  rw [hnext] at hlt
  exact BitVec.lt_irrefl _ hlt

end TCPSession
end NetCore
