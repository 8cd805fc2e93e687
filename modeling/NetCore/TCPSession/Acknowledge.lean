import NetCore.TCPSession.PassOn
import NetCore.TCPSession.StepRelation

/-!
# What a session owes the application

`mRemoteNext` is what the session has accepted; the segments it pushes carry it as `mAck`.  The pop
loop takes a pure ACK off the queue once it was handed over, whether it was written or not.  So the
application learns of `mRemoteNext` as long as whatever moves it pushes a segment, and the queue is
not emptied behind a last segment that is not written.

`Answers` says so of the state before a step; `step_tells` is what follows for the step.
-/

namespace NetCore

def TracePoint.push : TracePoint → Option TCPDatagram
  | .pushed d => some d
  | _ => none

/-- The flags of a segment that has been written out once: it has come back, or it is handed over a
    second time. -/
def TCPDatagram.WasWritten (d : TCPDatagram) : Prop :=
  (0 < d.mRetry ∧ d.isBuffering = false) ∨ 1 < d.mRetry

instance (d : TCPDatagram) : Decidable d.WasWritten := inferInstanceAs (Decidable (_ ∨ _))

namespace TCPSession

variable {τ : Type} {s t u : TCPSession τ}

/-- The segments pushed so far. -/
def pushes (s : TCPSession τ) : List TCPDatagram := s.trace.filterMap TracePoint.push

def LastWritten (s : TCPSession τ) : Prop := ∀ d ∈ s.mBackQueue.getLast?, d.WasWritten

instance (s : TCPSession τ) : Decidable s.LastWritten := inferInstanceAs (Decidable (∀ d ∈ _, _))

/-- A flush with the left edge `next` empties the queue only behind a segment that was written, or
    to push the FIN. -/
def Spares (next : U32) (finishes : Prop) (s : TCPSession τ) : Prop :=
  s.frontAt next = none → s.LastWritten ∨ (finishes ∧ next ≤ s.mLocalSeq)

/-- The ACK of a repeated segment is not taken off again by the flush behind it: it waits behind
    another segment, a reset or the window keeps it back, or the FIN follows. -/
def SparesAnswer (next window : U32) (s : TCPSession τ) : Prop :=
  s.frontAt next = none →
    if next ≤ s.mLocalSeq then next = s.mLocalSeq → s.mRemoteFinished ∨ window ≤ 40
    else s.LastWritten

def Receiving (s : TCPSession τ) : Prop := s.mState = .synRcved ∨ s.mState = .established

instance (next : U32) (finishes : Prop) [Decidable finishes] (s : TCPSession τ) :
    Decidable (s.Spares next finishes) := inferInstanceAs (Decidable (_ → _))

instance (next window : U32) (s : TCPSession τ) : Decidable (s.SparesAnswer next window) :=
  inferInstanceAs (Decidable (_ → _))

instance (s : TCPSession τ) : Decidable s.Receiving := inferInstanceAs (Decidable (_ ∨ _))

/-- A new acknowledgement: a payload that is queued is acknowledged, and nothing is dropped. -/
def AnswersAck (ip : Packet) (s : TCPSession τ) : Prop :=
  if s.Receiving ∧ s.Queues ip then
    s.mRemoteNext.toNat + ip.payload.length < 2 ^ 32 ∧ s.relativeAck ip ≤ s.mLocalSeq ∧
      (s.mState = .established ∨ (s.mRemoteFinished ∧ s.frontAt (s.relativeAck ip) = none))
  else if s.Receiving ∧ ip.payload ≠ [] ∧ s.Repeated ip then
    s.SparesAnswer (s.relativeAck ip) (s.acknowledged ip).sendLimit
  else s.Spares (s.relativeAck ip) (s.mRemoteFinished ∧ (s.mState = .synRcved ∨ s.MayFinish))

def AnswersPacket (ip : Packet) (s : TCPSession τ) : Prop :=
  if NetCore.hasFlag ip.flag SYN then s.Spares s.mLocalNext (s.mRemoteFinished ∧ s.MayFinish)
  else if NetCore.hasFlag ip.flag FIN then
    (s.finNumbered ip).mLocalNext ≤ s.mLocalSeq ∧ s.mRemoteNext ≤ (s.finNumbered ip).mRemoteNext
  else if NetCore.hasFlag ip.flag RST ∨ s.relativeAck ip < s.mLocalNext then True
  else s.AnswersAck ip

instance (ip : Packet) (s : TCPSession τ) : Decidable (s.AnswersAck ip) := by
  unfold AnswersAck
  infer_instance

instance (ip : Packet) (s : TCPSession τ) : Decidable (s.AnswersPacket ip) := by
  unfold AnswersPacket
  infer_instance

/-! ## What is pushed -/

-- The segments pushed from `s` to `t` acknowledge what the session has accepted.
structure Feeds (s t : TCPSession τ) : Prop where
  next : t.mRemoteNext = s.mRemoteNext
  pushes : ∃ ds, t.pushes = s.pushes ++ ds ∧ ∀ d ∈ ds, d.mAck = s.mRemoteNext

theorem pushes_of_trace (h : t.trace = s.trace) : t.pushes = s.pushes := by
  unfold pushes
  rw [h]

theorem pushes_of_records {kind : TracePoint → Bool} (h : Records kind s t)
    (hkind : ∀ point, kind point → point.push = none) : t.pushes = s.pushes := by
  obtain ⟨points, htrace, hpoints⟩ := h
  have hnone : points.filterMap TracePoint.push = [] :=
    List.filterMap_eq_nil_iff.mpr fun point hpoint => hkind point (hpoints point hpoint)
  unfold pushes
  rw [htrace, List.filterMap_append, hnone, List.append_nil]

theorem Inert.pushes (h : Inert s t) : t.pushes = s.pushes :=
  pushes_of_records h.trace fun point hpoint => by cases point <;> first | rfl | cases hpoint

theorem popAcked_pushes (s : TCPSession τ) : s.popAcked.pushes = s.pushes :=
  pushes_of_records s.popAcked_records fun point hpoint => by
    cases point <;> first | rfl | cases hpoint

theorem refused_pushes (flag : U8) (s : TCPSession τ) : (s.emit [.refused flag]).pushes = s.pushes := by
  unfold pushes emit
  rw [List.filterMap_append]
  exact List.append_nil _

theorem Feeds.of_same (hnext : t.mRemoteNext = s.mRemoteNext) (hpushes : t.pushes = s.pushes) :
    Feeds s t := ⟨hnext, [], by rw [hpushes, List.append_nil], List.forall_mem_nil _⟩

theorem Feeds.trans (h : Feeds s t) (h' : Feeds t u) : Feeds s u := by
  obtain ⟨ds, hds, hall⟩ := h.pushes
  obtain ⟨more, hmore, hall'⟩ := h'.pushes
  refine ⟨h'.next.trans h.next, ds ++ more, by rw [hmore, hds, List.append_assoc], ?_⟩
  exact List.forall_mem_append.mpr ⟨hall, fun d hd => (hall' d hd).trans h.next⟩

variable [ITunnel τ]

theorem switchState_pushes (state : TCPState) (s : TCPSession τ) :
    (s.switchState state).pushes = s.pushes :=
  pushes_of_records (switchState_records state s) fun point hpoint => by
    cases point <;> first | rfl | cases hpoint

theorem rstSent_pushes (s : TCPSession τ) : s.rstSent.pushes = s.pushes := by
  obtain ⟨u, htrace⟩ := s.rstSent_trace
  unfold pushes
  rw [htrace, List.filterMap_append]
  exact List.append_nil _

theorem sendBackData_pushes (s : TCPSession τ) : s.sendBackData.pushes = s.pushes := by
  refine sendBackData_relation (R := fun s t : TCPSession τ => t.pushes = s.pushes)
    (fun h h' => h'.trans h) (fun _ _ => rfl) (fun s d => ?_) (fun s => ?_)
    (fun s => pushes_of_trace (resumeIfRoom_trace s)) s
  · unfold sendBackSegment
    split
    · rfl
    · dsimp only
      split
      · rfl
      · unfold pushes emit
        rw [List.filterMap_append]
        exact List.append_nil _
  · rw [resetConnection_eq, switchState_pushes, rstSent_pushes]

theorem enqueueBack_pushes (flag : U8) (data : Bytes) (s : TCPSession τ) :
    (s.enqueueBack flag data).pushes = s.pushes ++ [s.newSegment flag data] := by
  unfold pushes
  rw [enqueueBack_trace, List.filterMap_append]
  rfl

theorem enqueueBack_feeds (flag : U8) (data : Bytes) (s : TCPSession τ) :
    Feeds s (s.enqueueBack flag data) where
  next := (enqueueBack_frame flag data s).remoteNext
  pushes := ⟨_, enqueueBack_pushes flag data s, List.forall_mem_singleton.mpr rfl⟩

theorem feeds_relation : FlushRelation (Feeds (τ := τ)) where
  refl _ := .of_same rfl rfl
  trans := .trans
  pop s := .of_same (popAcked_frame s).remoteNext (popAcked_pushes s)
  send s := .of_same (sendBackData_frame s).remoteNext (sendBackData_pushes s)
  number flag s := enqueueBack_feeds flag [] s
  refuse flag s := .of_same rfl (refused_pushes flag s)
  switch state s := .of_same (switchState_frame state s).remoteNext (switchState_pushes state s)
  rst s := .of_same (rstSent_frame s).remoteNext (rstSent_pushes s)
  finish _ := .of_same rfl rfl

theorem push_pushes {flag : U8} {data : Bytes} (hle : s.mLocalNext ≤ s.mLocalSeq) :
    (pushInBackQueue flag data s).2.pushes = s.pushes ++ [s.newSegment flag data] := by
  rw [pushInBackQueue_of_le hle]
  show TCPSession.pushes (sendBackData _) = _
  rw [sendBackData_pushes, popAcked_pushes, enqueueBack_pushes]

/-! ## What is left in the queue -/

theorem sendBackData_empty (hsound : s.BackSound) :
    s.sendBackData.mBackQueue = [] ↔ s.mBackQueue = [] := by
  rcases sendBackData_cases hsound with
    ⟨d, rest, hqueue, -, heq⟩ | ⟨d, rest, hqueue, -, -, heq⟩ | ⟨-, heq⟩
  · rw [heq, resetConnection_backQueue]
  · rw [heq, (resumeIfRoom_inert _).backQueue, hqueue]
    exact iff_of_false (List.cons_ne_nil _ _) (List.cons_ne_nil _ _)
  · rw [heq, (resumeIfRoom_inert _).backQueue]

omit [ITunnel τ] in
theorem popAcked_empty : s.popAcked.mBackQueue = [] ↔ s.frontAt s.mLocalNext = none := by
  rw [popAcked_mBackQueue, frontAt_none]

-- What was just pushed stays.
theorem push_stays (hsound : s.BackSound) (hle : s.mLocalNext ≤ s.mLocalSeq) {data : Bytes}
    (hdata : data.length ≤ TCP_IP_PAYLOAD_SIZE) :
    (pushInBackQueue ACK data s).2.mBackQueue ≠ [] := by
  have hqueue := pushed_queue s hle data
  rw [pushInBackQueue_of_le hle]
  intro hempty
  have hempty' := (sendBackData_empty (popAcked_sound (enqueueBack_sound hsound ACK hdata))).mp hempty
  rw [hqueue] at hempty'
  exact List.append_ne_nil_of_right_ne_nil _ (List.cons_ne_nil _ _) hempty'

-- From `s` to `t` the queue was emptied only behind a segment that was written.
def Leaves (s t : TCPSession τ) : Prop :=
  t.mBackQueue = [] → t.pushes = s.pushes ∧ s.LastWritten

omit [ITunnel τ] in
theorem Leaves.of_same (hqueue : t.mBackQueue = s.mBackQueue) (hpushes : t.pushes = s.pushes) :
    Leaves s t := by
  intro hempty
  refine ⟨hpushes, ?_⟩
  unfold LastWritten
  rw [← hqueue, hempty]
  simp

-- A segment that was not handed over and is not behind the left edge survives a flush.
theorem flush_keeps (hsound : s.BackSound) {d : TCPDatagram} (hmem : d ∈ s.mBackQueue)
    (hstays : popsSegment s.mLocalNext d = false) : s.flushBackQueue.mBackQueue ≠ [] := by
  have hkept : s.popAcked.mBackQueue ≠ [] := by
    intro hnone
    rw [popAcked_mBackQueue, List.dropWhile_eq_nil_iff] at hnone
    have hpops := hnone d hmem
    rw [hstays] at hpops
    cases hpops
  have hfin : ¬ s.popAcked.FinDue := fun hfin => hkept hfin.2.2
  rw [flushBackQueue_of_not_finDue hfin]
  exact fun hempty => hkept ((sendBackData_empty (popAcked_sound hsound)).mp hempty)

-- The FIN that follows is in the queue.
theorem flush_finishes (hsound : s.BackSound) (hfinished : s.mRemoteFinished) (hmay : s.MayFinish)
    (hle : s.mLocalNext ≤ s.mLocalSeq) : s.flushBackQueue.mBackQueue ≠ [] := by
  by_cases hfin : s.popAcked.FinDue
  · have hpushed := enqueueBare_sound (popAcked_sound hsound) (FIN ||| ACK)
    rw [flushBackQueue_fin hfin hle, leave, switchState_backQueue, ne_eq, sendBackData_empty hpushed]
    simp
  · have hkept : s.popAcked.mBackQueue ≠ [] := by
      intro hnone
      refine hfin ⟨?_, ?_, hnone⟩
      · rw [(popAcked_frame s).remoteFinished]
        exact hfinished
      · rw [popAcked_mState]
        exact hmay
    rw [flushBackQueue_of_not_finDue hfin]
    exact fun hempty => hkept ((sendBackData_empty (popAcked_sound hsound)).mp hempty)

theorem flush_leaves (hsound : s.BackSound)
    (h : s.Spares s.mLocalNext (s.mRemoteFinished ∧ s.MayFinish)) : Leaves s s.flushBackQueue := by
  intro hempty
  have hpushed : ¬ (s.mRemoteFinished ∧ s.MayFinish ∧ s.mLocalNext ≤ s.mLocalSeq) := by
    rintro ⟨hfinished, hmay, hle⟩
    exact flush_finishes hsound hfinished hmay hle hempty
  have hnone : s.frontAt s.mLocalNext = none := by
    rw [frontAt_none, List.dropWhile_eq_nil_iff]
    intro d hd
    cases hpops : popsSegment s.mLocalNext d with
    | true => rfl
    | false => exact absurd hempty (flush_keeps hsound hd hpops)
  refine ⟨?_, (h hnone).resolve_right fun hfinishes =>
    hpushed ⟨hfinishes.1.1, hfinishes.1.2, hfinishes.2⟩⟩
  by_cases hfin : s.popAcked.FinDue
  · have hlt : ¬ s.mLocalNext ≤ s.mLocalSeq := by
      intro hle
      refine hpushed ⟨?_, ?_, hle⟩
      · rw [← (popAcked_frame s).remoteFinished]
        exact hfin.1
      · unfold MayFinish
        rw [← popAcked_mState]
        exact hfin.2.1
    rw [flushBackQueue_fin_refused hfin (by bv_omega), refused_pushes, popAcked_pushes]
  · rw [flushBackQueue_of_not_finDue hfin, sendBackData_pushes, popAcked_pushes]

-- The pure ACK just pushed waits, or it was the front and is out.
theorem pushACK_waits (hsound : s.BackSound) (hle : s.mLocalNext ≤ s.mLocalSeq) :
    s.newSegment ACK [] ∈ (pushInBackQueue ACK [] s).2.mBackQueue ∨
      (s.frontAt s.mLocalNext = none ∧ s.mLocalNext = s.mLocalSeq ∧ 40 < s.sendLimit) := by
  let v := (s.enqueueBack ACK []).popAcked
  have hv : v.BackSound := popAcked_sound (enqueueBare_sound hsound ACK)
  have hqueue : v.mBackQueue =
      s.mBackQueue.dropWhile (popsSegment s.mLocalNext) ++ [s.newSegment ACK []] :=
    pushed_queue s hle []
  have hmem : s.newSegment ACK [] ∈ v.mBackQueue := by
    rw [hqueue]
    exact List.mem_append_right _ List.mem_cons_self
  have hnext : v.mLocalNext = s.mLocalNext := (popAcked_frame _).localNext
  have hlimit : v.sendLimit = s.sendLimit := by
    have hwindow : v.mSendWindow = s.mSendWindow := popAcked_mSendWindow (s.enqueueBack ACK [])
    unfold sendLimit
    rw [hwindow]
  rw [pushInBackQueue_of_le hle]
  show _ ∈ v.sendBackData.mBackQueue ∨ _
  rcases sendBackData_cases hv with
    ⟨_, _, -, -, heq⟩ | ⟨d, rest, hfront, hnot, hsends, heq⟩ | ⟨-, heq⟩
  · rw [heq, resetConnection_backQueue]
    exact .inl hmem
  · rw [hqueue] at hfront
    cases hkept : s.mBackQueue.dropWhile (popsSegment s.mLocalNext) with
    | nil =>
      rw [hkept] at hfront
      cases hfront
      rw [hnext, newSegment_mSeq] at hnot
      have hsize : (s.newSegment ACK []).size = 40 := newSegment_size ACK [] s
      have hfits := hsends.1
      rw [hsize, hlimit] at hfits
      exact .inr ⟨frontAt_none.mpr hkept, by bv_omega, hfits⟩
    | cons d' rest' =>
      rw [hkept] at hfront
      cases hfront
      rw [heq, (resumeIfRoom_inert _).backQueue]
      exact .inl (List.mem_cons_of_mem _ (List.mem_append_right _ List.mem_cons_self))
  · rw [heq, (resumeIfRoom_inert _).backQueue]
    exact .inl hmem

theorem pushThenFlush_stays (hsound : s.BackSound) (hmay : s.MayFinish)
    (hle : s.mLocalNext ≤ s.mLocalSeq) (h : s.SparesAnswer s.mLocalNext s.sendLimit) :
    (pushInBackQueue ACK [] s).2.flushBackQueue.mBackQueue ≠ [] := by
  have hframe := pushInBackQueue_frame ACK [] s
  have hsound' := pushACK_sound hsound
  rcases pushACK_waits hsound hle with hwaits | ⟨hnone, hseq, hfits⟩
  · refine flush_keeps hsound' hwaits ?_
    rw [hframe.localNext]
    exact newSegment_stays hle
  · have hfinishes := h hnone
    rw [if_pos hle] at hfinishes
    have hfinished := (hfinishes hseq).resolve_right (by bv_omega)
    have hempty : ([] : Bytes).length ≤ TCP_IP_PAYLOAD_SIZE := Nat.zero_le _
    rcases push_moves hsound hle hempty with ⟨⟨d, rest, hfront, hahead⟩, -⟩ | ⟨-, hstate, hseq'⟩
    · -- the ACK is not ahead of the left edge
      rw [frontAt_none.mp hnone] at hfront
      cases hfront
      rw [newSegment_mSeq] at hahead
      bv_omega
    · refine flush_finishes hsound' (hframe.remoteFinished ▸ hfinished) ?_ ?_
      · unfold MayFinish
        rw [hstate]
        exact hmay
      · rw [hframe.localNext, hseq', List.length_nil,
          show s.mLocalSeq + BitVec.ofNat 32 0 = s.mLocalSeq from BitVec.add_zero _]
        exact hle

theorem pushThenFlush_leaves (hsound : s.BackSound) (hmay : s.MayFinish)
    (h : s.SparesAnswer s.mLocalNext s.sendLimit) :
    Leaves s (pushInBackQueue ACK [] s).2.flushBackQueue := by
  by_cases hle : s.mLocalNext ≤ s.mLocalSeq
  · exact fun hempty => absurd hempty (pushThenFlush_stays hsound hmay hle h)
  · have hspares : (s.emit [.refused ACK]).Spares s.mLocalNext False := by
      intro hnone
      have hwritten := h hnone
      rw [if_neg hle] at hwritten
      exact .inl hwritten
    rw [push_refused_eq hle]
    intro hempty
    obtain ⟨hpushes, hwritten⟩ := flush_leaves (s := s.emit [.refused ACK]) hsound
      (fun hnone => (hspares hnone).imp_right fun hfalse => hfalse.1.elim) hempty
    exact ⟨hpushes.trans (refused_pushes ACK s), hwritten⟩

/-! ## One packet -/

-- What the session has accepted from `s` to `t` it has told, and nothing it has told is lost.
structure Tells (s t : TCPSession τ) : Prop where
  le : s.mRemoteNext ≤ t.mRemoteNext
  pushes : ∃ ds, t.pushes = s.pushes ++ ds ∧ ∀ d ∈ ds, d.mAck = t.mRemoteNext
  told : t.pushes = s.pushes → t.mRemoteNext = s.mRemoteNext
  leaves : Leaves s t

omit [ITunnel τ] in
theorem Tells.of_feeds (h : Feeds s t) (hleaves : Leaves s t) : Tells s t := by
  obtain ⟨hnext, ds, hds, hall⟩ := h
  exact ⟨hnext ▸ BitVec.le_refl _, ⟨ds, hds, fun d hd => (hall d hd).trans hnext.symm⟩,
    fun _ => hnext, hleaves⟩

-- The number moves, and a segment that tells of it waits in the queue.
omit [ITunnel τ] in
theorem Tells.of_moved (hsame : u.pushes = s.pushes) (hle : s.mRemoteNext ≤ u.mRemoteNext)
    (h : Feeds u t) (hpushed : t.pushes ≠ s.pushes) (hstays : t.mBackQueue ≠ []) : Tells s t := by
  obtain ⟨hnext, ds, hds, hall⟩ := h
  refine ⟨hnext ▸ hle, ⟨ds, ?_, fun d hd => (hall d hd).trans hnext.symm⟩,
    fun heq => absurd heq hpushed, fun hempty => absurd hempty hstays⟩
  rw [← hsame]
  exact hds

omit [ITunnel τ] in
theorem Tells.before (h : Tells u t) (hnext : u.mRemoteNext = s.mRemoteNext)
    (hpushes : u.pushes = s.pushes) (hqueue : u.mBackQueue = s.mBackQueue) : Tells s t := by
  obtain ⟨hle, hds, htold, hleaves⟩ := h
  rw [hnext] at hle htold
  rw [hpushes] at hds htold
  refine ⟨hle, hds, htold, fun hempty => ?_⟩
  obtain ⟨heq, hwritten⟩ := hleaves hempty
  unfold LastWritten at hwritten ⊢
  rw [hqueue] at hwritten
  exact ⟨heq.trans hpushes, hwritten⟩

omit [ITunnel τ] in
theorem Tells.after (h : Tells s t) (hnext : u.mRemoteNext = t.mRemoteNext)
    (hpushes : u.pushes = t.pushes) (hqueue : u.mBackQueue = t.mBackQueue) : Tells s u := by
  obtain ⟨hle, hds, htold, hleaves⟩ := h
  constructor
  · rw [hnext]
    exact hle
  · rw [hpushes, hnext]
    exact hds
  · rw [hpushes, hnext]
    exact htold
  · unfold Leaves
    rw [hpushes, hqueue]
    exact hleaves

theorem flush_tells (hsound : s.BackSound)
    (h : s.Spares s.mLocalNext (s.mRemoteFinished ∧ s.MayFinish)) : Tells s s.flushBackQueue :=
  .of_feeds (feeds_relation.flush s) (flush_leaves hsound h)

theorem uploaded_le {ip : Packet} (h : s.mRemoteNext.toNat + ip.payload.length < 2 ^ 32) :
    s.mRemoteNext ≤ (s.uploaded ip).mRemoteNext := by
  show s.mRemoteNext ≤ s.mRemoteNext + BitVec.ofNat 32 ip.payload.length
  bv_omega

theorem pushes_ne (ds : List TCPDatagram) (d : TCPDatagram) : ds ++ [d] ≠ ds :=
  fun heq => absurd (congrArg List.length heq) (by simp)

theorem acceptPayload_tells {ip : Packet} (hsound : s.BackSound) (hmay : s.MayFinish)
    (hqueues : s.Queues ip → s.mRemoteNext.toNat + ip.payload.length < 2 ^ 32 ∧
      s.mLocalNext ≤ s.mLocalSeq)
    (hanswer : ip.payload ≠ [] → s.Repeated ip → s.SparesAnswer s.mLocalNext s.sendLimit)
    (hspares : ¬ s.Queues ip → ¬ (ip.payload ≠ [] ∧ s.Repeated ip) →
      s.Spares s.mLocalNext (s.mRemoteFinished ∧ s.MayFinish)) :
    Tells s (acceptPayload ip s) := by
  rcases acceptPayload_cases ip s with ⟨hnew, heq⟩ | ⟨hne, hold, heq⟩ | ⟨⟨hnew, hold⟩, heq⟩ <;> rw [heq]
  · obtain ⟨hfits, hle⟩ := hqueues hnew
    have hempty : ([] : Bytes).length ≤ TCP_IP_PAYLOAD_SIZE := Nat.zero_le _
    refine .of_moved (u := s.uploaded ip) rfl (uploaded_le hfits) (feeds_relation.push ACK _) ?_
      (push_stays (s := s.uploaded ip) hsound hle hempty)
    rw [push_pushes (s := s.uploaded ip) hle]
    exact pushes_ne _ _
  · exact .of_feeds ((feeds_relation.push ACK s).trans (feeds_relation.flush _))
      (pushThenFlush_leaves hsound hmay (hanswer hne hold))
  · exact flush_tells hsound (hspares hnew hold)

-- The payload of the handshake is told by a FIN only.
theorem acceptFirstPayload_tells {ip : Packet} (hsound : s.BackSound) (hmay : s.MayFinish)
    (hqueues : s.Queues ip → s.mRemoteNext.toNat + ip.payload.length < 2 ^ 32 ∧
      s.mLocalNext ≤ s.mLocalSeq ∧ s.mRemoteFinished ∧ s.frontAt s.mLocalNext = none)
    (hanswer : ip.payload ≠ [] → s.Repeated ip → s.SparesAnswer s.mLocalNext s.sendLimit)
    (hspares : ¬ s.Queues ip → ¬ (ip.payload ≠ [] ∧ s.Repeated ip) →
      s.Spares s.mLocalNext (s.mRemoteFinished ∧ s.MayFinish)) :
    Tells s (acceptFirstPayload ip s) := by
  rcases acceptFirstPayload_cases ip s with
    ⟨hnew, heq⟩ | ⟨hne, hold, heq⟩ | ⟨⟨hnew, hold⟩, heq⟩ <;> rw [heq]
  · obtain ⟨hfits, hle, hfinished, hnone⟩ := hqueues hnew
    let v := s.uploaded ip
    have hfin : v.popAcked.FinDue := by
      refine ⟨?_, ?_, popAcked_empty.mpr hnone⟩
      · rw [(popAcked_frame v).remoteFinished]
        exact hfinished
      · rw [popAcked_mState]
        exact hmay
    refine .of_moved (u := v) rfl (uploaded_le hfits) (feeds_relation.flush v) ?_
      (flush_finishes (s := v) hsound hfinished hmay hle)
    rw [flushBackQueue_fin (s := v) hfin hle, leave, switchState_pushes, sendBackData_pushes,
      enqueueBack_pushes, popAcked_pushes]
    exact pushes_ne _ _
  · exact .of_feeds ((feeds_relation.push ACK s).trans (feeds_relation.flush _))
      (pushThenFlush_leaves hsound hmay (hanswer hne hold))
  · exact flush_tells hsound (hspares hnew hold)

theorem switchState_established (h : s.mState = .synRcved) :
    ∃ trace, s.switchState .established = { s with mState := .established, trace := trace } := by
  unfold switchState
  rw [if_neg (by rw [h]; decide)]
  exact ⟨_, rfl⟩

theorem onReceiveACK_tells {ip : Packet} (hsound : s.BackSound) (h : s.AnswersAck ip)
    (hstep : onReceiveACK ip (s.acknowledged ip) = some t) : Tells (s.acknowledged ip) t := by
  let u := s.acknowledged ip
  have hu : u.BackSound := hsound
  have hqueues : u.Queues ip ↔ s.Queues ip := Iff.rfl
  unfold AnswersAck at h
  -- a session that has left ESTABLISHED and CLOSE_WAIT pushes nothing
  have hmoved {state : TCPState} (hold : ¬ s.Receiving) (hmay : ¬ s.MayFinish)
      (hstate : state ≠ .established ∧ state ≠ .closeWait) :
      Tells u (u.switchState state).flushBackQueue := by
    rw [if_neg fun hnew => hold hnew.1, if_neg fun hrepeats => hold hrepeats.1] at h
    have hflush : Tells (u.switchState state) (u.switchState state).flushBackQueue := by
      refine flush_tells (switchState_sound hu) fun hnone => ?_
      have hnone' : s.frontAt (s.relativeAck ip) = none := by
        have hframe := switchState_frame state u
        unfold frontAt at hnone ⊢
        rw [switchState_backQueue, hframe.localNext] at hnone
        exact hnone
      rcases h hnone' with hwritten | ⟨⟨-, hmay'⟩, -⟩
      · refine .inl ?_
        unfold LastWritten
        rw [switchState_backQueue]
        exact hwritten
      · exact absurd (hmay'.resolve_left fun hsyn => hold (.inl hsyn)) hmay
    exact hflush.before (switchState_frame state u).remoteNext (switchState_pushes state u)
      (switchState_backQueue state u)
  have hstate : u.mState = s.mState := rfl
  rcases onReceiveACK_cases hstep with ⟨hsyn, rfl⟩ | ⟨hwait, rfl⟩ | ⟨hlast, rfl⟩ | ⟨hclosing, rfl⟩ |
    ⟨hopen, rfl⟩ | ⟨hne₁, -, -, -, hne₂, rfl⟩
  · obtain ⟨trace, heq⟩ := switchState_established (s := u) hsyn
    have hreceiving : s.Receiving := .inl hsyn
    have htells : Tells (u.switchState .established)
        (acceptFirstPayload ip (u.switchState .established)) := by
      rw [heq]
      refine acceptFirstPayload_tells hu (.inl rfl) (fun hnew => ?_) (fun hne hold => ?_)
        fun hnew hold => ?_
      · rw [if_pos ⟨hreceiving, hnew⟩] at h
        obtain ⟨hfits, hle, hfinishes⟩ := h
        have hsyn' : s.mState = .synRcved := hsyn
        obtain ⟨hfinished, hnone⟩ := hfinishes.resolve_left (by rw [hsyn']; decide)
        exact ⟨hfits, hle, hfinished, hnone⟩
      · rw [if_neg fun hnew => hnew.2.2.1 hold, if_pos ⟨hreceiving, hne, hold⟩] at h
        exact h
      · rw [if_neg fun hnew' => hnew hnew'.2, if_neg fun hold' => hold hold'.2] at h
        exact fun hnone => (h hnone).imp_right fun hfin => ⟨⟨hfin.1.1, .inl rfl⟩, hfin.2⟩
    exact htells.before (switchState_frame .established u).remoteNext (switchState_pushes _ u)
      (switchState_backQueue _ u)
  · exact hmoved (by rw [Receiving, ← hstate, hwait]; decide) (by rw [MayFinish, ← hstate, hwait]; decide)
      (by decide)
  · exact hmoved (by rw [Receiving, ← hstate, hlast]; decide) (by rw [MayFinish, ← hstate, hlast]; decide)
      (by decide)
  · exact hmoved (by rw [Receiving, ← hstate, hclosing]; decide)
      (by rw [MayFinish, ← hstate, hclosing]; decide) (by decide)
  · have hreceiving : s.Receiving := .inr hopen
    refine acceptPayload_tells hu (.inl hopen) (fun hnew => ?_) (fun hne hold => ?_) fun hnew hold => ?_
    · rw [if_pos ⟨hreceiving, hnew⟩] at h
      exact ⟨h.1, h.2.1⟩
    · rw [if_neg fun hnew => hnew.2.2.1 hold, if_pos ⟨hreceiving, hne, hold⟩] at h
      exact h
    · rw [if_neg fun hnew' => hnew hnew'.2, if_neg fun hold' => hold hold'.2] at h
      exact fun hnone => (h hnone).imp_right fun hfin => ⟨⟨hfin.1.1, .inl hopen⟩, hfin.2⟩
  · have hreceiving : ¬ s.Receiving := fun hstate' => hstate'.elim hne₁ hne₂
    rw [if_neg fun hnew => hreceiving hnew.1, if_neg fun hrepeats => hreceiving hrepeats.1] at h
    refine flush_tells hu fun hnone => (h hnone).imp_right fun hfin => ⟨⟨hfin.1.1, ?_⟩, hfin.2⟩
    exact hfin.1.2.resolve_left hne₁

theorem onReceiveFIN_tells {ip : Packet} (hsound : s.BackSound)
    (hle : (s.finNumbered ip).mLocalNext ≤ s.mLocalSeq)
    (hnext : s.mRemoteNext ≤ (s.finNumbered ip).mRemoteNext) : Tells s (onReceiveFIN ip s) := by
  let u := s.finNumbered ip
  have hempty : ([] : Bytes).length ≤ TCP_IP_PAYLOAD_SIZE := Nat.zero_le _
  have hpushed : (pushInBackQueue ACK [] u).2.pushes = s.pushes ++ [u.newSegment ACK []] :=
    push_pushes (s := u) hle
  have hpush : Tells s (pushInBackQueue ACK [] u).2 := by
    refine .of_moved (u := u) rfl hnext (feeds_relation.push ACK u) ?_ (push_stays (s := u) hsound hle hempty)
    rw [hpushed]
    exact pushes_ne _ _
  by_cases hmoves : s.FinMoves
  · rw [onReceiveFIN_moves hle hmoves]
    exact hpush.after (switchState_frame _ _).remoteNext (switchState_pushes _ _)
      (switchState_backQueue _ _)
  · rw [onReceiveFIN_stays hmoves]
    exact hpush

theorem accepted_tells {ip : Packet} (hsound : s.BackSound) (h : s.AnswersPacket ip)
    (haccepted : Accepted ip s t) : Tells s t := by
  unfold AnswersPacket at h
  cases haccepted with
  | syn hsyn =>
    rw [if_pos hsyn] at h
    exact flush_tells hsound h
  | fin hsyn hfin =>
    rw [if_neg (by rw [hsyn]; decide), if_pos hfin] at h
    exact onReceiveFIN_tells hsound h.1 h.2
  | rst =>
    exact .of_feeds (feeds_relation.switch .closed s)
      (.of_same (switchState_backQueue _ s) (switchState_pushes _ s))
  | stale tunnel => exact .of_feeds (.of_same rfl rfl) (.of_same rfl rfl)
  | ack hplain hle hstep =>
    rw [if_neg (by rw [hplain.1]; decide), if_neg (by rw [hplain.2.1]; decide),
      if_neg (by rw [hplain.2.2]; simp; bv_omega)] at h
    exact (onReceiveACK_tells hsound h hstep).before rfl rfl rfl

/-! ## One step -/

/-- What a step has to find, so that nothing accepted stays untold. -/
def Answers (s : TCPSession τ) : Event τ → Prop
  | .accept ip => s.AnswersPacket ip
  | .tunnelDataBack data => data = [] → s.Spares s.mLocalNext s.MayFinish
  | .tunnelDisconnected _ => s.MayFinish → s.Spares s.mLocalNext True
  | .tunnelWritable =>
      (drain s.mForwardQueue s.mTunnel).failed.isSome → s.MayFinish → s.Spares s.mLocalNext True
  | _ => True

instance (s : TCPSession τ) : ∀ e : Event τ, Decidable (s.Answers e)
  | .accept ip => inferInstanceAs (Decidable (s.AnswersPacket ip))
  | .tunnelDataBack _ => inferInstanceAs (Decidable (_ → _))
  | .tunnelDisconnected _ => inferInstanceAs (Decidable (_ → _))
  | .tunnelWritable => inferInstanceAs (Decidable (_ → _ → _))
  | .tunnelConnected => inferInstanceAs (Decidable True)
  | .written _ _ => inferInstanceAs (Decidable True)
  | .environment _ _ _ => inferInstanceAs (Decidable True)

theorem onRemoteFinished_tells (hsound : s.BackSound) (h : s.Spares s.mLocalNext s.MayFinish) :
    Tells s s.onRemoteFinished := by
  have hflush : Tells { s with mRemoteFinished := true } s.onRemoteFinished :=
    flush_tells hsound fun hnone => (h hnone).imp_right fun hfin => ⟨⟨rfl, hfin.1⟩, hfin.2⟩
  exact hflush.before rfl rfl rfl

theorem onTunnelDisconnected_tells (hsound : s.BackSound) (reason : U8)
    (h : s.MayFinish → s.Spares s.mLocalNext True) : Tells s (s.onTunnelDisconnected reason) := by
  have hfinished (hmay : s.MayFinish) : Tells s s.onRemoteFinished :=
    onRemoteFinished_tells hsound fun hnone => (h hmay hnone).imp_right fun hfin => ⟨hmay, hfin.2⟩
  have hswitch (state : TCPState) : Tells s (s.switchState state) :=
    .of_feeds (feeds_relation.switch state s)
      (.of_same (switchState_backQueue _ s) (switchState_pushes _ s))
  unfold TCPSession.onTunnelDisconnected
  split
  next hstate => exact hfinished (.inr hstate)
  next hstate => exact hfinished (.inl hstate)
  next => exact hswitch _
  next => exact hswitch _
  next => exact hswitch _
  next => exact hswitch _
  next =>
    refine .of_feeds (feeds_relation.reset s) (.of_same (resetConnection_backQueue s) ?_)
    rw [resetConnection_eq, switchState_pushes, rstSent_pushes]

-- Each chunk that is pushed stays until the next one.
theorem relayLoop_stays (fuel : Nat) {data : Bytes} (hsound : s.BackSound)
    (hempty : (relayLoop fuel data s).2.mBackQueue = []) :
    s.mBackQueue = [] ∧ (relayLoop fuel data s).2.pushes = s.pushes := by
  induction fuel generalizing s data with
  | zero => exact ⟨hempty, rfl⟩
  | succ fuel ih =>
    have htake : (data.take TCP_IP_PAYLOAD_SIZE).length ≤ TCP_IP_PAYLOAD_SIZE :=
      List.length_take_le _ _
    unfold TCPSession.relayLoop at hempty ⊢
    split at hempty
    next hdata =>
      rw [if_pos hdata]
      exact ⟨hempty, rfl⟩
    next hdata =>
      rw [if_neg hdata]
      by_cases hle : s.mLocalNext ≤ s.mLocalSeq
      · have hstays := push_stays hsound hle htake
        have hrest := push_sound hsound htake
        rw [pushInBackQueue_of_le hle] at hempty hstays hrest
        exact absurd (ih hrest hempty).1 hstays
      · rw [pushInBackQueue_refused (by bv_omega)] at hempty ⊢
        exact ⟨hempty, refused_pushes ACK s⟩

theorem onTunnelDataBack_tells (hsound : s.BackSound) {data : Bytes}
    (h : data = [] → s.Spares s.mLocalNext s.MayFinish) : Tells s (s.onTunnelDataBack data) := by
  unfold TCPSession.onTunnelDataBack
  by_cases hdata : data = []
  · rw [if_pos hdata]
    have hpaused : Tells { s with mTunnel := ITunnel.pauseReceiveData s.mTunnel }
        (TCPSession.onRemoteFinished { s with mTunnel := ITunnel.pauseReceiveData s.mTunnel }) :=
      onRemoteFinished_tells hsound (h hdata)
    exact (hpaused.before (s := s) rfl rfl rfl).after rfl rfl rfl
  · rw [if_neg hdata]
    have hfeeds := feeds_relation.relayLoop (enqueueBack_feeds ACK) data.length data s
    have hrelayed : Tells s (relayLoop data.length data s).2 := by
      refine .of_feeds hfeeds fun hempty => ?_
      obtain ⟨hnone, hpushes⟩ := relayLoop_stays data.length hsound hempty
      refine ⟨hpushes, ?_⟩
      unfold LastWritten
      rw [hnone]
      simp
    have hcounted := countRecv_inert (relayLoop data.length data s).1 (relayLoop data.length data s).2
    have hpaused := pauseIfFull_inert
      ((relayLoop data.length data s).2.countRecv (relayLoop data.length data s).1)
    have hinert := (hcounted.trans hpaused).trans (noteTime_inert _)
    refine hrelayed.after ?_ hinert.pushes hinert.backQueue
    show (pauseIfFull _).mRemoteNext = _
    unfold pauseIfFull countRecv
    split <;> split <;> rfl

theorem onTunnelWritable_tells (hsound : s.BackSound)
    (h : (drain s.mForwardQueue s.mTunnel).failed.isSome → s.MayFinish →
      s.Spares s.mLocalNext True) : Tells s s.onTunnelWritable := by
  have hcount (n : Nat) (t : TCPSession τ) : (t.countSent n).mRemoteNext = t.mRemoteNext := by
    unfold countSent
    split <;> rfl
  have hinert (hinert : Inert s s.onTunnelWritable)
      (hnext : s.onTunnelWritable.mRemoteNext = s.mRemoteNext) : Tells s s.onTunnelWritable :=
    .of_feeds (.of_same hnext hinert.pushes) (.of_same hinert.backQueue hinert.pushes)
  unfold TCPSession.onTunnelWritable at hinert ⊢
  split
  next hnone =>
    rw [if_pos hnone] at hinert
    exact hinert (.of_eq rfl rfl rfl rfl rfl rfl) rfl
  next hsome =>
    rw [if_neg hsome] at hinert
    simp only at hinert ⊢
    split
    next reason hfailed =>
      have hdisconnected : Tells s.drained (s.drained.onTunnelDisconnected reason) :=
        onTunnelDisconnected_tells (s := s.drained) hsound reason (h (by rw [hfailed]; rfl))
      have hdrained := drained_inert s
      have hsent := countSent_inert (drain s.mForwardQueue s.mTunnel).taken.length
        (s.drained.onTunnelDisconnected reason)
      have hbegun : Tells s (s.drained.onTunnelDisconnected reason) :=
        hdisconnected.before rfl hdrained.pushes hdrained.backQueue
      exact hbegun.after (hcount _ _) hsent.pushes hsent.backQueue
    next hfailed =>
      rw [hfailed] at hinert
      exact hinert ((drained_inert s).trans (countSent_inert _ _)) (hcount _ _)

theorem step_tells {e : Event τ} (hopened : s.Opened) (h : s.Answers e)
    (hown : ∀ i n, e ≠ .written i n) (hstep : s.step e = some t) : Tells s t := by
  obtain ⟨hsound, hlisten⟩ := hopened
  cases e with
  | accept ip =>
    obtain ⟨v, haccepted, rfl⟩ := accept_accepted hlisten hstep
    have hinert := countAccepted_inert ip s
    have hsound' : (s.countAccepted ip).BackSound := by
      unfold BackSound
      rw [hinert.backQueue]
      exact hsound
    have hanswers : (s.countAccepted ip).AnswersPacket ip := by
      obtain ⟨total, trace, heq⟩ := countAccepted_eq ip s
      rw [heq]
      exact h
    have htells := accepted_tells hsound' hanswers haccepted
    exact (htells.before (countAccepted_frame ip s).remoteNext hinert.pushes hinert.backQueue).after
      rfl rfl rfl
  | tunnelConnected =>
    cases hstep
    exact .of_feeds (.of_same rfl rfl) (.of_same rfl rfl)
  | tunnelDisconnected reason =>
    cases hstep
    exact onTunnelDisconnected_tells hsound reason h
  | tunnelWritable =>
    cases hstep
    exact onTunnelWritable_tells hsound h
  | tunnelDataBack data =>
    cases hstep
    exact onTunnelDataBack_tells hsound h
  | written i n => exact absurd rfl (hown i n)
  | environment tunnel now rand =>
    cases hstep
    exact .of_feeds (.of_same rfl rfl) (.of_same rfl rfl)

end TCPSession
end NetCore
