import NetCore.TCPSession.Flush

/-!
# Properties of the back queue

A `BackInvariant` survives each part of a flush: popping, handing the front over, a reset for
disorder, and whatever touches neither the queue nor its counters (`Inert`).  It then survives the
flush and the push that are made of these parts.  The first instance is `BackSound`: every queued
segment has bytes to send, now and after it has been written.
-/

namespace NetCore

-- A point that tells nothing about the back queue or the state.
def TracePoint.inert : TracePoint → Bool
  | .dispatched _ _ | .captured _ | .taken _ => true
  | _ => false

def TracePoint.releasing : TracePoint → Bool
  | .released _ => true
  | _ => false

def TracePoint.sending : TracePoint → Bool
  | .writePackage _ | .dispatched _ _ => true
  | _ => false

def TracePoint.switching : TracePoint → Bool
  | .switched _ _ | .dispatched _ _ => true
  | _ => false

def TracePoint.resetting : TracePoint → Bool
  | .reset => true
  | p => p.sending || p.switching

def TracePoint.refusing : TracePoint → Bool
  | .refused _ => true
  | _ => false

-- A queued segment can be handed over, again and again.
structure TCPDatagram.Sound (d : TCPDatagram) : Prop where
  size_pos : 0 < d.size
  capacity_lt : d.capacity < 2 ^ 32
  notAborted : d.isAbort = false
  mark_lt : d.isBuffering → d.mMarkPos < d.mMarkLimit

namespace TCPSession

variable {τ : Type}

/-- From `s` to `s'` only points of one kind have been recorded. -/
def Records (kind : TracePoint → Bool) (s s' : TCPSession τ) : Prop :=
  ∃ points, s'.trace = s.trace ++ points ∧ ∀ p ∈ points, kind p

theorem Records.of_eq {kind : TracePoint → Bool} {s s' : TCPSession τ} (h : s'.trace = s.trace) :
    Records kind s s' := ⟨[], by rw [h, List.append_nil], by simp⟩

theorem emit_records {kind : TracePoint → Bool} {points : List TracePoint}
    (h : ∀ p ∈ points, kind p) (s : TCPSession τ) : Records kind s (s.emit points) :=
  ⟨points, rfl, h⟩

theorem Records.trans {kind : TracePoint → Bool} {s t u : TCPSession τ} (h : Records kind s t)
    (h' : Records kind t u) : Records kind s u := by
  obtain ⟨points, heq, hpoints⟩ := h
  obtain ⟨points', heq', hpoints'⟩ := h'
  refine ⟨points ++ points', by rw [heq', heq, List.append_assoc], ?_⟩
  exact List.forall_mem_append.mpr ⟨hpoints, hpoints'⟩

theorem Records.mono {kind kind' : TracePoint → Bool} {s s' : TCPSession τ} (h : Records kind s s')
    (hkind : ∀ p, kind p → kind' p) : Records kind' s s' := by
  obtain ⟨points, heq, hpoints⟩ := h
  exact ⟨points, heq, fun p hp => hkind p (hpoints p hp)⟩

-- A point of another kind is not among the new ones.
theorem Records.mem_iff {kind : TracePoint → Bool} {s s' : TCPSession τ} {p : TracePoint}
    (h : Records kind s s') (hp : kind p = false) : p ∈ s'.trace ↔ p ∈ s.trace := by
  obtain ⟨points, heq, hpoints⟩ := h
  rw [heq, List.mem_append]
  refine ⟨fun hmem => hmem.resolve_right fun hnew => ?_, .inl⟩
  rw [hpoints p hnew] at hp
  exact Bool.false_ne_true hp.symm

theorem Records.mem_of_mem {kind : TracePoint → Bool} {s s' : TCPSession τ} {p : TracePoint}
    (h : Records kind s s') (hp : p ∈ s.trace) : p ∈ s'.trace := by
  obtain ⟨points, heq, -⟩ := h
  rw [heq]
  exact List.mem_append_left points hp

-- Nothing has happened to the back queue, to its counters and to the state.
structure Inert (s s' : TCPSession τ) : Prop where
  backQueue : s'.mBackQueue = s.mBackQueue
  localSeq : s'.mLocalSeq = s.mLocalSeq
  localNext : s'.mLocalNext = s.mLocalNext
  state : s'.mState = s.mState
  remoteFinished : s'.mRemoteFinished = s.mRemoteFinished
  trace : Records TracePoint.inert s s'

theorem Inert.of_eq {s s' : TCPSession τ} (hqueue : s'.mBackQueue = s.mBackQueue)
    (hseq : s'.mLocalSeq = s.mLocalSeq) (hnext : s'.mLocalNext = s.mLocalNext)
    (hstate : s'.mState = s.mState) (hfinished : s'.mRemoteFinished = s.mRemoteFinished)
    (htrace : s'.trace = s.trace) : Inert s s' :=
  ⟨hqueue, hseq, hnext, hstate, hfinished, .of_eq htrace⟩

theorem Inert.refl (s : TCPSession τ) : Inert s s := .of_eq rfl rfl rfl rfl rfl rfl

theorem Inert.trans {s t u : TCPSession τ} (h : Inert s t) (h' : Inert t u) : Inert s u where
  backQueue := h'.backQueue.trans h.backQueue
  localSeq := h'.localSeq.trans h.localSeq
  localNext := h'.localNext.trans h.localNext
  state := h'.state.trans h.state
  remoteFinished := h'.remoteFinished.trans h.remoteFinished
  trace := h.trace.trans h'.trace

theorem emit_inert {points : List TracePoint} (h : ∀ p ∈ points, p.inert) (s : TCPSession τ) :
    Inert s (s.emit points) :=
  ⟨rfl, rfl, rfl, rfl, rfl, points, rfl, h⟩

def BackSound (s : TCPSession τ) : Prop := ∀ d ∈ s.mBackQueue, d.Sound

theorem popAcked_records (s : TCPSession τ) : Records TracePoint.releasing s s.popAcked := by
  obtain ⟨_, _, points, heq, hpoints⟩ := s.popAcked_eq
  rw [heq]
  refine ⟨points, rfl, fun p hp => ?_⟩
  obtain ⟨d, rfl⟩ := hpoints p hp
  rfl

theorem sentFront_records (d : TCPDatagram) (rest : List TCPDatagram) (s : TCPSession τ) :
    Records TracePoint.sending s (s.sentFront d rest) :=
  ⟨packagePoints (handedOver d) s, rfl, by simp [packagePoints, TracePoint.sending]⟩

theorem handedOver_sound {d : TCPDatagram} (h : d.Sound) : (handedOver d).Sound where
  size_pos := h.size_pos
  capacity_lt := h.capacity_lt
  notAborted := h.notAborted
  mark_lt := fun _ => by
    have hsize := h.size_pos
    unfold Segment.size at hsize
    show d.mPos < d.mLimit
    omega

theorem routerWrote_sound (n : Nat) {d : TCPDatagram} (h : d.Sound) : (routerWrote n d).Sound := by
  have hmarks : (d.consume n).mMarkPos = d.mMarkPos ∧ (d.consume n).mMarkLimit = d.mMarkLimit := by
    unfold Segment.consume
    split <;> exact ⟨rfl, rfl⟩
  have hcapacity : (d.consume n).capacity < 2 ^ 32 := by
    rw [Segment.capacity_consume]
    exact h.capacity_lt
  unfold routerWrote
  split
  next hheld =>
    have hmark := h.mark_lt hheld
    simp only
    split
    next hdone =>
      refine ⟨?_, hcapacity, h.notAborted, fun hheld => absurd hheld Bool.false_ne_true⟩
      show 0 < (d.consume n).mMarkLimit - (d.consume n).mMarkPos
      omega
    next hleft =>
      refine ⟨Nat.lt_of_not_le hleft, hcapacity, h.notAborted, fun _ => ?_⟩
      show (d.consume n).mMarkPos < (d.consume n).mMarkLimit
      omega
  next => exact h

variable [ITunnel τ]

theorem newSegment_sound (flag : U8) {data : Bytes} (s : TCPSession τ)
    (hdata : data.length ≤ TCP_IP_PAYLOAD_SIZE) : (s.newSegment flag data).Sound where
  size_pos := by
    rw [newSegment_size]
    omega
  capacity_lt := by
    have hoptions : (s.updateWindowSize.packageOptions flag).length ≤ 10 := by
      unfold packageOptions
      split
      · exact Nat.le_refl 10
      · exact Nat.zero_le 10
    unfold TCP_IP_PAYLOAD_SIZE at hdata
    show (s.updateWindowSize.packageBytes flag data).length < 2 ^ 32
    rw [length_packageBytes]
    omega
  notAborted := rfl
  mark_lt := fun hheld => absurd hheld Bool.false_ne_true

/-! ## The parts of a flush -/

theorem switchState_backQueue (state : TCPState) (s : TCPSession τ) :
    (s.switchState state).mBackQueue = s.mBackQueue := by
  unfold switchState
  split
  · rfl
  · split <;> rfl

theorem switchState_sound {state : TCPState} {s : TCPSession τ} (h : s.BackSound) :
    (s.switchState state).BackSound := by
  unfold BackSound
  rw [switchState_backQueue]
  exact h

theorem switchState_mState (state : TCPState) (s : TCPSession τ) :
    (s.switchState state).mState = state := by
  unfold switchState
  split
  next h => exact h
  next => split <;> rfl

theorem switchState_mLocalSeq (state : TCPState) (s : TCPSession τ) :
    (s.switchState state).mLocalSeq = s.mLocalSeq := by
  unfold switchState
  split
  · rfl
  · split <;> rfl

theorem switchState_trace {state : TCPState} {s : TCPSession τ} (h : s.mState ≠ state) :
    ∃ info, (s.switchState state).trace =
      s.trace ++ [.switched s.mState state, .dispatched .connState info] := by
  unfold switchState
  rw [if_neg h]
  split <;> exact ⟨_, rfl⟩

theorem resetConnection_mState (s : TCPSession τ) : s.resetConnection.mState = .closed := by
  rw [resetConnection_eq, switchState_mState]

theorem switchState_records (state : TCPState) (s : TCPSession τ) :
    Records TracePoint.switching s (s.switchState state) := by
  by_cases h : s.mState = state
  · rw [switchState, if_pos h]
    exact .of_eq rfl
  · obtain ⟨info, heq⟩ := switchState_trace h
    exact ⟨_, heq, by simp [TracePoint.switching]⟩

theorem resetConnection_records (s : TCPSession τ) :
    Records TracePoint.resetting s s.resetConnection := by
  have hsent : Records TracePoint.resetting s s.rstSent := by
    refine Records.trans ?_ (emit_records (by simp [TracePoint.resetting]) _)
    refine Records.trans ?_ (emit_records (by simp [packagePoints, TracePoint.resetting,
      TracePoint.sending]) _)
    exact .of_eq rfl
  rw [resetConnection_eq]
  refine hsent.trans ((switchState_records _ _).mono ?_)
  intro p hp
  cases p <;> first | rfl | cases hp

theorem resetConnection_backQueue (s : TCPSession τ) :
    s.resetConnection.mBackQueue = s.mBackQueue := by
  rw [resetConnection_eq, switchState_backQueue]
  rfl

theorem resumeIfRoom_inert (s : TCPSession τ) : Inert s s.resumeIfRoom := by
  unfold resumeIfRoom
  split <;> exact .of_eq rfl rfl rfl rfl rfl rfl

theorem resumeIfRoom_trace (s : TCPSession τ) : s.resumeIfRoom.trace = s.trace := by
  unfold resumeIfRoom
  split <;> rfl

-- What the send loop can do to a sound queue.
theorem sendBackData_cases {s : TCPSession τ} (hsound : s.BackSound) :
    (∃ d rest, s.mBackQueue = d :: rest ∧ s.mLocalNext < d.mSeq ∧
      s.sendBackData = s.resetConnection) ∨
    (∃ d rest, s.mBackQueue = d :: rest ∧ ¬ s.mLocalNext < d.mSeq ∧ s.SendsFront d ∧
      s.sendBackData = (s.sentFront d rest).resumeIfRoom) ∨
    ((∀ d rest, s.mBackQueue = d :: rest → ¬ s.mLocalNext < d.mSeq ∧ ¬ s.SendsFront d) ∧
      s.sendBackData = s.resumeIfRoom) := by
  cases hqueue : s.mBackQueue with
  | nil => exact .inr (.inr ⟨by simp, sendBackData_nil hqueue⟩)
  | cons d rest =>
    have hd : d.Sound := hsound d (by rw [hqueue]; exact List.mem_cons_self)
    have hlt := Nat.lt_of_le_of_lt d.size_le_capacity hd.capacity_lt
    by_cases hahead : s.mLocalNext < d.mSeq
    · exact .inl ⟨d, rest, rfl, hahead, sendBackData_ahead hqueue hahead⟩
    · have hfront := sendBackData_front hqueue hahead hd.size_pos hlt hd.notAborted
      by_cases hsends : s.SendsFront d
      · rw [if_pos hsends] at hfront
        exact .inr (.inl ⟨d, rest, rfl, hahead, hsends, hfront⟩)
      · rw [if_neg hsends] at hfront
        refine .inr (.inr ⟨?_, hfront⟩)
        intro d' rest' heq
        cases heq
        exact ⟨hahead, hsends⟩

omit [ITunnel τ] in
theorem sentFront_sound {s : TCPSession τ} (h : s.BackSound) {d : TCPDatagram}
    {rest : List TCPDatagram} (hqueue : s.mBackQueue = d :: rest) :
    (s.sentFront d rest).BackSound := by
  intro x hx
  rcases List.mem_cons.mp hx with rfl | hx
  · exact handedOver_sound (h d (by rw [hqueue]; exact List.mem_cons_self))
  · exact h x (by rw [hqueue]; exact List.mem_cons_of_mem d hx)

theorem enqueueBack_sound {s : TCPSession τ} (h : s.BackSound) (flag : U8) {data : Bytes}
    (hdata : data.length ≤ TCP_IP_PAYLOAD_SIZE) : (s.enqueueBack flag data).BackSound := by
  intro x hx
  rw [enqueueBack_mBackQueue] at hx
  rcases List.mem_append.mp hx with hx | hx
  · exact h x hx
  · rw [List.mem_singleton.mp hx]
    exact newSegment_sound flag s hdata

theorem enqueueBare_sound {s : TCPSession τ} (h : s.BackSound) (flag : U8) :
    (s.enqueueBack flag []).BackSound := enqueueBack_sound h flag (Nat.zero_le _)

omit [ITunnel τ] in
theorem popAcked_sound {s : TCPSession τ} (h : s.BackSound) : s.popAcked.BackSound := by
  intro d hd
  rw [popAcked_mBackQueue] at hd
  exact h d ((List.dropWhile_sublist _).mem hd)

-- Sending a front that is in order changes nothing but that segment.
theorem sendBackData_orderly {s : TCPSession τ} {d : TCPDatagram} {rest : List TCPDatagram}
    (hsound : s.BackSound) (hqueue : s.mBackQueue = d :: rest) (horder : ¬ s.mLocalNext < d.mSeq) :
    ∃ d', s.sendBackData.mBackQueue = d' :: rest ∧ (d' = d ∨ d' = handedOver d) ∧
      s.sendBackData.mState = s.mState ∧ s.sendBackData.mLocalSeq = s.mLocalSeq ∧
      Records TracePoint.sending s s.sendBackData := by
  rcases sendBackData_cases hsound with
    ⟨d₁, rest₁, hqueue₁, hahead, -⟩ | ⟨d₁, rest₁, hqueue₁, -, -, heq⟩ | ⟨-, heq⟩
  · rw [hqueue] at hqueue₁
    cases hqueue₁
    exact absurd hahead horder
  · rw [hqueue] at hqueue₁
    cases hqueue₁
    refine ⟨handedOver d, ?_, .inr rfl, ?_, ?_, ?_⟩
    · rw [heq, (resumeIfRoom_inert _).backQueue]
      rfl
    · rw [heq, (resumeIfRoom_inert _).state]
      rfl
    · rw [heq, (resumeIfRoom_inert _).localSeq]
      rfl
    · rw [heq]
      exact (sentFront_records d rest s).trans (.of_eq (resumeIfRoom_trace _))
  · refine ⟨d, ?_, .inl rfl, ?_, ?_, ?_⟩
    · rw [heq, (resumeIfRoom_inert _).backQueue, hqueue]
    · rw [heq, (resumeIfRoom_inert _).state]
    · rw [heq, (resumeIfRoom_inert _).localSeq]
    · rw [heq]
      exact .of_eq (resumeIfRoom_trace s)

-- The segment pushed into an empty queue is the front the flush looks at.
theorem push_into_empty {s : TCPSession τ} (hqueue : s.mBackQueue = [])
    (hle : s.mLocalNext ≤ s.mLocalSeq) (flag : U8) (data : Bytes) :
    (s.enqueueBack flag data).mBackQueue = [s.newSegment flag data] ∧
      pushInBackQueue flag data s = (true, (s.enqueueBack flag data).sendBackData) := by
  have hfront : (s.enqueueBack flag data).mBackQueue = [s.newSegment flag data] := by
    rw [enqueueBack_mBackQueue, hqueue, List.nil_append]
  refine ⟨hfront, ?_⟩
  rw [pushInBackQueue_of_le hle, popAcked_of_front hfront]
  rw [enqueueBack_mLocalNext]
  exact newSegment_stays hle

end TCPSession

end NetCore
