import NetCore.TCPSession.Download
import NetCore.TCPSession.PassOn

/-!
# CLOSED

`resetConnection` closes the session deep inside a flush or a push, and the functions around it go
on: a FIN that was due still leads to LAST_ACK, a FIN received still leads on from the state before,
and a second flush resets once more.  Packets and data that come later are handled as before, too.

A session is `Silent` as long as none of this has happened: it is `Running`, or it is `Over` and has
kept quiet since.
-/

namespace NetCore

namespace TracePoint

def loud : TracePoint → Bool
  | .writePackage _ | .switched _ _ => true
  | _ => false

def closes : TracePoint → Bool
  | .switched _ .closed => true
  | _ => false

-- The change to CLOSED, or the reset in front of it.
def ends (p : TracePoint) : Bool := p.closes || p = .reset

end TracePoint

/-- Behind the change to CLOSED nothing is handed over and the state does not change. -/
def SilentTrace (trace : List TracePoint) : Prop :=
  trace.Pairwise fun p q => p.closes → q.loud = false

namespace TCPSession

variable {τ : Type} {s t : TCPSession τ}

structure Running (s : TCPSession τ) : Prop where
  state : s.mState ≠ .closed
  trace : ∀ p ∈ s.trace, p.ends = false

structure Over (s : TCPSession τ) : Prop where
  state : s.mState = .closed
  trace : SilentTrace s.trace

def Silent (s : TCPSession τ) : Prop := s.Running ∨ s.Over

theorem silentTrace_of_open {trace : List TracePoint} (h : ∀ p ∈ trace, p.closes = false) :
    SilentTrace trace := by
  apply List.pairwise_of_forall_mem_list
  intro p hp _ _ hcloses
  rw [h p hp] at hcloses
  cases hcloses

theorem Running.closes (h : s.Running) : ∀ p ∈ s.trace, p.closes = false := by
  intro p hp
  have hends := h.trace p hp
  unfold TracePoint.ends at hends
  exact (Bool.or_eq_false_iff.mp hends).1

theorem Running.records {kind : TracePoint → Bool} (h : s.Running) (htrace : Records kind s t)
    (hkind : ∀ p, kind p → p.ends = false) (hstate : t.mState ≠ .closed) : t.Running := by
  obtain ⟨points, heq, hpoints⟩ := htrace
  refine ⟨hstate, fun p hp => ?_⟩
  rw [heq] at hp
  rcases List.mem_append.mp hp with hp | hp
  · exact h.trace p hp
  · exact hkind p (hpoints p hp)

theorem Over.records {kind : TracePoint → Bool} (h : s.Over) (htrace : Records kind s t)
    (hkind : ∀ p, kind p → p.loud = false) (hstate : t.mState = s.mState) : t.Over := by
  obtain ⟨points, heq, hpoints⟩ := htrace
  refine ⟨hstate.trans h.state, ?_⟩
  unfold SilentTrace
  rw [heq, List.pairwise_append]
  refine ⟨h.trace, ?_, fun _ _ q hq _ => hkind q (hpoints q hq)⟩
  apply List.pairwise_of_forall_mem_list
  exact fun _ _ q hq _ => hkind q (hpoints q hq)

theorem Running.kept (h : s.Running) (htrace : t.trace = s.trace) (hstate : t.mState = s.mState) :
    t.Running := ⟨hstate ▸ h.state, htrace ▸ h.trace⟩

theorem Over.kept (h : s.Over) (htrace : t.trace = s.trace) (hstate : t.mState = s.mState) :
    t.Over := ⟨hstate.trans h.state, htrace ▸ h.trace⟩

theorem Silent.inert (h : s.Silent) (hinert : Inert s t) : t.Silent := by
  refine h.imp (fun h => ?_) (fun h => ?_)
  · refine h.records hinert.trace (fun p hp => by cases p <;> first | rfl | cases hp) ?_
    rw [hinert.state]
    exact h.state
  · exact h.records hinert.trace (fun p hp => by cases p <;> first | rfl | cases hp) hinert.state

theorem Running.popAcked (h : s.Running) : s.popAcked.Running := by
  refine h.records (popAcked_records s) (fun p hp => by cases p <;> first | rfl | cases hp) ?_
  rw [popAcked_mState]
  exact h.state

theorem Over.popAcked (h : s.Over) : s.popAcked.Over :=
  h.records (popAcked_records s) (fun p hp => by cases p <;> first | rfl | cases hp)
    (popAcked_mState s)

variable [ITunnel τ]

theorem Running.switchState (h : s.Running) {state : TCPState} (hstate : state ≠ .closed) :
    (s.switchState state).Running := by
  by_cases hsame : s.mState = state
  · rw [TCPSession.switchState, if_pos hsame]
    exact h
  · obtain ⟨info, htrace⟩ := switchState_trace hsame
    refine ⟨?_, fun p hp => ?_⟩
    · rw [switchState_mState]
      exact hstate
    · rw [htrace] at hp
      simp only [List.mem_append, List.mem_cons, List.not_mem_nil, or_false] at hp
      rcases hp with hp | rfl | rfl
      · exact h.trace p hp
      · cases state <;> first | rfl | exact absurd rfl hstate
      · rfl

-- The change to CLOSED is the last thing.
theorem over_of_close (hstate : s.mState ≠ .closed) (h : ∀ p ∈ s.trace, p.closes = false) :
    (s.switchState .closed).Over := by
  obtain ⟨info, htrace⟩ := switchState_trace hstate
  refine ⟨switchState_mState _ _, ?_⟩
  unfold SilentTrace
  rw [htrace, List.pairwise_append]
  refine ⟨silentTrace_of_open h, ?_, fun p hp _ _ hcloses => ?_⟩
  · rw [List.pairwise_pair]
    exact fun _ => rfl
  · rw [h p hp] at hcloses
    cases hcloses

theorem Silent.close (h : s.Silent) : (s.switchState .closed).Over := by
  rcases h with h | h
  · exact over_of_close h.state h.closes
  · rw [switchState, if_pos h.state]
    exact h

theorem Running.reset (h : s.Running) : s.resetConnection.Over := by
  rw [resetConnection_eq]
  apply over_of_close
  · rw [rstSent_mState]
    exact h.state
  · intro p hp
    obtain ⟨t, htrace⟩ := s.rstSent_trace
    rw [htrace] at hp
    simp only [packagePoints, List.mem_append, List.mem_cons, List.not_mem_nil, or_false] at hp
    rcases hp with hp | (rfl | rfl) | rfl
    · exact h.closes p hp
    · rfl
    · rfl
    · rfl

/-! ## What a flush finds -/

omit [ITunnel τ] in
/-- In CLOSED a flush hands something over: the front of what is left in the queue, or a RST. -/
def Hands (s : TCPSession τ) : Prop :=
  (s.frontAt s.mLocalNext).any fun d => decide (s.mLocalNext < d.mSeq ∨ s.SendsFront d)

omit [ITunnel τ] in
/-- So does a push of so many bytes; into an empty queue it may be the new segment itself. -/
def HandsPush (length : Nat) (s : TCPSession τ) : Prop :=
  s.mLocalNext ≤ s.mLocalSeq ∧
    (s.Hands ∨ s.frontAt s.mLocalNext = none ∧
      (s.mLocalNext < s.mLocalSeq ∨ BitVec.ofNat 32 (40 + length) < s.sendLimit))

omit [ITunnel τ] in
/-- A push resets the connection: the first segment left, or the new one, is beyond the edge. -/
def PushGap (s : TCPSession τ) : Prop :=
  s.mLocalNext ≤ s.mLocalSeq ∧
    s.mLocalNext < ((s.frontAt s.mLocalNext).map (·.mSeq)).getD s.mLocalSeq

omit [ITunnel τ] in
/-- The push of a FIN that is due resets the connection. -/
def FinGap (s : TCPSession τ) : Prop :=
  s.mRemoteFinished ∧ s.frontAt s.mLocalNext = none ∧ s.mLocalNext < s.mLocalSeq

instance (s : TCPSession τ) : Decidable s.Hands := inferInstanceAs (Decidable (_ = true))

instance (length : Nat) (s : TCPSession τ) : Decidable (s.HandsPush length) :=
  inferInstanceAs (Decidable (_ ∧ (_ ∨ _ ∧ _)))

instance (s : TCPSession τ) : Decidable s.PushGap := inferInstanceAs (Decidable (_ ∧ _))

instance (s : TCPSession τ) : Decidable s.FinGap := inferInstanceAs (Decidable (_ ∧ _ ∧ _))

omit [ITunnel τ] in
theorem hands_iff_front : s.Hands ↔
    ∃ d, s.frontAt s.mLocalNext = some d ∧ (s.mLocalNext < d.mSeq ∨ s.SendsFront d) := by
  unfold Hands
  rw [Option.any_eq_true]
  simp only [decide_eq_true_eq]

omit [ITunnel τ] in
-- What is left in the queue begins with `d`.
theorem hands_iff {d : TCPDatagram} {rest : List TCPDatagram}
    (h : s.mBackQueue.dropWhile (popsSegment s.mLocalNext) = d :: rest) :
    s.Hands ↔ s.mLocalNext < d.mSeq ∨ s.SendsFront d := by
  unfold Hands frontAt
  rw [h]
  exact decide_eq_true_iff

-- The send loop of a running session closes it or leaves it running.
theorem Running.sendBackData (h : s.Running) (hsound : s.BackSound) :
    ((∃ d rest, s.mBackQueue = d :: rest ∧ s.mLocalNext < d.mSeq) ∧ s.sendBackData.Over) ∨
      s.sendBackData.Running := by
  rcases sendBackData_cases hsound with
    ⟨d, rest, hqueue, hahead, heq⟩ | ⟨d, rest, -, -, -, heq⟩ | ⟨-, heq⟩
  · rw [heq]
    exact .inl ⟨⟨d, rest, hqueue, hahead⟩, h.reset⟩
  · rw [heq]
    have hsent : (s.sentFront d rest).Running :=
      h.records (sentFront_records d rest s) (fun p hp => by cases p <;> first | rfl | cases hp)
        h.state
    exact .inr (hsent.kept (resumeIfRoom_trace _) (resumeIfRoom_inert _).state)
  · rw [heq]
    exact .inr (h.kept (resumeIfRoom_trace _) (resumeIfRoom_inert _).state)

-- That of a closed one keeps quiet if it finds nothing to hand over.
theorem Over.sendBackData (h : s.Over) (hsound : s.BackSound)
    (hnone : ∀ d rest, s.mBackQueue = d :: rest → ¬ s.mLocalNext < d.mSeq ∧ ¬ s.SendsFront d) :
    s.sendBackData.Over := by
  rcases sendBackData_cases hsound with
    ⟨d, rest, hqueue, hahead, -⟩ | ⟨d, rest, hqueue, -, hsends, -⟩ | ⟨-, heq⟩
  · exact absurd hahead (hnone d rest hqueue).1
  · exact absurd hsends (hnone d rest hqueue).2
  · rw [heq]
    exact h.kept (resumeIfRoom_trace _) (resumeIfRoom_inert _).state

omit [ITunnel τ] in
theorem Running.refused (h : s.Running) (flag : U8) : (s.emit [.refused flag]).Running := by
  refine ⟨h.state, fun p hp => ?_⟩
  rcases List.mem_append.mp hp with hp | hp
  · exact h.trace p hp
  · cases List.mem_singleton.mp hp
    rfl

theorem Running.enqueueBack (h : s.Running) (flag : U8) (data : Bytes) :
    (s.enqueueBack flag data).Running := by
  refine ⟨h.state, fun p hp => ?_⟩
  rw [enqueueBack_trace, List.mem_append, List.mem_singleton] at hp
  rcases hp with hp | rfl
  · exact h.trace p hp
  · rfl

-- A flush closes the session or numbers a FIN, but not both.
theorem Running.flush (h : s.Running) (hsound : s.BackSound) (hgap : s.MayFinish → ¬ s.FinGap) :
    s.flushBackQueue.Silent := by
  have hpop := h.popAcked
  have hsound' := popAcked_sound hsound
  by_cases hfin : s.popAcked.FinDue
  · by_cases hle : s.mLocalNext ≤ s.mLocalSeq
    · have hmay : s.MayFinish := by
        unfold MayFinish
        rw [← popAcked_mState]
        exact hfin.2.1
      have hnone : s.frontAt s.mLocalNext = none := by
        rw [frontAt_none, ← popAcked_mBackQueue]
        exact hfin.2.2
      have hfinished : s.mRemoteFinished := (popAcked_frame s).remoteFinished ▸ hfin.1
      have hnot : ¬ s.mLocalNext < s.mLocalSeq := fun hlt => hgap hmay ⟨hfinished, hnone, hlt⟩
      rw [flushBackQueue_fin hfin hle]
      rcases (hpop.enqueueBack (FIN ||| ACK) []).sendBackData (enqueueBare_sound hsound' _) with
        ⟨⟨d, rest, hqueue, hahead⟩, -⟩ | hsent
      · -- the FIN stands at the edge
        rw [enqueueBack_mBackQueue, hfin.2.2, List.nil_append] at hqueue
        cases hqueue
        rw [enqueueBack_mLocalNext, newSegment_mSeq, (popAcked_frame s).localNext,
          popAcked_mLocalSeq] at hahead
        exact absurd hahead hnot
      · refine .inl (hsent.switchState ?_)
        split <;> decide
    · rw [flushBackQueue_fin_refused hfin (by bv_omega)]
      exact .inl (hpop.refused _)
  · rw [flushBackQueue_of_not_finDue hfin]
    rcases hpop.sendBackData hsound' with ⟨-, hover⟩ | hrunning
    · exact .inr hover
    · exact .inl hrunning

theorem Over.flush (h : s.Over) (hsound : s.BackSound) (hnone : ¬ s.Hands) :
    s.flushBackQueue.Over := by
  have hfin : ¬ s.popAcked.FinDue := by
    intro hfin
    have hstate := hfin.2.1
    rw [popAcked_mState, h.state] at hstate
    rcases hstate with hstate | hstate <;> cases hstate
  rw [flushBackQueue_of_not_finDue hfin]
  refine h.popAcked.sendBackData (popAcked_sound hsound) fun d rest hqueue => ?_
  have hlimit : s.popAcked.SendsFront d ↔ s.SendsFront d := by
    unfold SendsFront sendLimit
    rw [popAcked_mSendWindow]
  rw [(popAcked_frame s).localNext, hlimit, ← not_or]
  rw [popAcked_mBackQueue] at hqueue
  exact fun hhands => hnone ((hands_iff hqueue).mpr hhands)

/-! ## What a push finds -/

-- A push of payload or of a pure ACK closes a running session only over a gap.
theorem Running.push (h : s.Running) (hsound : s.BackSound) {data : Bytes}
    (hdata : data.length ≤ TCP_IP_PAYLOAD_SIZE) :
    (s.PushGap ∧ (pushInBackQueue ACK data s).2.Over) ∨ (pushInBackQueue ACK data s).2.Running := by
  by_cases hle : s.mLocalNext ≤ s.mLocalSeq
  · have hqueue := pushed_queue s hle data
    have hnext : (s.enqueueBack ACK data).popAcked.mLocalNext = s.mLocalNext :=
      (popAcked_frame _).localNext
    rw [pushInBackQueue_of_le hle]
    rcases (h.enqueueBack ACK data).popAcked.sendBackData
      (popAcked_sound (enqueueBack_sound hsound ACK hdata)) with
      ⟨⟨d, rest, hfront, hahead⟩, hover⟩ | hrunning
    · refine .inl ⟨⟨hle, ?_⟩, hover⟩
      rw [hqueue] at hfront
      rw [hnext] at hahead
      unfold frontAt
      cases hleft : s.mBackQueue.dropWhile (popsSegment s.mLocalNext) with
      | nil =>
        rw [hleft, List.nil_append] at hfront
        cases hfront
        exact hahead
      | cons x xs =>
        rw [hleft, List.cons_append] at hfront
        cases hfront
        exact hahead
    · exact .inr hrunning
  · rw [push_refused_eq hle]
    exact .inr (h.refused ACK)

omit [ITunnel τ] in
theorem popAcked_sendsFront (d : TCPDatagram) : s.popAcked.SendsFront d ↔ s.SendsFront d := by
  unfold SendsFront sendLimit
  rw [popAcked_mSendWindow]

-- A push that hands nothing over leaves its segment in the queue, behind a front that waits.
theorem push_hushed (hsound : s.BackSound) {data : Bytes}
    (hdata : data.length ≤ TCP_IP_PAYLOAD_SIZE) (hle : s.mLocalNext ≤ s.mLocalSeq)
    (hnone : ¬ s.HandsPush data.length) :
    (pushInBackQueue ACK data s).2 = (s.enqueueBack ACK data).popAcked.resumeIfRoom ∧
      ∀ length, ¬ (pushInBackQueue ACK data s).2.HandsPush length := by
  let v := (s.enqueueBack ACK data).popAcked
  have hqueue : v.mBackQueue = _ := pushed_queue s hle data
  have hnext : v.mLocalNext = s.mLocalNext := (popAcked_frame _).localNext
  have hstays : popsSegment s.mLocalNext (s.newSegment ACK data) = false := newSegment_stays hle
  have hsize : (s.newSegment ACK data).size = 40 + data.length := newSegment_size ACK data s
  have hlimit (d : TCPDatagram) : v.SendsFront d ↔ s.SendsFront d :=
    popAcked_sendsFront (s := s.enqueueBack ACK data) d
  -- the front is not popped, not ahead, and does not go out
  obtain ⟨d, rest, hfront, hkept, hnot⟩ : ∃ d rest, v.mBackQueue = d :: rest ∧
      popsSegment s.mLocalNext d = false ∧ ¬ (s.mLocalNext < d.mSeq ∨ s.SendsFront d) := by
    rw [hqueue]
    cases hleft : s.mBackQueue.dropWhile (popsSegment s.mLocalNext) with
    | nil =>
      refine ⟨_, [], rfl, hstays, fun hhands => hnone ⟨hle, .inr ⟨frontAt_none.mpr hleft, ?_⟩⟩⟩
      rw [← hsize]
      exact hhands.imp_right And.left
    | cons x xs =>
      have hkept : popsSegment s.mLocalNext x = false :=
        popAcked_front ((popAcked_mBackQueue s).trans hleft)
      exact ⟨x, _, rfl, hkept, fun hhands => hnone ⟨hle, .inl ((hands_iff hleft).mpr hhands)⟩⟩
  have hpushed : (pushInBackQueue ACK data s).2 = v.resumeIfRoom := by
    rw [pushInBackQueue_of_le hle]
    have hsound' : v.BackSound := popAcked_sound (enqueueBack_sound hsound ACK hdata)
    rcases sendBackData_cases hsound' with
      ⟨d', rest', hfront', hahead, -⟩ | ⟨d', rest', hfront', -, hsends, -⟩ | ⟨-, heq⟩
    · rw [hfront] at hfront'
      cases hfront'
      exact absurd (.inl (hnext ▸ hahead)) hnot
    · rw [hfront] at hfront'
      cases hfront'
      exact absurd (.inr ((hlimit d).mp hsends)) hnot
    · exact heq
  refine ⟨hpushed, fun length hhands => hnot ?_⟩
  rw [hpushed] at hhands
  have hwindow : v.resumeIfRoom.mSendWindow = v.mSendWindow := by
    unfold resumeIfRoom
    split <;> rfl
  have hsends : v.resumeIfRoom.SendsFront d ↔ s.SendsFront d := by
    rw [← hlimit]
    unfold SendsFront sendLimit
    rw [hwindow]
  have hnext' : v.resumeIfRoom.mLocalNext = s.mLocalNext := (resumeIfRoom_inert v).localNext.trans hnext
  have hleft : v.resumeIfRoom.mBackQueue.dropWhile (popsSegment v.resumeIfRoom.mLocalNext) =
      d :: rest := by
    rw [(resumeIfRoom_inert v).backQueue, hnext', hfront, List.dropWhile_cons, hkept]
    rfl
  rcases hhands.2 with hhands | ⟨hempty, -⟩
  · rw [hands_iff hleft, hnext', hsends] at hhands
    exact hhands
  · rw [frontAt_none, hleft] at hempty
    cases hempty

theorem Over.push (h : s.Over) (hsound : s.BackSound) {data : Bytes}
    (hdata : data.length ≤ TCP_IP_PAYLOAD_SIZE) (hnone : ¬ s.HandsPush data.length) :
    (pushInBackQueue ACK data s).2.Over := by
  by_cases hle : s.mLocalNext ≤ s.mLocalSeq
  · have hqueued : (s.enqueueBack ACK data).Over := by
      refine ⟨h.state, ?_⟩
      unfold SilentTrace
      rw [enqueueBack_trace, List.pairwise_append]
      refine ⟨h.trace, List.pairwise_singleton _ _, fun _ _ q hq _ => ?_⟩
      cases List.mem_singleton.mp hq
      rfl
    rw [(push_hushed hsound hdata hle hnone).1]
    exact hqueued.popAcked.kept (resumeIfRoom_trace _) (resumeIfRoom_inert _).state
  · have hrefused : Records TracePoint.refusing s (s.emit [.refused ACK]) :=
      emit_records (by simp [TracePoint.refusing]) s
    rw [push_refused_eq hle]
    exact h.records hrefused (fun p hp => by cases p <;> first | rfl | cases hp) rfl

-- Once a push has closed nothing the queue begins at the edge.
theorem push_front (hsound : s.BackSound) {data : Bytes} (hdata : data.length ≤ TCP_IP_PAYLOAD_SIZE)
    (hle : s.mLocalNext ≤ s.mLocalSeq) (hgap : ¬ s.PushGap) :
    ∃ d rest d', s.mBackQueue.dropWhile (popsSegment s.mLocalNext) ++ [s.newSegment ACK data] =
        d :: rest ∧ d.mSeq = s.mLocalNext ∧ (d' = d ∨ d' = handedOver d) ∧
      (pushInBackQueue ACK data s).2.mBackQueue = d' :: rest := by
  let v := (s.enqueueBack ACK data).popAcked
  have hqueue : v.mBackQueue = _ := pushed_queue s hle data
  have hnext : v.mLocalNext = s.mLocalNext := (popAcked_frame _).localNext
  obtain ⟨d, rest, hfront, hedge⟩ : ∃ d rest,
      s.mBackQueue.dropWhile (popsSegment s.mLocalNext) ++ [s.newSegment ACK data] = d :: rest ∧
        d.mSeq = s.mLocalNext := by
    unfold PushGap frontAt at hgap
    cases hleft : s.mBackQueue.dropWhile (popsSegment s.mLocalNext) with
    | nil =>
      rw [hleft] at hgap
      refine ⟨_, [], rfl, ?_⟩
      have hnot : ¬ s.mLocalNext < s.mLocalSeq := fun hlt => hgap ⟨hle, hlt⟩
      rw [newSegment_mSeq]
      bv_omega
    | cons x xs =>
      rw [hleft] at hgap
      refine ⟨x, _, rfl, ?_⟩
      have hnot : ¬ s.mLocalNext < x.mSeq := fun hlt => hgap ⟨hle, hlt⟩
      have hkept : popsSegment s.mLocalNext x = false :=
        popAcked_front ((popAcked_mBackQueue s).trans hleft)
      have hbelow := not_below_of_stays hkept
      bv_omega
  have hsound' : v.BackSound := popAcked_sound (enqueueBack_sound hsound ACK hdata)
  have hnot : ¬ v.mLocalNext < d.mSeq := by
    rw [hnext, hedge]
    exact BitVec.lt_irrefl _
  obtain ⟨d', hqueue', hd', -⟩ := sendBackData_orderly hsound' (hqueue.trans hfront) hnot
  refine ⟨d, rest, d', hfront, hedge, hd', ?_⟩
  rw [pushInBackQueue_of_le hle]
  exact hqueue'

-- Behind the ACK of a repeated segment the flush numbers no FIN over a gap.
theorem Running.pushThenFlush (h : s.Running) (hsound : s.BackSound) (hgap : ¬ s.PushGap) :
    (pushInBackQueue ACK [] s).2.flushBackQueue.Silent := by
  have hempty : ([] : Bytes).length ≤ TCP_IP_PAYLOAD_SIZE := Nat.zero_le _
  rcases h.push hsound hempty with ⟨hgap', -⟩ | hpushed
  · exact absurd hgap' hgap
  · refine hpushed.flush (pushACK_sound hsound) fun _ ⟨_, hnone, hlt⟩ => ?_
    rw [(pushInBackQueue_frame ACK [] s).localNext] at hnone hlt
    by_cases hle : s.mLocalNext ≤ s.mLocalSeq
    · obtain ⟨d, rest, d', hfront, hedge, -, hqueue⟩ := push_front hsound hempty hle hgap
      rw [frontAt_none, hqueue, List.dropWhile_eq_nil_iff] at hnone
      rcases push_moves hsound hle hempty with ⟨-, hclosed⟩ | ⟨-, -, hseq⟩
      · exact hpushed.state hclosed
      · rw [hseq, List.length_nil, show s.mLocalSeq + BitVec.ofNat 32 0 = s.mLocalSeq from
          BitVec.add_zero _] at hlt
        -- the ACK just pushed is the front, or is not popped
        cases hleft : s.mBackQueue.dropWhile (popsSegment s.mLocalNext) with
        | nil =>
          rw [hleft, List.nil_append] at hfront
          cases hfront
          rw [newSegment_mSeq] at hedge
          bv_omega
        | cons x xs =>
          rw [hleft, List.cons_append] at hfront
          cases hfront
          have hmem : s.newSegment ACK [] ∈ d' :: (xs ++ [s.newSegment ACK []]) := by simp
          have hpops := hnone _ hmem
          rw [newSegment_stays hle] at hpops
          cases hpops
    · rw [push_refused_eq hle] at hlt
      have hlt' : s.mLocalNext < s.mLocalSeq := hlt
      bv_omega

/-! ## The chunks of one delivery -/

omit [ITunnel τ] in
-- Unless the connection has been reset, each queued segment starts where the one before it ends.
def Laid (_ : Nat) (s : TCPSession τ) : Prop :=
  .reset ∈ s.trace ∨ ∃ a, Lib.Tiles (·.mSeq) TCPDatagram.seqLen a s.mBackQueue s.mLocalSeq

omit [ITunnel τ] in
theorem Laid.of_same {b : Nat} (h : Laid b s) (hqueue : SameQueue s.mBackQueue t.mBackQueue)
    (hseq : t.mLocalSeq = s.mLocalSeq) (htrace : .reset ∈ s.trace → .reset ∈ t.trace) :
    Laid b t := by
  refine h.imp htrace ?_
  rintro ⟨a, ha⟩
  rw [hseq]
  refine ⟨a, ha.congr (hqueue.map_eq ?_) (hqueue.map_eq ?_)⟩
  · exact fun hsame => hsame.mSeq
  · exact fun hsame => hsame.seqLen

theorem laid_invariant : StepInvariant (Laid (τ := τ)) where
  mono h _ := h
  inert {_ s s'} h hinert := by
    have hqueue : SameQueue s.mBackQueue s'.mBackQueue := by
      rw [hinert.backQueue]
      exact .refl _
    exact h.of_same hqueue hinert.localSeq hinert.trace.mem_of_mem
  finished h := h
  pop {_ s} h := by
    refine h.imp (popAcked_records s).mem_of_mem ?_
    rintro ⟨a, ha⟩
    rw [popAcked_mBackQueue, popAcked_mLocalSeq]
    exact ha.dropWhile _
  sent {_ s d rest} h _ hqueue _ := by
    have hsame : SameQueue s.mBackQueue (s.sentFront d rest).mBackQueue := by
      rw [hqueue]
      exact .cons (handedOver_sameAs d) (SameQueue.refl rest)
    exact h.of_same hsame rfl (sentFront_records d rest s).mem_of_mem
  reset {_ s} _ := .inl (resetConnection_reset s)
  switch {_ s} state h := by
    have hqueue : SameQueue s.mBackQueue (s.switchState state).mBackQueue := by
      rw [switchState_backQueue]
      exact .refl _
    exact h.of_same hqueue (switchState_mLocalSeq state s) (switchState_records state s).mem_of_mem
  number {_ s flag data} h _ _ _ := by
    refine h.imp (fun hreset => ?_) ?_
    · rw [enqueueBack_trace]
      exact List.mem_append_left _ hreset
    · rintro ⟨a, ha⟩
      rw [enqueueBack_mBackQueue, enqueueBack_mLocalSeq]
      exact ⟨a, ha.snoc rfl⟩
  refuse flag h _ := h.imp_left (List.mem_append_left _)
  written {_ s} i n h := h.of_same (sameQueue_modify _ i n) rfl id

-- Taking pure ACKs off such a queue does not move its beginning.
theorem front_of_tiles {next : U32} {queue : List TCPDatagram} {b : U32}
    (h : Lib.Tiles (·.mSeq) TCPDatagram.seqLen next queue b) :
    (((queue.dropWhile (popsSegment next)).head?).map (·.mSeq)).getD b = next := by
  induction queue with
  | nil => exact h.symm
  | cons d queue ih =>
    obtain ⟨hseq, hrest⟩ := h
    rw [List.dropWhile_cons]
    split
    next hpops =>
      -- it is popped as a pure ACK, which takes no number
      have hbare : d.mLength = 0 ∧ d.mFlag = ACK := by
        simp only [popsSegment, hseq, BitVec.lt_irrefl, decide_false, Bool.false_or,
          Bool.and_eq_true, decide_eq_true_eq] at hpops
        exact hpops.1
      have hlen : d.seqLen = 0 := by
        unfold TCPDatagram.seqLen TCPDatagram.hasFlag
        rw [hbare.2, hbare.1]
        decide
      rw [hlen, show (next + 0 : U32) = next from BitVec.add_zero next] at hrest
      exact ih hrest
    next => exact hseq

-- As long as nothing has been reset no later chunk opens a gap.
theorem Running.push_again {data : Bytes} (h : (pushInBackQueue ACK data s).2.Running)
    (hsteady : Steady Laid 0 s) (hdata : data.length ≤ TCP_IP_PAYLOAD_SIZE) (hgap : ¬ s.PushGap)
    (hlaid : Laid 0 (pushInBackQueue ACK data s).2) (hle : s.mLocalNext ≤ s.mLocalSeq) :
    ¬ (pushInBackQueue ACK data s).2.PushGap := by
  obtain ⟨d, rest, d', -, hedge, hd', hqueue⟩ := push_front hsteady.sound hdata hle hgap
  have hnext := (pushInBackQueue_frame ACK data s).localNext
  rcases hlaid with hreset | ⟨a, ha⟩
  · have hends := h.trace _ hreset
    cases hends
  · have hseq : d'.mSeq = s.mLocalNext := by
      rcases hd' with rfl | rfl
      · exact hedge
      · exact hedge
    have hstart : a = s.mLocalNext := by
      rw [hqueue] at ha
      exact ha.1.symm.trans hseq
    rw [hstart] at ha
    unfold PushGap frontAt
    rw [hnext, front_of_tiles ha]
    exact fun hgap' => BitVec.lt_irrefl _ hgap'.2

omit [ITunnel τ] in
theorem relayLoop_nil [ITunnel τ] (fuel : Nat) (s : TCPSession τ) : relayLoop fuel [] s = (0, s) := by
  cases fuel with
  | zero => rfl
  | succ fuel => exact if_pos rfl

-- One chunk may close the session; the chunks of a longer delivery must not find a gap.
theorem Running.relayLoop (fuel : Nat) {data : Bytes} {s : TCPSession τ} (h : s.Running)
    (hsteady : Steady Laid 0 s) (hgap : data.length ≤ TCP_IP_PAYLOAD_SIZE ∨ ¬ s.PushGap) :
    (relayLoop fuel data s).2.Silent := by
  induction fuel generalizing data s with
  | zero => exact .inl h
  | succ fuel ih =>
    unfold TCPSession.relayLoop
    by_cases hempty : data = []
    · rw [if_pos hempty]
      exact .inl h
    · rw [if_neg hempty]
      have htake : (data.take TCP_IP_PAYLOAD_SIZE).length ≤ TCP_IP_PAYLOAD_SIZE :=
        List.length_take_le _ _
      by_cases hle : s.mLocalNext ≤ s.mLocalSeq
      · have hpush := h.push hsteady.sound htake
        have hmore : (pushInBackQueue ACK (data.take TCP_IP_PAYLOAD_SIZE) s) =
            (true, (pushInBackQueue ACK (data.take TCP_IP_PAYLOAD_SIZE) s).2) := by
          rw [pushInBackQueue_of_le hle]
        have hsteady' : Steady Laid 0 (pushInBackQueue ACK (data.take TCP_IP_PAYLOAD_SIZE) s).2 := by
          have hroom : Steady Laid data.length s := ⟨hsteady.sound, hsteady.opened, hsteady.holds⟩
          have hpushed := hroom.push laid_invariant.toPartInvariant.call (List.length_take_le' _ _) htake
          exact ⟨hpushed.sound, hpushed.opened, hpushed.holds⟩
        rw [hmore]
        simp only
        by_cases hsmall : data.length ≤ TCP_IP_PAYLOAD_SIZE
        · rw [List.drop_of_length_le hsmall, relayLoop_nil]
          exact hpush.elim (fun hgap' => .inr hgap'.2) .inl
        · have hnot : ¬ s.PushGap := hgap.resolve_left hsmall
          rcases hpush with ⟨hgap', -⟩ | hrunning
          · exact absurd hgap' hnot
          · have hagain := hrunning.push_again hsteady htake hnot hsteady'.holds hle
            exact ih hrunning hsteady' (.inr hagain)
      · have hrefused := h.refused ACK
        rw [pushInBackQueue_refused (by bv_omega)]
        exact .inl hrefused

-- In CLOSED the first chunk decides: behind it the front of the queue waits for all of them.
theorem Over.relayLoop (fuel : Nat) {data : Bytes} {s : TCPSession τ} (h : s.Over)
    (hsound : s.BackSound) (hnone : ¬ s.HandsPush (data.take TCP_IP_PAYLOAD_SIZE).length) :
    (relayLoop fuel data s).2.Over := by
  induction fuel generalizing data s with
  | zero => exact h
  | succ fuel ih =>
    have htake : (data.take TCP_IP_PAYLOAD_SIZE).length ≤ TCP_IP_PAYLOAD_SIZE :=
      List.length_take_le _ _
    have hpush := h.push hsound htake hnone
    unfold TCPSession.relayLoop
    by_cases hempty : data = []
    · rw [if_pos hempty]
      exact h
    · rw [if_neg hempty]
      by_cases hle : s.mLocalNext ≤ s.mLocalSeq
      · have hmore : (pushInBackQueue ACK (data.take TCP_IP_PAYLOAD_SIZE) s) =
            (true, (pushInBackQueue ACK (data.take TCP_IP_PAYLOAD_SIZE) s).2) := by
          rw [pushInBackQueue_of_le hle]
        rw [hmore]
        exact ih hpush (push_sound hsound htake) ((push_hushed hsound htake hle hnone).2 _)
      · rw [pushInBackQueue_refused (by bv_omega)] at hpush ⊢
        exact hpush

/-! ## What an event must find -/

omit [ITunnel τ] in
def FlushSilent (s : TCPSession τ) : Prop :=
  (s.mState = .closed → ¬ s.Hands) ∧ (s.MayFinish → ¬ s.FinGap)

omit [ITunnel τ] in
/-- An acknowledgement that is taken; `s` has the edge it sets. -/
def AckSilent (ip : Packet) (s : TCPSession τ) : Prop :=
  match s.mState with
  | .synRcved => if ip.payload ≠ [] ∧ s.Repeated ip then ¬ s.PushGap else ¬ s.FinGap
  | .established =>
      if ip.payload ≠ [] ∧ s.Repeated ip then ¬ s.PushGap else s.Queues ip ∨ ¬ s.FinGap
  | .lastAck => ¬ s.Hands
  | _ => s.FlushSilent

omit [ITunnel τ] in
/-- A FIN; `s` has its numbers. -/
def FinSilent (s : TCPSession τ) : Prop :=
  match s.mState with
  | .closed => ¬ s.HandsPush 0
  | .established | .finWait1 | .finWait2 => ¬ s.PushGap
  | _ => True

omit [ITunnel τ] in
def PacketSilent (ip : Packet) (s : TCPSession τ) : Prop :=
  if NetCore.hasFlag ip.flag SYN then s.FlushSilent
  else if NetCore.hasFlag ip.flag FIN then (s.finNumbered ip).FinSilent
  else NetCore.hasFlag ip.flag RST = false → s.mLocalNext ≤ s.relativeAck ip →
    (s.acknowledged ip).AckSilent ip

omit [ITunnel τ] in
-- The end of the tunnel; in CLOSED it would be answered with a RST.
def EndSilent (s : TCPSession τ) : Prop :=
  s.mState ≠ .closed ∧ (s.MayFinish → ¬ FinGap { s with mRemoteFinished := true })

omit [ITunnel τ] in
def DataSilent (data : Bytes) (s : TCPSession τ) : Prop :=
  if data = [] then FlushSilent { s with mRemoteFinished := true }
  else if s.mState = .closed then ¬ s.HandsPush (data.take TCP_IP_PAYLOAD_SIZE).length
  else data.length ≤ TCP_IP_PAYLOAD_SIZE ∨ ¬ s.PushGap

/-- Nothing is left to be done behind the change to CLOSED. -/
def KeepsSilent (s : TCPSession τ) : Event τ → Prop
  | .accept ip => s.PacketSilent ip
  | .tunnelDisconnected _ => s.EndSilent
  | .tunnelWritable =>
      s.mForwardQueue ≠ [] → (drain s.mForwardQueue s.mTunnel).failed ≠ none → s.EndSilent
  | .tunnelDataBack data => s.DataSilent data
  | _ => True

instance (s : TCPSession τ) : Decidable s.FlushSilent := inferInstanceAs (Decidable (_ ∧ _))

omit [ITunnel τ] in
theorem ackSilent_iff {ip : Packet} {s : TCPSession τ} : s.AckSilent ip ↔
    (s.mState = .synRcved → if ip.payload ≠ [] ∧ s.Repeated ip then ¬ s.PushGap else ¬ s.FinGap) ∧
    (s.mState = .established →
      if ip.payload ≠ [] ∧ s.Repeated ip then ¬ s.PushGap else s.Queues ip ∨ ¬ s.FinGap) ∧
    (s.mState = .lastAck → ¬ s.Hands) ∧
    (s.mState ≠ .synRcved → s.mState ≠ .established → s.mState ≠ .lastAck → s.FlushSilent) := by
  unfold AckSilent
  cases s.mState <;> simp

omit [ITunnel τ] in
theorem finSilent_iff {s : TCPSession τ} : s.FinSilent ↔
    (s.mState = .closed → ¬ s.HandsPush 0) ∧
    (s.mState = .established ∨ s.mState = .finWait1 ∨ s.mState = .finWait2 → ¬ s.PushGap) := by
  unfold FinSilent
  cases s.mState <;> simp

instance (ip : Packet) (s : TCPSession τ) : Decidable (s.AckSilent ip) :=
  decidable_of_iff _ ackSilent_iff.symm

instance (s : TCPSession τ) : Decidable s.FinSilent := decidable_of_iff _ finSilent_iff.symm

instance (ip : Packet) (s : TCPSession τ) : Decidable (s.PacketSilent ip) := by
  unfold PacketSilent
  infer_instance

instance (s : TCPSession τ) : Decidable s.EndSilent := inferInstanceAs (Decidable (_ ∧ _))

instance (data : Bytes) (s : TCPSession τ) : Decidable (s.DataSilent data) := by
  unfold DataSilent
  infer_instance

instance (s : TCPSession τ) : ∀ e, Decidable (s.KeepsSilent e)
  | .accept _ => inferInstanceAs (Decidable (PacketSilent _ _))
  | .tunnelDisconnected _ => inferInstanceAs (Decidable s.EndSilent)
  | .tunnelWritable => inferInstanceAs (Decidable (_ → _ → _))
  | .tunnelDataBack _ => inferInstanceAs (Decidable (DataSilent _ _))
  | .tunnelConnected | .written _ _ | .environment _ _ _ => inferInstanceAs (Decidable True)

/-! ## Packets -/

theorem Silent.flush (h : s.Silent) (hsound : s.BackSound) (hsilent : s.FlushSilent) :
    s.flushBackQueue.Silent := by
  rcases h with h | h
  · exact h.flush hsound hsilent.2
  · exact .inr (h.flush hsound (hsilent.1 h.state))

theorem acceptFirstPayload_silent (h : s.Running) (hsound : s.BackSound) (ip : Packet)
    (hsilent : if ip.payload ≠ [] ∧ s.Repeated ip then ¬ s.PushGap else ¬ s.FinGap) :
    (acceptFirstPayload ip s).Silent := by
  have huploaded : (s.uploaded ip).Running := h.kept rfl rfl
  rcases acceptFirstPayload_cases ip s with ⟨hqueues, heq⟩ | ⟨hne, hold, heq⟩ | ⟨⟨-, hnot⟩, heq⟩
  · rw [if_neg fun hold => hqueues.2.1 hold.2] at hsilent
    rw [heq]
    exact huploaded.flush hsound fun _ => hsilent
  · rw [if_pos ⟨hne, hold⟩] at hsilent
    rw [heq]
    exact h.pushThenFlush hsound hsilent
  · rw [if_neg hnot] at hsilent
    rw [heq]
    exact h.flush hsound fun _ => hsilent

theorem acceptPayload_silent (h : s.Running) (hsound : s.BackSound) (ip : Packet)
    (hsilent : if ip.payload ≠ [] ∧ s.Repeated ip then ¬ s.PushGap
      else s.Queues ip ∨ ¬ s.FinGap) : (acceptPayload ip s).Silent := by
  have huploaded : (s.uploaded ip).Running := h.kept rfl rfl
  have hempty : ([] : Bytes).length ≤ TCP_IP_PAYLOAD_SIZE := Nat.zero_le _
  rcases acceptPayload_cases ip s with ⟨-, heq⟩ | ⟨hne, hold, heq⟩ | ⟨⟨hqueues, hnot⟩, heq⟩
  · rw [heq]
    exact (huploaded.push hsound hempty).elim (fun hgap => .inr hgap.2) .inl
  · rw [if_pos ⟨hne, hold⟩] at hsilent
    rw [heq]
    exact h.pushThenFlush hsound hsilent
  · rw [if_neg hnot] at hsilent
    rw [heq]
    exact h.flush hsound fun _ => hsilent.resolve_left hqueues

theorem switchState_hands (state : TCPState) (s : TCPSession τ) :
    (s.switchState state).Hands ↔ s.Hands := by
  have hwindow : (s.switchState state).mSendWindow = s.mSendWindow := by
    unfold switchState
    split
    · rfl
    · split <;> rfl
  rw [hands_iff_front, hands_iff_front]
  unfold frontAt SendsFront sendLimit
  rw [(switchState_frame state s).localNext, switchState_backQueue, hwindow]

theorem switchState_finGap (state : TCPState) (s : TCPSession τ) :
    (s.switchState state).FinGap ↔ s.FinGap := by
  unfold FinGap frontAt
  rw [(switchState_frame state s).localNext, switchState_backQueue, switchState_mLocalSeq,
    (switchState_frame state s).remoteFinished]

theorem switchState_pushGap (state : TCPState) (s : TCPSession τ) :
    (s.switchState state).PushGap ↔ s.PushGap := by
  unfold PushGap frontAt
  rw [(switchState_frame state s).localNext, switchState_backQueue, switchState_mLocalSeq]

theorem switchState_repeated (state : TCPState) (ip : Packet) (s : TCPSession τ) :
    (s.switchState state).Repeated ip ↔ s.Repeated ip := by
  unfold Repeated relativeSeq
  rw [(switchState_frame state s).remoteSeqBase, (switchState_frame state s).remoteNext]

theorem onReceiveACK_silent {ip : Packet} (h : s.Silent) (hsound : s.BackSound)
    (hsilent : s.AckSilent ip) (hack : onReceiveACK ip s = some t) : t.Silent := by
  have hrunning {state : TCPState} (hstate : s.mState = state) (hne : state ≠ .closed) : s.Running :=
    h.resolve_right fun hover => hne (hstate.symm.trans hover.state)
  -- the state entered numbers no FIN
  have hturned {state : TCPState} (hstate : s.mState = state) (hne : state ≠ .closed)
      {state' : TCPState}
      (hne' : state' ≠ .closed ∧ state' ≠ .established ∧ state' ≠ .closeWait) :
      (s.switchState state').flushBackQueue.Silent := by
    refine ((hrunning hstate hne).switchState hne'.1).flush (switchState_sound hsound) ?_
    intro hmay
    unfold MayFinish at hmay
    rw [switchState_mState] at hmay
    exact absurd hmay (not_or.mpr hne'.2)
  unfold AckSilent at hsilent
  rcases onReceiveACK_cases hack with ⟨hstate, heq⟩ | ⟨hstate, heq⟩ | ⟨hstate, heq⟩ |
    ⟨hstate, heq⟩ | ⟨hstate, heq⟩ | ⟨hsyn, hfin1, hlast, hclosing, hestablished, heq⟩
  · rw [hstate] at hsilent
    rw [heq]
    have hne : (.established : TCPState) ≠ .closed := by decide
    refine acceptFirstPayload_silent ((hrunning hstate (by decide)).switchState hne)
      (switchState_sound hsound) ip ?_
    simp only [switchState_repeated, switchState_pushGap, switchState_finGap]
    exact hsilent
  · rw [heq]
    exact hturned hstate (by decide) (by decide)
  · rw [hstate] at hsilent
    rw [heq]
    refine .inr (h.close.flush (switchState_sound hsound) ?_)
    rw [switchState_hands]
    exact hsilent
  · rw [heq]
    exact hturned hstate (by decide) (by decide)
  · rw [hstate] at hsilent
    rw [heq]
    exact acceptPayload_silent (hrunning hstate (by decide)) hsound ip hsilent
  · rw [heq]
    refine h.flush hsound ?_
    cases hstate : s.mState
    case synRcved => exact absurd hstate hsyn
    case established => exact absurd hstate hestablished
    case lastAck => exact absurd hstate hlast
    all_goals
      rw [hstate] at hsilent
      exact hsilent

omit [ITunnel τ] in
theorem finState_ne_closed (ip : Packet) (h : s.FinMoves) : s.finState ip ≠ .closed := by
  have hturn := finMoves_turn ip h
  generalize s.finState ip = state at hturn ⊢
  generalize s.mState = old at hturn
  cases hturn <;> decide

theorem onReceiveFIN_silent {ip : Packet} (h : s.Silent) (hsound : s.BackSound)
    (hsilent : (s.finNumbered ip).FinSilent) : (onReceiveFIN ip s).Silent := by
  let f := s.finNumbered ip
  have hf : f.BackSound := hsound
  have hempty : ([] : Bytes).length ≤ TCP_IP_PAYLOAD_SIZE := Nat.zero_le _
  unfold FinSilent at hsilent
  by_cases hmoves : s.FinMoves
  · have hrunning : f.Running := by
      have hnot : s.mState ≠ .closed := by
        rcases hmoves with hstate | hstate | hstate <;> rw [hstate] <;> decide
      exact (h.resolve_right fun hover => hnot hover.state).kept rfl rfl
    by_cases hle : (s.finNumbered ip).mLocalNext ≤ s.mLocalSeq
    · have hgap : ¬ f.PushGap := by
        rcases hmoves with hstate | hstate | hstate <;>
          rw [show f.mState = _ from hstate] at hsilent <;> exact hsilent
      rw [onReceiveFIN_moves hle hmoves]
      rcases hrunning.push hf hempty with ⟨hgap', -⟩ | hpushed
      · exact absurd hgap' hgap
      · exact .inl (hpushed.switchState (finState_ne_closed ip hmoves))
    · rw [onReceiveFIN_refused (by bv_omega)]
      exact .inl (hrunning.refused ACK)
  · rw [onReceiveFIN_stays hmoves]
    rcases h with h | h
    · have hrunning : f.Running := h.kept rfl rfl
      exact (hrunning.push hf hempty).elim (fun hgap => .inr hgap.2) .inl
    · have hover : f.Over := h.kept rfl rfl
      rw [show (s.finNumbered ip).mState = .closed from h.state] at hsilent
      exact .inr (hover.push hf hempty hsilent)

theorem accepted_silent {ip : Packet} (h : s.Silent) (hsound : s.BackSound)
    (hsilent : s.PacketSilent ip) (haccepted : Accepted ip s t) : t.Silent := by
  unfold PacketSilent at hsilent
  cases haccepted with
  | syn hsyn =>
    rw [if_pos hsyn] at hsilent
    exact h.flush hsound hsilent
  | fin hsyn hfin =>
    rw [if_neg (Bool.eq_false_iff.mp hsyn), if_pos hfin] at hsilent
    exact onReceiveFIN_silent h hsound hsilent
  | rst => exact .inr h.close
  | stale => exact h.imp (fun h => h.kept rfl rfl) (fun h => h.kept rfl rfl)
  | ack hplain hnew hack =>
    have hacknowledged : (s.acknowledged ip).Silent :=
      h.imp (fun h => h.kept rfl rfl) (fun h => h.kept rfl rfl)
    rw [if_neg (Bool.eq_false_iff.mp hplain.1), if_neg (Bool.eq_false_iff.mp hplain.2.1)] at hsilent
    exact onReceiveACK_silent hacknowledged hsound (hsilent hplain.2.2 hnew) hack

theorem accept_silent {ip : Packet} (h : s.Silent) (hopened : s.Opened)
    (hsilent : s.PacketSilent ip) (haccept : accept ip s = some t) : t.Silent := by
  obtain ⟨u, hu, rfl⟩ := accept_accepted hopened.2 haccept
  have hcounted := h.inert (countAccepted_inert ip s)
  obtain ⟨total, trace, heq⟩ := countAccepted_eq ip s
  rw [heq] at hu hcounted
  generalize hc : ({ s with mTotalAccept := total, trace := trace } : TCPSession τ) = c at hu hcounted
  have hsound : c.BackSound := hc ▸ hopened.1
  have hsilent' : c.PacketSilent ip := hc ▸ hsilent
  exact (accepted_silent hcounted hsound hsilent' hu).inert (noteTime_inert u)

/-! ## Calls from the tunnel -/

theorem onRemoteFinished_silent (h : s.Silent) (hsound : s.BackSound)
    (hsilent : FlushSilent { s with mRemoteFinished := true }) : s.onRemoteFinished.Silent := by
  have hfinished : Silent { s with mRemoteFinished := true } :=
    h.imp (fun h => h.kept rfl rfl) (fun h => h.kept rfl rfl)
  exact hfinished.flush hsound hsilent

theorem onTunnelDisconnected_silent (h : s.Silent) (hsound : s.BackSound) (hsilent : s.EndSilent)
    (reason : U8) : (s.onTunnelDisconnected reason).Silent := by
  have hrunning : s.Running := h.resolve_right fun hover => hsilent.1 hover.state
  have hfinished := onRemoteFinished_silent h hsound
    ⟨fun hclosed => absurd hclosed hsilent.1, hsilent.2⟩
  unfold onTunnelDisconnected
  split
  · exact hfinished
  · exact hfinished
  · exact .inr h.close
  · exact .inr h.close
  · exact .inr h.close
  · exact .inr h.close
  · exact .inr hrunning.reset

theorem onTunnelDataBack_silent {data : Bytes} (h : s.Silent) (hsteady : Steady Laid 0 s)
    (hsilent : s.DataSilent data) : (s.onTunnelDataBack data).Silent := by
  unfold DataSilent at hsilent
  unfold onTunnelDataBack
  by_cases hdata : data = []
  · rw [if_pos hdata] at hsilent
    rw [if_pos hdata]
    have hpaused : Silent { s with mTunnel := ITunnel.pauseReceiveData s.mTunnel } :=
      h.imp (fun h => h.kept rfl rfl) (fun h => h.kept rfl rfl)
    exact (onRemoteFinished_silent hpaused hsteady.sound hsilent).inert (noteTime_inert _)
  · rw [if_neg hdata] at hsilent
    rw [if_neg hdata]
    have hrelayed : (relayLoop data.length data s).2.Silent := by
      rcases h with h | h
      · rw [if_neg h.state] at hsilent
        exact h.relayLoop data.length hsteady hsilent
      · rw [if_pos h.state] at hsilent
        exact .inr (h.relayLoop data.length hsteady.sound hsilent)
    simp only
    generalize relayLoop data.length data s = r at hrelayed
    exact ((hrelayed.inert (countRecv_inert r.1 r.2)).inert (pauseIfFull_inert _)).inert
      (noteTime_inert _)

theorem onTunnelWritable_silent (h : s.Silent) (hsound : s.BackSound)
    (hsilent : s.mForwardQueue ≠ [] → (drain s.mForwardQueue s.mTunnel).failed ≠ none →
      s.EndSilent) : s.onTunnelWritable.Silent := by
  rcases onTunnelWritable_cases s with hinert | ⟨hne, reason, n, hfailed, heq⟩
  · exact h.inert hinert
  · have hdrained := h.inert (drained_inert s)
    have hend : s.drained.EndSilent := by
      refine hsilent hne ?_
      rw [hfailed]
      exact Option.some_ne_none reason
    rw [heq]
    exact (onTunnelDisconnected_silent hdrained hsound hend reason).inert (countSent_inert n _)

/-! ## Steps and runs -/

theorem step_silent {e : Event τ} (h : s.Silent) (hsteady : Steady Laid 0 s)
    (hsilent : s.KeepsSilent e) (hstep : step s e = some t) : t.Silent := by
  cases e with
  | accept ip => exact accept_silent h ⟨hsteady.sound, hsteady.opened⟩ hsilent hstep
  | tunnelConnected =>
    cases hstep
    exact h
  | tunnelDisconnected reason =>
    cases hstep
    exact onTunnelDisconnected_silent h hsteady.sound hsilent reason
  | tunnelWritable =>
    cases hstep
    exact onTunnelWritable_silent h hsteady.sound hsilent
  | tunnelDataBack data =>
    cases hstep
    exact onTunnelDataBack_silent h hsteady hsilent
  | written i n =>
    cases hstep
    exact h.imp (fun h => h.kept rfl rfl) (fun h => h.kept rfl rfl)
  | environment tunnel now rand =>
    cases hstep
    exact h.imp (fun h => h.kept rfl rfl) (fun h => h.kept rfl rfl)

theorem step_laid {e : Event τ} (h : Steady Laid 0 s) (hstep : step s e = some t) :
    Steady Laid 0 t := by
  have hroom : Steady Laid (s.demand e) s := ⟨h.sound, h.opened, h.holds⟩
  exact laid_invariant.step hroom (Nat.le_refl _) (fun _ _ _ _ => h.holds) hstep

omit [ITunnel τ] in
theorem Newborn.silent (h : s.Newborn) : s.Silent := by
  refine .inl ⟨?_, fun p hp => ?_⟩
  · rw [h.state]
    decide
  · have hearly := h.trace p hp
    unfold TracePoint.early at hearly
    split at hearly <;> first | rfl | cases hearly

omit [ITunnel τ] in
theorem Newborn.laid (h : s.Newborn) : Steady Laid 0 s := by
  obtain ⟨d, hqueue, -, hseq, -, hflag⟩ := h.backQueue
  refine ⟨h.opened.1, h.opened.2, .inr ⟨0, ?_⟩⟩
  have hlen : d.seqLen = 1 := by
    unfold TCPDatagram.seqLen TCPDatagram.hasFlag
    rw [hflag]
    rfl
  rw [hqueue, h.localSeq]
  refine ⟨hseq, ?_⟩
  show (0 : U32) + d.seqLen = 1
  rw [hlen]
  rfl

/-- In a run in which nothing is left to be done behind a change to CLOSED, that change is the last
    one, and no segment is handed over after it. -/
theorem closed_final {s s' : TCPSession τ} {es : List (Event τ)} (hborn : s.Born)
    (hkeeps : Lib.Along step KeepsSilent s es) (hrun : Lib.run step s es = some s') :
    SilentTrace s'.trace ∧ ((∃ p ∈ s'.trace, p.closes) → s'.mState = .closed) := by
  have hnewborn := hborn.newborn
  have hafter := Lib.Along.invariant (fun s => s.Silent ∧ Steady Laid 0 s)
    (fun s e t h hcond hstep => ⟨step_silent h.1 h.2 hcond hstep, step_laid h.2 hstep⟩)
    ⟨hnewborn.silent, hnewborn.laid⟩ hkeeps hrun
  rcases hafter.1 with hrunning | hover
  · refine ⟨silentTrace_of_open hrunning.closes, ?_⟩
    rintro ⟨p, hp, hcloses⟩
    rw [hrunning.closes p hp] at hcloses
    cases hcloses
  · exact ⟨hover.trace, fun _ => hover.state⟩

theorem closed_final_sample :
    ∃ s' : TCPSession TCPTunnel,
      Lib.run step (sampleBorn sampleTunnel)
        [.accept (samplePacket 101 1001 ACK [] (by decide)), .tunnelDataBack [1, 2, 3],
          .accept (samplePacket 101 1004 ACK [] (by decide)),
          .accept (samplePacket 101 1004 RST [] (by decide)),
          .accept (samplePacket 101 1004 ACK [] (by decide))] = some s' ∧
      SilentTrace s'.trace ∧ ((∃ p ∈ s'.trace, p.closes) → s'.mState = .closed) := by
  have hreach : ∃ s' : TCPSession TCPTunnel,
      Lib.run step (sampleBorn sampleTunnel)
        [.accept (samplePacket 101 1001 ACK [] (by decide)), .tunnelDataBack [1, 2, 3],
          .accept (samplePacket 101 1004 ACK [] (by decide)),
          .accept (samplePacket 101 1004 RST [] (by decide)),
          .accept (samplePacket 101 1004 ACK [] (by decide))] = some s' ∧ s'.mState = .closed :=
    Lib.run_reaches (by decide)
  obtain ⟨s', hrun, -⟩ := hreach
  exact ⟨s', hrun, closed_final (sampleBorn_born (by decide)) (by decide) hrun⟩

/-- Behind a partial acknowledgement the FIN that is due is pushed over a gap: the push resets, and
    the flush goes on to LAST_ACK.  A FIN received goes on to CLOSE_WAIT. -/
theorem closed_left :
    (sampleBorn sampleTunnel).Born ∧
      (∃ s' : TCPSession TCPTunnel,
        Lib.run step (sampleBorn sampleTunnel)
          [.accept (samplePacket 101 1001 ACK [] (by decide)), .tunnelDataBack [1, 2, 3],
            .accept (samplePacket 101 1002 ACK [] (by decide)), .tunnelDisconnected 0] = some s' ∧
        .switched .established .closed ∈ s'.trace ∧ s'.mState = .lastAck) ∧
      ∃ s' : TCPSession TCPTunnel,
        Lib.run step (sampleBorn sampleTunnel)
          [.accept (samplePacket 101 1001 ACK [] (by decide)), .tunnelDataBack [1, 2, 3],
            .accept (samplePacket 101 1002 (FIN ||| ACK) [] (by decide))] = some s' ∧
        .switched .established .closed ∈ s'.trace ∧ s'.mState = .closeWait :=
  ⟨sampleBorn_born (by decide), Lib.run_reaches (by decide), Lib.run_reaches (by decide)⟩

end TCPSession

end NetCore
