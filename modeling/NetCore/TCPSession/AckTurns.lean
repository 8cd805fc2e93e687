import NetCore.TCPSession.PassOn

/-!
# Changes of state behind an acknowledgement

SYN_RCVED, FIN_WAIT1, CLOSING and LAST_ACK are left when the SYN or the FIN has been acknowledged.
The session does not look at the number: any acknowledgement that is not old will do.  So each of
these changes is justified as long as the packets acknowledge, in these states, exactly the number
behind the SYN or the FIN, and nothing is numbered behind the FIN.
-/

namespace NetCore

namespace TracePoint

/-- The changes of state that an acknowledgement of the SYN or the FIN stands for.  CLOSED is
    entered from LAST_ACK for other reasons, too, and looked at apart. -/
def answers : TracePoint → Bool
  | .switched .synRcved .established | .switched .finWait1 .finWait2
  | .switched .finWait1 .timeWait | .switched .closing .timeWait => true
  | _ => false

def endNumber : TracePoint → Option U32
  | .pushed d => if d.hasFlag (FIN ||| SYN) then some (d.mSeq + 1) else none
  | _ => none

/-- Everything but the changes of state above. -/
def calm (p : TracePoint) : Bool := !p.answers

end TracePoint

namespace TCPSession

variable {τ : Type}

def endNumber (s : TCPSession τ) : U32 :=
  (s.trace.filterMap TracePoint.endNumber).getLast?.getD 0

def FinAcked (s : TCPSession τ) : Prop := s.mState = .finWait2 ∨ s.mState = .timeWait

instance (s : TCPSession τ) : Decidable s.FinAcked := inferInstanceAs (Decidable (_ ∨ _))

def EndsMeet (s : TCPSession τ) : Prop := s.FinAcked → s.mLocalNext = s.mLocalSeq

/-- What is to hold of a packet that takes `s` to `t`, the number behind the last SYN or FIN being
    `edge`. -/
structure Answered (edge : U32) (ip : Packet) (s t : TCPSession τ) : Prop where
  turns : Records TracePoint.calm s t ∨ s.relativeAck ip = edge
  closed : ip.Plain → s.mState = .lastAck → t.mState = .closed → s.relativeAck ip = edge
  crossed : NetCore.hasFlag ip.flag SYN = false → NetCore.hasFlag ip.flag FIN →
    s.mState = .finWait1 → s.relativeAck ip ≠ edge → t.mState = .closing

def Justified (s : TCPSession τ) (e : Event τ) (t : TCPSession τ) : Prop :=
  t.EndsMeet ∧
    match e with
    | .accept ip => Answered s.endNumber ip s t
    | _ => Records TracePoint.calm s t

/-! ## What an event must find -/

/-- A segment without SYN, FIN and RST whose acknowledgement is taken. -/
def AckCovers (edge : U32) (ip : Packet) (s : TCPSession τ) : Prop :=
  match s.mState with
  | .synRcved | .lastAck => s.relativeAck ip = edge
  | .finWait1 | .closing => s.relativeAck ip = edge ∧ s.relativeAck ip = s.mLocalSeq
  | .finWait2 | .timeWait => s.relativeAck ip = s.mLocalNext
  | _ => True

/-- A FIN, whose acknowledgement is taken if it is not old. -/
def FinCovers (edge : U32) (ip : Packet) (s : TCPSession τ) : Prop :=
  match s.mState with
  | .finWait1 =>
      if s.mLocalNext ≤ s.relativeAck ip then
        s.relativeAck ip = edge ∧ s.relativeAck ip = s.mLocalSeq
      else s.mLocalNext ≤ s.mLocalSeq
  | .finWait2 | .timeWait => s.relativeAck ip ≤ s.mLocalNext
  | _ => True

def PacketCovers (edge : U32) (ip : Packet) (s : TCPSession τ) : Prop :=
  if NetCore.hasFlag ip.flag SYN then True
  else if NetCore.hasFlag ip.flag FIN then s.FinCovers edge ip
  else NetCore.hasFlag ip.flag RST = false → s.mLocalNext ≤ s.relativeAck ip →
    s.AckCovers edge ip

/-- The acknowledgements are those of the SYN and the FIN where they count, and the tunnel brings no
    data behind the acknowledged FIN. -/
def Covers (s : TCPSession τ) : Event τ → Prop
  | .accept ip => s.PacketCovers s.endNumber ip
  | .tunnelDataBack data => s.FinAcked → data = []
  | _ => True

instance (edge : U32) (ip : Packet) (s : TCPSession τ) : Decidable (s.AckCovers edge ip) := by
  unfold AckCovers
  split <;> infer_instance

instance (edge : U32) (ip : Packet) (s : TCPSession τ) : Decidable (s.FinCovers edge ip) := by
  unfold FinCovers
  split <;> infer_instance

instance (edge : U32) (ip : Packet) (s : TCPSession τ) : Decidable (s.PacketCovers edge ip) := by
  unfold PacketCovers
  infer_instance

instance (s : TCPSession τ) : ∀ e, Decidable (s.Covers e)
  | .accept _ => inferInstanceAs (Decidable (PacketCovers _ _ _))
  | .tunnelDataBack _ => inferInstanceAs (Decidable (_ → _))
  | .tunnelConnected | .tunnelDisconnected _ | .tunnelWritable | .written _ _
  | .environment _ _ _ => inferInstanceAs (Decidable True)

/-! ## Calls that answer nothing -/

-- No change of state behind an acknowledgement, and nothing new where the FIN is acknowledged.
structure Calm (s t : TCPSession τ) : Prop where
  trace : Records TracePoint.calm s t
  same : t.FinAcked →
    t.mState = s.mState ∧ t.mLocalNext = s.mLocalNext ∧ t.mLocalSeq = s.mLocalSeq

variable {s t u : TCPSession τ}

theorem Calm.trans (h : Calm s t) (h' : Calm t u) : Calm s u where
  trace := h.trace.trans h'.trace
  same hacked := by
    obtain ⟨hstate, hnext, hseq⟩ := h'.same hacked
    have hacked' : t.FinAcked := by
      unfold FinAcked at hacked ⊢
      rw [← hstate]
      exact hacked
    obtain ⟨hstate', hnext', hseq'⟩ := h.same hacked'
    exact ⟨hstate.trans hstate', hnext.trans hnext', hseq.trans hseq'⟩

theorem Calm.of_records {kind : TracePoint → Bool} (htrace : Records kind s t)
    (hkind : ∀ p, kind p → p.calm) (hstate : t.mState = s.mState)
    (hnext : t.mLocalNext = s.mLocalNext) (hseq : t.mLocalSeq = s.mLocalSeq) : Calm s t :=
  ⟨htrace.mono hkind, fun _ => ⟨hstate, hnext, hseq⟩⟩

theorem Calm.inert (h : Inert s t) : Calm s t :=
  .of_records h.trace (fun p hp => by cases p <;> first | rfl | cases hp) h.state h.localNext
    h.localSeq

theorem Calm.refl (s : TCPSession τ) : Calm s s := .inert (.refl s)

theorem Calm.endsMeet (h : Calm s t) (hs : s.EndsMeet) : t.EndsMeet := by
  intro hacked
  obtain ⟨hstate, hnext, hseq⟩ := h.same hacked
  rw [hnext, hseq]
  apply hs
  unfold FinAcked at hacked ⊢
  rw [← hstate]
  exact hacked

theorem popAcked_calm (s : TCPSession τ) : Calm s s.popAcked :=
  .of_records (popAcked_records s) (fun p hp => by cases p <;> first | rfl | cases hp)
    (popAcked_mState s) (popAcked_frame s).localNext (popAcked_mLocalSeq s)

variable [ITunnel τ]

theorem switchState_calmly {state : TCPState} (s : TCPSession τ)
    (hpoint : (TracePoint.switched s.mState state).calm) :
    Records TracePoint.calm s (s.switchState state) := by
  by_cases hsame : s.mState = state
  · rw [switchState, if_pos hsame]
    exact .of_eq rfl
  · obtain ⟨info, htrace⟩ := switchState_trace hsame
    refine ⟨_, htrace, ?_⟩
    intro p hp
    simp only [List.mem_cons, List.not_mem_nil, or_false] at hp
    rcases hp with rfl | rfl
    · exact hpoint
    · rfl

theorem switchState_calm {state : TCPState} (s : TCPSession τ)
    (hpoint : (TracePoint.switched s.mState state).calm)
    (hstate : state ≠ .finWait2 ∧ state ≠ .timeWait) : Calm s (s.switchState state) := by
  refine ⟨switchState_calmly s hpoint, fun hacked => ?_⟩
  unfold FinAcked at hacked
  rw [switchState_mState] at hacked
  exact (hacked.elim hstate.1 hstate.2).elim

theorem calm_closed (s : TCPSession τ) : Calm s (s.switchState .closed) := by
  refine switchState_calm s ?_ (by decide)
  cases s.mState <;> rfl

theorem resetConnection_calm (s : TCPSession τ) : Calm s s.resetConnection := by
  have hsent : Records TracePoint.calm s s.rstSent := by
    refine Records.trans ?_ (emit_records (by simp [TracePoint.calm, TracePoint.answers]) _)
    refine Records.trans ?_ (emit_records (by simp [packagePoints, TracePoint.calm,
      TracePoint.answers]) _)
    exact .of_eq rfl
  rw [resetConnection_eq]
  refine ⟨hsent.trans (calm_closed s.rstSent).trace, fun hacked => ?_⟩
  unfold FinAcked at hacked
  rw [switchState_mState] at hacked
  rcases hacked with hacked | hacked <;> cases hacked

theorem sendBackData_calm (hsound : s.BackSound) : Calm s s.sendBackData := by
  rcases sendBackData_cases hsound with ⟨_, _, -, -, heq⟩ | ⟨d, rest, -, -, -, heq⟩ | ⟨-, heq⟩
  · rw [heq]
    exact resetConnection_calm s
  · rw [heq]
    refine Calm.trans ?_ (.inert (resumeIfRoom_inert _))
    exact .of_records (sentFront_records d rest s)
      (fun p hp => by cases p <;> first | rfl | cases hp) rfl rfl rfl
  · rw [heq]
    exact .inert (resumeIfRoom_inert s)

-- A pure ACK takes no number; data does, but not where the FIN is acknowledged.
theorem push_calm (hsound : s.BackSound) {data : Bytes} (hdata : data.length ≤ TCP_IP_PAYLOAD_SIZE)
    (hnone : s.FinAcked → data = []) : Calm s (pushInBackQueue ACK data s).2 := by
  by_cases hle : s.mLocalNext ≤ s.mLocalSeq
  · have hsent : Calm (s.enqueueBack ACK data) (pushInBackQueue ACK data s).2 := by
      rw [pushInBackQueue_of_le hle]
      exact (popAcked_calm _).trans
        (sendBackData_calm (popAcked_sound (enqueueBack_sound hsound ACK hdata)))
    refine ⟨Records.trans ?_ hsent.trace, fun hacked => ?_⟩
    · exact ⟨_, enqueueBack_trace ACK data s, by simp [TracePoint.calm, TracePoint.answers]⟩
    · obtain ⟨hstate, hnext, hseq⟩ := hsent.same hacked
      rw [enqueueBack_mState] at hstate
      refine ⟨hstate, hnext, ?_⟩
      have hempty : data = [] := by
        apply hnone
        unfold FinAcked at hacked ⊢
        rw [← hstate]
        exact hacked
      rw [hseq, enqueueBack_mLocalSeq, newSegment_seqLen, if_neg (by decide), hempty]
      exact BitVec.add_zero s.mLocalSeq
  · rw [push_refused_eq hle]
    exact ⟨emit_records (by simp [TracePoint.calm, TracePoint.answers]) s,
      fun _ => ⟨rfl, rfl, rfl⟩⟩

theorem pushACK_calm (hsound : s.BackSound) : Calm s (pushInBackQueue ACK [] s).2 := by
  have hempty : ([] : Bytes).length ≤ TCP_IP_PAYLOAD_SIZE := Nat.zero_le _
  exact push_calm hsound hempty fun _ => rfl

-- A flush may number a FIN, but then it leaves for a state in which that is not acknowledged.
theorem flush_calm (hsound : s.BackSound) : Calm s s.flushBackQueue := by
  have hpop := popAcked_calm s
  have hsound' := popAcked_sound hsound
  by_cases hfin : s.popAcked.FinDue
  · by_cases hle : s.mLocalNext ≤ s.mLocalSeq
    · rw [flushBackQueue_fin hfin hle]
      have hpushed : Records TracePoint.calm s.popAcked
          (s.popAcked.enqueueBack (FIN ||| ACK) []).sendBackData :=
        Records.trans ⟨_, enqueueBack_trace (FIN ||| ACK) [] s.popAcked, by
            simp [TracePoint.calm, TracePoint.answers]⟩
          (sendBackData_calm (enqueueBare_sound hsound' _)).trace
      generalize (s.popAcked.enqueueBack (FIN ||| ACK) []).sendBackData = v at hpushed
      have hleft : Calm v v.leave := by
        unfold leave
        split
        next hstate =>
          refine switchState_calm v ?_ (by decide)
          rw [hstate]
          rfl
        next =>
          refine switchState_calm v ?_ (by decide)
          cases v.mState <;> rfl
      refine ⟨(hpop.trace.trans hpushed).trans hleft.trace, fun hacked => ?_⟩
      unfold FinAcked leave at hacked
      rw [switchState_mState] at hacked
      split at hacked <;> rcases hacked with hacked | hacked <;> cases hacked
    · rw [flushBackQueue_fin_refused hfin (by bv_omega)]
      exact hpop.trans ⟨emit_records (by simp [TracePoint.calm, TracePoint.answers]) _,
        fun _ => ⟨rfl, rfl, rfl⟩⟩
  · rw [flushBackQueue_of_not_finDue hfin]
    exact hpop.trans (sendBackData_calm hsound')

theorem pushThenFlush_calm (hsound : s.BackSound) :
    Calm s (pushInBackQueue ACK [] s).2.flushBackQueue :=
  (pushACK_calm hsound).trans (flush_calm (pushACK_sound hsound))

/-! ## Packets -/

theorem acceptPayload_calm (hsound : s.BackSound) (ip : Packet) : Calm s (acceptPayload ip s) := by
  have huploaded : Calm s (s.uploaded ip) := .inert (Steady.uploaded_inert ip s)
  rcases acceptPayload_cases ip s with ⟨-, heq⟩ | ⟨-, -, heq⟩ | ⟨-, heq⟩
  · rw [heq]
    exact huploaded.trans (pushACK_calm hsound)
  · rw [heq]
    exact pushThenFlush_calm hsound
  · rw [heq]
    exact flush_calm hsound

theorem acceptFirstPayload_calm (hsound : s.BackSound) (ip : Packet) :
    Calm s (acceptFirstPayload ip s) := by
  have huploaded : Calm s (s.uploaded ip) := .inert (Steady.uploaded_inert ip s)
  rcases acceptFirstPayload_cases ip s with ⟨-, heq⟩ | ⟨-, -, heq⟩ | ⟨-, heq⟩
  · rw [heq]
    exact huploaded.trans (flush_calm hsound)
  · rw [heq]
    exact pushThenFlush_calm hsound
  · rw [heq]
    exact flush_calm hsound

-- Behind a change of state `s.FinAcked` speaks about the new state.
theorem switchState_endsMeet {state : TCPState}
    (h : state = .finWait2 ∨ state = .timeWait → s.mLocalNext = s.mLocalSeq) :
    (s.switchState state).EndsMeet := by
  intro hacked
  unfold FinAcked at hacked
  rw [switchState_mState] at hacked
  rw [(switchState_frame state s).localNext, switchState_mLocalSeq]
  exact h hacked

omit [ITunnel τ] in
-- The packet acknowledges the SYN or the FIN, and the states are no matter.
theorem Answered.of_covered {edge : U32} {ip : Packet} (h : s.relativeAck ip = edge) :
    Answered edge ip s t :=
  ⟨.inr h, fun _ _ _ => h, fun _ _ _ hne => absurd h hne⟩

omit [ITunnel τ] in
theorem Answered.of_calm {edge : U32} {ip : Packet} (h : Records TracePoint.calm s t)
    (hclosed : ip.Plain → s.mState = .lastAck → t.mState = .closed → s.relativeAck ip = edge)
    (hcrossed : NetCore.hasFlag ip.flag SYN = false → NetCore.hasFlag ip.flag FIN →
      s.mState ≠ .finWait1) : Answered edge ip s t :=
  ⟨.inl h, hclosed, fun hsyn hfin hstate _ => absurd hstate (hcrossed hsyn hfin)⟩

theorem onReceiveACK_answered {edge : U32} {ip : Packet} (hsound : s.BackSound)
    (hends : s.EndsMeet) (hplain : ip.Plain) (hcovers : s.AckCovers edge ip)
    (h : onReceiveACK ip (s.acknowledged ip) = some t) :
    t.EndsMeet ∧ Answered edge ip s t := by
  let a := s.acknowledged ip
  have ha : a.BackSound := hsound
  have hcross : NetCore.hasFlag ip.flag SYN = false → NetCore.hasFlag ip.flag FIN →
      s.mState ≠ .finWait1 := fun _ hfin => absurd hfin (Bool.eq_false_iff.mp hplain.2.1)
  -- the flush of a state in which no FIN is acknowledged, or which has everything acknowledged
  have hswitched {state : TCPState}
      (hmeet : state = .finWait2 ∨ state = .timeWait → s.relativeAck ip = s.mLocalSeq) :
      (a.switchState state).flushBackQueue.EndsMeet :=
    (flush_calm (switchState_sound ha)).endsMeet (switchState_endsMeet hmeet)
  unfold AckCovers at hcovers
  rcases onReceiveACK_cases h with ⟨hstate, heq⟩ | ⟨hstate, heq⟩ | ⟨hstate, heq⟩ |
    ⟨hstate, heq⟩ | ⟨hstate, heq⟩ | ⟨hsyn, hfin1, hlast, hclosing, hestablished, heq⟩
  · rw [show s.mState = .synRcved from hstate] at hcovers
    rw [heq]
    refine ⟨?_, .of_covered hcovers⟩
    apply (acceptFirstPayload_calm (switchState_sound ha) ip).endsMeet
    apply switchState_endsMeet
    rintro (hstate | hstate) <;> cases hstate
  · rw [show s.mState = .finWait1 from hstate] at hcovers
    rw [heq]
    exact ⟨hswitched fun _ => hcovers.2, .of_covered hcovers.1⟩
  · rw [show s.mState = .lastAck from hstate] at hcovers
    rw [heq]
    refine ⟨hswitched ?_, .of_covered hcovers⟩
    rintro (hstate | hstate) <;> cases hstate
  · rw [show s.mState = .closing from hstate] at hcovers
    rw [heq]
    exact ⟨hswitched fun _ => hcovers.2, .of_covered hcovers.1⟩
  · rw [heq]
    have hcalm : Calm a (acceptPayload ip a) := acceptPayload_calm ha ip
    refine ⟨hcalm.endsMeet fun hacked => ?_, .of_calm ?_ ?_ hcross⟩
    · unfold FinAcked at hacked
      rw [hstate] at hacked
      rcases hacked with hacked | hacked <;> cases hacked
    · exact hcalm.trace
    · intro _ hlast
      rw [show s.mState = .established from hstate] at hlast
      cases hlast
  · rw [heq]
    have hcalm : Calm a a.flushBackQueue := flush_calm ha
    refine ⟨hcalm.endsMeet fun hacked => ?_, .of_calm hcalm.trace ?_ hcross⟩
    · -- where the FIN is acknowledged the edge does not move
      have hsame : s.relativeAck ip = s.mLocalNext := by
        rcases hacked with hstate | hstate
        · rw [show s.mState = .finWait2 from hstate] at hcovers
          exact hcovers
        · rw [show s.mState = .timeWait from hstate] at hcovers
          exact hcovers
      exact hsame.trans (hends hacked)
    · exact fun _ hstate => absurd hstate hlast

-- A reset brings `mLocalSeq` back to the edge.
theorem sendBackData_meets (hsound : s.BackSound) (h : s.mLocalNext = s.mLocalSeq) :
    s.sendBackData.mLocalNext = s.sendBackData.mLocalSeq := by
  rw [(sendBackData_frame s).localNext]
  rcases sendBackData_cases hsound with ⟨_, _, -, -, heq⟩ | ⟨d, rest, -, -, -, heq⟩ | ⟨-, heq⟩
  · rw [heq, resetConnection_eq, switchState_mLocalSeq]
    rfl
  · rw [heq, (resumeIfRoom_inert _).localSeq]
    exact h
  · rw [heq, (resumeIfRoom_inert _).localSeq]
    exact h

theorem pushACK_meets (hsound : s.BackSound) (h : s.mLocalNext = s.mLocalSeq) :
    (pushInBackQueue ACK [] s).2.mLocalNext = (pushInBackQueue ACK [] s).2.mLocalSeq := by
  have hle : s.mLocalNext ≤ s.mLocalSeq := by
    rw [h]
    exact BitVec.le_refl _
  rw [pushInBackQueue_of_le hle]
  apply sendBackData_meets (popAcked_sound (enqueueBare_sound hsound ACK))
  rw [(popAcked_frame _).localNext, popAcked_mLocalSeq, enqueueBack_mLocalNext, enqueueBack_mLocalSeq,
    newSegment_seqLen, if_neg (by decide), h]
  exact (BitVec.add_zero _).symm

omit [ITunnel τ] in
-- Where the FIN is acknowledged an acknowledgement in order moves nothing.
theorem finNumbered_endsMeet {edge : U32} {ip : Packet} (hends : s.EndsMeet)
    (hcovers : s.FinCovers edge ip) : (s.finNumbered ip).EndsMeet := by
  intro hacked
  have hmeet := hends hacked
  have hle : s.relativeAck ip ≤ s.mLocalNext := by
    unfold FinCovers at hcovers
    rcases hacked with hstate | hstate
    · rw [show s.mState = .finWait2 from hstate] at hcovers
      exact hcovers
    · rw [show s.mState = .timeWait from hstate] at hcovers
      exact hcovers
  show (if s.mLocalNext ≤ s.relativeAck ip then s.relativeAck ip else s.mLocalNext) = s.mLocalSeq
  split
  · bv_omega
  · exact hmeet

omit [ITunnel τ] in
-- In FIN_WAIT1 the acknowledgement is the one of the FIN, or old, and the push is not refused.
theorem finCovers_finWait1 {edge : U32} {ip : Packet} (hstate : s.mState = .finWait1)
    (hcovers : s.FinCovers edge ip) :
    (s.mLocalNext ≤ s.relativeAck ip ∧ s.relativeAck ip = edge ∧
      (s.finNumbered ip).mLocalNext = s.mLocalSeq) ∨
    (¬ s.mLocalNext ≤ s.relativeAck ip ∧ (s.finNumbered ip).mLocalNext ≤ s.mLocalSeq) := by
  unfold FinCovers at hcovers
  rw [hstate] at hcovers
  simp only at hcovers
  have hnext : (s.finNumbered ip).mLocalNext =
      if s.mLocalNext ≤ s.relativeAck ip then s.relativeAck ip else s.mLocalNext := rfl
  rw [hnext]
  by_cases hnew : s.mLocalNext ≤ s.relativeAck ip
  · rw [if_pos hnew] at hcovers ⊢
    exact .inl ⟨hnew, hcovers.1, hcovers.2⟩
  · rw [if_neg hnew] at hcovers ⊢
    exact .inr ⟨hnew, hcovers⟩

theorem onReceiveFIN_answered {edge : U32} {ip : Packet} (hsound : s.BackSound)
    (hends : s.EndsMeet) (hfin : NetCore.hasFlag ip.flag FIN) (hcovers : s.FinCovers edge ip) :
    (onReceiveFIN ip s).EndsMeet ∧ Answered edge ip s (onReceiveFIN ip s) := by
  let f := s.finNumbered ip
  have hf : f.BackSound := hsound
  have hmeets : f.EndsMeet := finNumbered_endsMeet hends hcovers
  have hpush : Calm f (pushInBackQueue ACK [] f).2 := pushACK_calm hf
  have hempty : ([] : Bytes).length ≤ TCP_IP_PAYLOAD_SIZE := Nat.zero_le _
  have hstates := pushInBackQueue_mState hf ACK hempty
  have hplain : ¬ ip.Plain := fun hplain => absurd hfin (Bool.eq_false_iff.mp hplain.2.1)
  by_cases hmoves : s.FinMoves
  · by_cases hle : (s.finNumbered ip).mLocalNext ≤ s.mLocalSeq
    · have hstate' := s.finState ip
      rw [onReceiveFIN_moves hle hmoves]
      -- what the change of state records is read off the state the push leaves
      have hturned {state : TCPState} (hcalm : (TracePoint.switched s.mState state).calm)
          (hcalm' : (TracePoint.switched .closed state).calm) :
          Records TracePoint.calm s ((pushInBackQueue ACK [] f).2.switchState state) := by
        refine Records.trans hpush.trace (switchState_calmly _ ?_)
        rcases hstates with hsame | hclosed
        · rw [hsame]
          exact hcalm
        · rw [hclosed]
          exact hcalm'
      rcases hmoves with hstate | hstate | hstate
      · have hto : s.finState ip = .closeWait := by
          unfold finState
          rw [hstate]
        rw [hto]
        refine ⟨switchState_endsMeet ?_, .of_calm (hturned ?_ rfl) ?_ ?_⟩
        · rintro (hstate | hstate) <;> cases hstate
        · rw [hstate]
          rfl
        · exact fun hplain' => absurd hplain' hplain
        · intro _ _ hwait
          rw [hstate] at hwait
          cases hwait
      · rcases finCovers_finWait1 hstate hcovers with ⟨hnew, hedge, hmeet⟩ | ⟨hold, -⟩
        · -- the FIN is acknowledged together with the other one
          refine ⟨switchState_endsMeet fun _ => pushACK_meets hf hmeet, .of_covered hedge⟩
        · have hto : s.finState ip = .closing := by
            unfold finState
            rw [hstate]
            exact if_neg hold
          rw [hto]
          refine ⟨switchState_endsMeet ?_, .inl (hturned ?_ rfl), ?_, ?_⟩
          · rintro (hstate | hstate) <;> cases hstate
          · rw [hstate]
            rfl
          · exact fun hplain' => absurd hplain' hplain
          · exact fun _ _ _ _ => switchState_mState _ _
      · have hto : s.finState ip = .timeWait := by
          unfold finState
          rw [hstate]
        rw [hto]
        refine ⟨switchState_endsMeet fun _ => pushACK_meets hf (hmeets (.inl hstate)),
          .of_calm (hturned ?_ rfl) ?_ ?_⟩
        · rw [hstate]
          rfl
        · exact fun hplain' => absurd hplain' hplain
        · intro _ _ hwait
          rw [hstate] at hwait
          cases hwait
    · have hnot : s.mState ≠ .finWait1 := by
        intro hstate
        rcases finCovers_finWait1 hstate hcovers with ⟨-, -, hmeet⟩ | ⟨-, hle'⟩
        · bv_omega
        · exact hle hle'
      have hrefused : Calm f (f.emit [.refused ACK]) :=
        ⟨emit_records (by simp [TracePoint.calm, TracePoint.answers]) f, fun _ => ⟨rfl, rfl, rfl⟩⟩
      rw [onReceiveFIN_refused (by bv_omega)]
      refine ⟨hrefused.endsMeet hmeets, .of_calm hrefused.trace ?_ ?_⟩
      · exact fun hplain' => absurd hplain' hplain
      · exact fun _ _ => hnot
  · rw [onReceiveFIN_stays hmoves]
    have hnot : s.mState ≠ .finWait1 := fun hstate => hmoves (.inr (.inl hstate))
    refine ⟨hpush.endsMeet hmeets, .of_calm hpush.trace ?_ ?_⟩
    · exact fun hplain' => absurd hplain' hplain
    · exact fun _ _ => hnot

theorem accepted_answered {edge : U32} {ip : Packet} (hsound : s.BackSound) (hends : s.EndsMeet)
    (hcovers : s.PacketCovers edge ip) (h : Accepted ip s t) :
    t.EndsMeet ∧ Answered edge ip s t := by
  unfold PacketCovers at hcovers
  cases h with
  | syn hsyn =>
    refine ⟨(flush_calm hsound).endsMeet hends, .of_calm (flush_calm hsound).trace ?_ ?_⟩
    · exact fun hplain => absurd hsyn (Bool.eq_false_iff.mp hplain.1)
    · exact fun hno => absurd hsyn (Bool.eq_false_iff.mp hno)
  | fin hsyn hfin =>
    rw [if_neg (Bool.eq_false_iff.mp hsyn), if_pos hfin] at hcovers
    exact onReceiveFIN_answered hsound hends hfin hcovers
  | rst hsyn hfin hrst =>
    refine ⟨(calm_closed s).endsMeet hends, .of_calm (calm_closed s).trace ?_ ?_⟩
    · exact fun hplain => absurd hrst (Bool.eq_false_iff.mp hplain.2.2)
    · exact fun _ hyes => absurd hyes (Bool.eq_false_iff.mp hfin)
  | stale tunnel hplain hold =>
    refine ⟨hends, .of_calm (.of_eq rfl) ?_ ?_⟩
    · intro _ hstate hclosed
      rw [show s.mState = .closed from hclosed] at hstate
      cases hstate
    · exact fun _ hyes => absurd hyes (Bool.eq_false_iff.mp hplain.2.1)
  | ack hplain hnew hack =>
    rw [if_neg (Bool.eq_false_iff.mp hplain.1), if_neg (Bool.eq_false_iff.mp hplain.2.1)] at hcovers
    exact onReceiveACK_answered hsound hends hplain (hcovers hplain.2.2 hnew) hack

theorem accept_answered {ip : Packet} (hopened : s.Opened) (hends : s.EndsMeet)
    (hcovers : s.PacketCovers s.endNumber ip) (h : accept ip s = some t) :
    t.EndsMeet ∧ Answered s.endNumber ip s t := by
  generalize s.endNumber = edge at hcovers ⊢
  obtain ⟨u, hu, rfl⟩ := accept_accepted hopened.2 h
  have hcounted := (Calm.inert (countAccepted_inert ip s)).trace
  obtain ⟨total, trace, heq⟩ := countAccepted_eq ip s
  rw [heq] at hu hcounted
  generalize hc : ({ s with mTotalAccept := total, trace := trace } : TCPSession τ) = c at hu hcounted
  have hsound : c.BackSound := hc ▸ hopened.1
  have hends' : c.EndsMeet := hc ▸ hends
  have hcovers' : c.PacketCovers edge ip := hc ▸ hcovers
  obtain ⟨hmeet, hturns, hclosed, hcrossed⟩ := accepted_answered hsound hends' hcovers' hu
  subst hc
  exact ⟨hmeet, hturns.imp_left fun hcalm => hcounted.trans hcalm, hclosed, hcrossed⟩

/-! ## Steps and runs -/

theorem onRemoteFinished_calm (hsound : s.BackSound) : Calm s s.onRemoteFinished := by
  have hsound' : BackSound { s with mRemoteFinished := true } := hsound
  obtain ⟨htrace, hsame⟩ := flush_calm hsound'
  exact ⟨htrace, hsame⟩

theorem onTunnelDisconnected_calm (hsound : s.BackSound) (reason : U8) :
    Calm s (s.onTunnelDisconnected reason) := by
  have hfinished := onRemoteFinished_calm hsound
  unfold onTunnelDisconnected
  split
  · exact hfinished
  · exact hfinished
  · exact calm_closed s
  · exact calm_closed s
  · exact calm_closed s
  · exact calm_closed s
  · exact resetConnection_calm s

-- Data is numbered, but not where the FIN is acknowledged.
theorem relayLoop_calm (fuel : Nat) {data : Bytes} (hsound : s.BackSound)
    (hnone : s.FinAcked → data = []) : Calm s (relayLoop fuel data s).2 := by
  induction fuel generalizing data s with
  | zero => exact .refl s
  | succ fuel ih =>
    have htake : (data.take TCP_IP_PAYLOAD_SIZE).length ≤ TCP_IP_PAYLOAD_SIZE :=
      List.length_take_le _ _
    have hpush : Calm s (pushInBackQueue ACK (data.take TCP_IP_PAYLOAD_SIZE) s).2 :=
      push_calm hsound htake fun hacked => by rw [hnone hacked, List.take_nil]
    unfold relayLoop
    split
    · exact .refl s
    · split
      next heq =>
        rw [heq] at hpush
        exact hpush
      next heq =>
        rw [heq] at hpush
        have hsound' := push_sound hsound htake
        rw [heq] at hsound'
        refine hpush.trans (ih hsound' fun hacked => ?_)
        have hacked' : s.FinAcked := by
          unfold FinAcked at hacked ⊢
          rw [← (hpush.same hacked).1]
          exact hacked
        rw [hnone hacked', List.drop_nil]

theorem onTunnelDataBack_calm {data : Bytes} (hsound : s.BackSound)
    (hnone : s.FinAcked → data = []) : Calm s (s.onTunnelDataBack data) := by
  unfold onTunnelDataBack
  split
  · have hsound' : BackSound { s with mTunnel := ITunnel.pauseReceiveData s.mTunnel } := hsound
    have hflushed := (onRemoteFinished_calm hsound').trans (.inert (noteTime_inert _))
    exact ⟨hflushed.trace, hflushed.same⟩
  · have hrelayed := relayLoop_calm data.length hsound hnone
    simp only
    generalize relayLoop data.length data s = r at hrelayed
    have hcounted := countRecv_inert r.1 r.2
    exact hrelayed.trans (.inert ((hcounted.trans (pauseIfFull_inert _)).trans (noteTime_inert _)))

theorem onTunnelWritable_calm (hsound : s.BackSound) : Calm s s.onTunnelWritable := by
  rcases onTunnelWritable_cases s with hinert | ⟨-, reason, n, -, heq⟩
  · exact .inert hinert
  · have hdrained : Calm s s.drained := .inert (drained_inert s)
    have hsound' : s.drained.BackSound := hsound
    rw [heq]
    exact (hdrained.trans (onTunnelDisconnected_calm hsound' reason)).trans
      (.inert (countSent_inert n _))

theorem step_justified {e : Event τ} (hopened : s.Opened) (hends : s.EndsMeet)
    (hcovers : s.Covers e) (hstep : step s e = some t) : Justified s e t := by
  have hcalm (h : Calm s t) : t.EndsMeet ∧ Records TracePoint.calm s t := ⟨h.endsMeet hends, h.trace⟩
  cases e with
  | accept ip => exact accept_answered hopened hends hcovers hstep
  | tunnelConnected =>
    cases hstep
    exact hcalm (.refl s)
  | tunnelDisconnected reason =>
    cases hstep
    exact hcalm (onTunnelDisconnected_calm hopened.1 reason)
  | tunnelWritable =>
    cases hstep
    exact hcalm (onTunnelWritable_calm hopened.1)
  | tunnelDataBack data =>
    cases hstep
    exact hcalm (onTunnelDataBack_calm hopened.1 hcovers)
  | written i n =>
    cases hstep
    exact ⟨hends, .of_eq rfl⟩
  | environment tunnel now rand =>
    cases hstep
    exact ⟨hends, .of_eq rfl⟩

/-- In a run whose acknowledgements are in order every change of state that stands for the
    acknowledgement of the SYN or the FIN is brought about by that acknowledgement, FIN_WAIT2 and
    TIME_WAIT have nothing left to be acknowledged, and a FIN that crosses ours leads to CLOSING. -/
theorem turns_justified {s : TCPSession τ} {es : List (Event τ)} (hborn : s.Born)
    (hcovers : Lib.Along step Covers s es) :
    Lib.Along step (fun s e => ∀ t, step s e = some t → Justified s e t) s es := by
  have hnewborn := hborn.newborn
  have hends : s.EndsMeet := by
    intro hacked
    unfold FinAcked at hacked
    rw [hnewborn.state] at hacked
    rcases hacked with hacked | hacked <;> cases hacked
  refine Lib.Along.steps (fun s => s.Opened ∧ s.EndsMeet) ?_ ⟨hnewborn.opened, hends⟩ hcovers
  rintro s e t ⟨hopened, hends⟩ hcond hstep
  have hjustified := step_justified hopened hends hcond hstep
  exact ⟨⟨step_opened hopened hstep, hjustified.1⟩, hjustified⟩

theorem turns_justified_sample :
    Lib.Along step (fun (s : TCPSession TCPTunnel) e => ∀ t, step s e = some t → Justified s e t)
      (sampleBorn sampleTunnel)
      [.accept (samplePacket 101 1001 ACK [] (by decide)), .tunnelDisconnected 0,
        .accept (samplePacket 101 1002 (FIN ||| ACK) [] (by decide))] :=
  turns_justified (sampleBorn_born (by decide)) (by decide)

/-- An acknowledgement in front of the FIN leads to FIN_WAIT2, and a FIN that crosses it there to
    TIME_WAIT. -/
theorem fin_unacknowledged :
    (sampleBorn sampleTunnel).Born ∧
      (∃ s' : TCPSession TCPTunnel,
        Lib.run step (sampleBorn sampleTunnel)
          [.accept (samplePacket 101 1001 ACK [] (by decide)), .tunnelDisconnected 0,
            .accept (samplePacket 101 1001 ACK [] (by decide))] = some s' ∧
        s'.mState = .finWait2 ∧ s'.mLocalNext < s'.mLocalSeq) ∧
      ∃ s' : TCPSession TCPTunnel,
        Lib.run step (sampleBorn sampleTunnel)
          [.accept (samplePacket 101 1001 ACK [] (by decide)), .tunnelDisconnected 0,
            .accept (samplePacket 101 1001 (FIN ||| ACK) [] (by decide))] = some s' ∧
        s'.mState = .timeWait ∧ s'.mLocalNext < s'.mLocalSeq :=
  ⟨sampleBorn_born (by decide), Lib.run_reaches (by decide), Lib.run_reaches (by decide)⟩

end TCPSession

end NetCore
