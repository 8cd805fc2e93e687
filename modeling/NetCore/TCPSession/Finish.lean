import NetCore.Lib.Run
import NetCore.TCPSession.Birth

/-!
# The FIN

A flush numbers the FIN inside the push it nests, and the state that keeps it from numbering another
is set only when that push has returned.  The push finds a queue that is not empty, so there is no
second FIN, and behind the first one the session is in states it does not leave again.  What the
tunnel delivers once it has told its end would still be numbered.
-/

namespace NetCore

namespace TracePoint

def pushesFIN : TracePoint → Bool
  | .pushed d => d.hasFlag FIN
  | _ => false

def pushesPayload : TracePoint → Bool
  | .pushed d => 0 < d.mLength
  | _ => false

end TracePoint

-- A segment that takes no sequence number.
structure TCPDatagram.Bare (d : TCPDatagram) : Prop where
  payload : d.mLength = 0
  syn : d.hasFlag SYN = false
  fin : d.hasFlag FIN = false

namespace TCPSession

variable {τ : Type}

def PastFin (s : TCPSession τ) : Prop := s.mState ≠ .listen ∧ s.mState ≠ .synRcved ∧ ¬ s.MayFinish

-- What is so of a session that has recorded `after` since it pushed `fin`.
structure Behind (b : Nat) (fin : TCPDatagram) (after : List TracePoint) (s : TCPSession τ) :
    Prop where
  past : s.PastFin
  finished : s.mRemoteFinished
  spent : b = 0
  bare : ∀ d, .pushed d ∈ after → d.Bare
  numbered : .reset ∈ after ∨ s.mLocalSeq = fin.mSeq + 1

-- No FIN yet, or one that nothing has followed.
structure FinLast (b : Nat) (s : TCPSession τ) : Prop where
  budget : s.mRemoteFinished → b ≤ 1
  last : ∀ before fin after, s.trace = before ++ .pushed fin :: after → fin.hasFlag FIN →
    Behind b fin after s

-- What is recorded later comes behind what has been recorded.
theorem split_append {trace points before after : List TracePoint} {p : TracePoint}
    (h : trace ++ points = before ++ p :: after) (hp : p ∉ points) :
    ∃ between, trace = before ++ p :: between ∧ after = between ++ points := by
  rcases List.append_eq_append_iff.mp h with ⟨rest, -, hrest⟩ | ⟨rest, htrace, hrest⟩
  · exact absurd (hrest ▸ List.mem_append_right rest List.mem_cons_self) hp
  · cases rest with
    | nil =>
      rw [List.nil_append] at hrest
      exact absurd (hrest ▸ List.mem_cons_self) hp
    | cons q between =>
      cases hrest
      exact ⟨between, htrace, rfl⟩

def FinFree (s : TCPSession τ) : Prop := ∀ d, .pushed d ∈ s.trace → d.hasFlag FIN = false

theorem FinLast.finFree {b : Nat} {s : TCPSession τ} (h : FinLast b s) (hpast : ¬ s.PastFin) :
    s.FinFree := by
  intro d hd
  obtain ⟨before, after, htrace⟩ := List.append_of_mem hd
  refine Bool.eq_false_iff.mpr fun hfin => hpast ?_
  exact (h.last before d after htrace hfin).past

theorem FinFree.finLast {b : Nat} {s : TCPSession τ} (h : s.FinFree)
    (hbudget : s.mRemoteFinished → b ≤ 1) : FinLast b s := by
  refine ⟨hbudget, fun before fin after htrace hfin => ?_⟩
  have hmem : .pushed fin ∈ s.trace := htrace ▸ List.mem_append_right before List.mem_cons_self
  exact absurd hfin (Bool.eq_false_iff.mp (h fin hmem))

theorem FinFree.records {kind : TracePoint → Bool} {s s' : TCPSession τ} (h : s.FinFree)
    (htrace : Records kind s s') (hkind : ∀ d, kind (.pushed d) = false) : s'.FinFree :=
  fun d hd => h d ((htrace.mem_iff (hkind d)).mp hd)

-- What records no push changes nothing about the FIN.
theorem FinLast.more {b : Nat} {s s' : TCPSession τ} (h : FinLast b s) {points : List TracePoint}
    (htrace : s'.trace = s.trace ++ points) (hpoints : ∀ d, .pushed d ∉ points)
    (hpast : s.PastFin → s'.PastFin) (hfinished : s'.mRemoteFinished = s.mRemoteFinished)
    (hseq : .reset ∈ points ∨ s'.mLocalSeq = s.mLocalSeq) : FinLast b s' := by
  refine ⟨hfinished ▸ h.budget, fun before fin after hsplit hfin => ?_⟩
  rw [htrace] at hsplit
  obtain ⟨between, hs, rfl⟩ := split_append hsplit (hpoints fin)
  have hbehind := h.last before fin between hs hfin
  refine ⟨hpast hbehind.past, hfinished ▸ hbehind.finished, hbehind.spent, ?_, ?_⟩
  · intro d hd
    exact hbehind.bare d ((List.mem_append.mp hd).resolve_right (hpoints d))
  · rcases hbehind.numbered with hreset | hnumbered
    · exact .inl (List.mem_append_left points hreset)
    · rcases hseq with hreset | hseq
      · exact .inl (List.mem_append_right between hreset)
      · exact .inr (hseq.trans hnumbered)

theorem FinLast.records {b : Nat} {s s' : TCPSession τ} (h : FinLast b s)
    {kind : TracePoint → Bool} (htrace : Records kind s s') (hkind : ∀ d, kind (.pushed d) = false)
    (hpast : s.PastFin → s'.PastFin) (hfinished : s'.mRemoteFinished = s.mRemoteFinished)
    (hseq : s'.mLocalSeq = s.mLocalSeq) : FinLast b s' := by
  obtain ⟨points, heq, hpoints⟩ := htrace
  refine h.more heq (fun d hd => ?_) hpast hfinished (.inr hseq)
  exact Bool.false_ne_true ((hkind d).symm.trans (hpoints _ hd))

theorem pastFin_of_eq {s s' : TCPSession τ} (h : s'.mState = s.mState) : s.PastFin → s'.PastFin := by
  unfold PastFin MayFinish
  rw [h]
  exact id

variable [ITunnel τ]

theorem switchState_pastFin {state : TCPState} (s : TCPSession τ)
    (hstate : state ≠ .listen ∧ state ≠ .synRcved ∧ state ≠ .established ∧ state ≠ .closeWait) :
    (s.switchState state).PastFin := by
  unfold PastFin MayFinish
  rw [switchState_mState]
  exact ⟨hstate.1, hstate.2.1, not_or.mpr ⟨hstate.2.2.1, hstate.2.2.2⟩⟩

theorem FinLast.switchState {b : Nat} {s : TCPSession τ} (h : FinLast b s) {state : TCPState}
    (hpast : s.PastFin → (s.switchState state).PastFin) : FinLast b (s.switchState state) :=
  h.records (switchState_records state s) (fun _ => rfl) hpast
    (switchState_frame state s).remoteFinished (switchState_mLocalSeq state s)

theorem resetConnection_trace (s : TCPSession τ) :
    ∃ points, s.resetConnection.trace = s.trace ++ points ∧ .reset ∈ points ∧
      ∀ d, .pushed d ∉ points := by
  obtain ⟨t, hsent⟩ := s.rstSent_trace
  obtain ⟨later, hlater, hkind⟩ := switchState_records .closed s.rstSent
  rw [hsent, List.append_assoc] at hlater
  rw [resetConnection_eq]
  refine ⟨_, hlater, by simp, fun d hd => ?_⟩
  rcases List.mem_append.mp hd with hd | hd
  · simp [packagePoints] at hd
  · exact Bool.false_ne_true (hkind _ hd)

theorem FinLast.resetConnection {b : Nat} {s : TCPSession τ} (h : FinLast b s) :
    FinLast b s.resetConnection := by
  obtain ⟨points, htrace, hreset, hpoints⟩ := s.resetConnection_trace
  refine h.more htrace hpoints (fun _ => ?_) (resetConnection_frame s).remoteFinished (.inl hreset)
  rw [resetConnection_eq]
  exact switchState_pastFin _ (by decide)

-- What a flush records behind its FIN.
theorem sendBackData_more {s : TCPSession τ} (hsound : s.BackSound) :
    ∃ points, s.sendBackData.trace = s.trace ++ points ∧ (∀ d, .pushed d ∉ points) ∧
      (.reset ∈ points ∨ s.sendBackData.mLocalSeq = s.mLocalSeq) := by
  rcases sendBackData_cases hsound with ⟨_, _, -, -, heq⟩ | ⟨d, rest, -, -, -, heq⟩ | ⟨-, heq⟩
  · obtain ⟨points, htrace, hreset, hpoints⟩ := s.resetConnection_trace
    rw [heq]
    exact ⟨points, htrace, hpoints, .inl hreset⟩
  · rw [heq]
    refine ⟨packagePoints (handedOver d) s, ?_, by simp [packagePoints], .inr ?_⟩
    · rw [resumeIfRoom_trace]
      rfl
    · rw [(resumeIfRoom_inert _).localSeq]
      rfl
  · rw [heq]
    refine ⟨[], ?_, by simp, .inr (resumeIfRoom_inert s).localSeq⟩
    rw [resumeIfRoom_trace, List.append_nil]

theorem FinLast.sendBackData {b : Nat} {s : TCPSession τ} (h : FinLast b s) (hsound : s.BackSound) :
    FinLast b s.sendBackData := by
  obtain ⟨points, htrace, hpoints, hseq⟩ := sendBackData_more hsound
  refine h.more htrace hpoints ?_ (sendBackData_frame s).remoteFinished hseq
  rcases sendBackData_mState hsound with hsame | hclosed
  · exact pastFin_of_eq hsame
  · intro _
    unfold PastFin MayFinish
    rw [hclosed]
    decide

theorem newSegment_hasFlag (flag : U8) (data : Bytes) (s : TCPSession τ) (f : U8) :
    (s.newSegment flag data).hasFlag f = NetCore.hasFlag flag f := rfl

theorem newSegment_bare (s : TCPSession τ) : (s.newSegment ACK []).Bare where
  payload := rfl
  syn := by rw [newSegment_hasFlag]; decide
  fin := by rw [newSegment_hasFlag]; decide

-- Behind the FIN only a pure ACK can be numbered.
theorem FinLast.number {b : Nat} {s : TCPSession τ} {data : Bytes} (h : FinLast b s)
    (hb : data.length ≤ b) : FinLast (b - data.length) (s.enqueueBack ACK data) := by
  refine ⟨fun hfinished => ?_, fun before fin after hsplit hfin => ?_⟩
  · have hbudget := h.budget hfinished
    omega
  · rw [enqueueBack_trace] at hsplit
    have hother : .pushed fin ∉ [TracePoint.pushed (s.newSegment ACK data)] := by
      intro hmem
      cases List.mem_singleton.mp hmem
      exact absurd hfin (by rw [newSegment_hasFlag]; decide)
    obtain ⟨between, hs, rfl⟩ := split_append hsplit hother
    have hbehind := h.last before fin between hs hfin
    have hspent := hbehind.spent
    have hempty : data = [] := List.eq_nil_of_length_eq_zero (by omega)
    subst hempty
    refine ⟨hbehind.past, hbehind.finished, by omega, ?_, ?_⟩
    · intro d hd
      rcases List.mem_append.mp hd with hd | hd
      · exact hbehind.bare d hd
      · cases List.mem_singleton.mp hd
        exact newSegment_bare s
    · refine hbehind.numbered.imp (List.mem_append_left _) fun hnumbered => ?_
      rw [enqueueBack_mLocalSeq, ← hnumbered, newSegment_seqLen, if_neg (by decide)]
      exact BitVec.add_zero s.mLocalSeq

theorem FinFree.push {s : TCPSession τ} {flag : U8} (h : s.FinFree) (hsound : s.BackSound)
    (hle : s.mLocalNext ≤ s.mLocalSeq) (hflag : NetCore.hasFlag flag FIN = false) :
    (pushInBackQueue flag [] s).2.FinFree := by
  have hqueued : (s.enqueueBack flag []).FinFree := by
    intro d hd
    rw [enqueueBack_trace] at hd
    rcases List.mem_append.mp hd with hd | hd
    · exact h d hd
    · cases List.mem_singleton.mp hd
      exact (newSegment_hasFlag flag [] s FIN).trans hflag
  have hpopped := hqueued.records (popAcked_records _) fun _ => rfl
  have hsound' := popAcked_sound (enqueueBare_sound hsound flag)
  obtain ⟨points, htrace, hpoints, -⟩ := sendBackData_more hsound'
  rw [pushInBackQueue_of_le hle]
  intro d hd
  rw [htrace] at hd
  exact hpopped d ((List.mem_append.mp hd).resolve_right (hpoints d))

-- The FIN is the first one, and takes what was left of the budget.
theorem FinLast.finish {b : Nat} {s : TCPSession τ} (h : FinLast b s) (hsound : s.BackSound)
    (hfin : s.FinDue) (hb : 1 ≤ b) :
    FinLast (b - 1) (s.enqueueBack (FIN ||| ACK) []).sendBackData.leave := by
  have hfree : s.FinFree := h.finFree fun hpast => hpast.2.2 hfin.2.1
  have hbudget := h.budget hfin.1
  have hqueued := enqueueBare_sound hsound (FIN ||| ACK)
  obtain ⟨sent, hsent, hsentPoints, hseq⟩ := sendBackData_more hqueued
  obtain ⟨left, hleft, hleftKind⟩ := switchState_records
    (if (s.enqueueBack (FIN ||| ACK) []).sendBackData.mState = .established then .finWait1
      else .lastAck) (s.enqueueBack (FIN ||| ACK) []).sendBackData
  have hleftPoints : ∀ d, .pushed d ∉ left := fun d hd => Bool.false_ne_true (hleftKind _ hd)
  have hframe := (enqueueBack_frame (FIN ||| ACK) [] s).trans (sendBackData_frame _)
  have hpoints : ∀ d, .pushed d ∉ sent ++ left := fun d hd =>
    (List.mem_append.mp hd).elim (hsentPoints d) (hleftPoints d)
  refine ⟨fun _ => by omega, fun before fin after hsplit hflag => ?_⟩
  rw [leave, hleft, hsent, enqueueBack_trace, List.append_assoc] at hsplit
  -- the FIN of the split is the one just pushed
  obtain ⟨between, htrace, rfl⟩ := split_append hsplit (hpoints fin)
  have hnew : fin = s.newSegment (FIN ||| ACK) [] ∧ between = [] := by
    by_cases hmem : .pushed fin ∈ [TracePoint.pushed (s.newSegment (FIN ||| ACK) [])]
    · cases List.mem_singleton.mp hmem
      refine ⟨rfl, ?_⟩
      by_contra hne
      have hlast := congrArg List.dropLast htrace
      rw [List.dropLast_concat, List.dropLast_append_of_ne_nil (by simp),
        List.dropLast_cons_of_ne_nil hne] at hlast
      have hold : .pushed (s.newSegment (FIN ||| ACK) []) ∈ s.trace :=
        hlast ▸ List.mem_append_right before List.mem_cons_self
      exact absurd hflag (Bool.eq_false_iff.mp (hfree _ hold))
    · obtain ⟨old, hold, -⟩ := split_append htrace hmem
      have hmem' : .pushed fin ∈ s.trace := hold ▸ List.mem_append_right before List.mem_cons_self
      exact absurd hflag (Bool.eq_false_iff.mp (hfree fin hmem'))
  obtain ⟨rfl, rfl⟩ := hnew
  rw [List.nil_append]
  refine ⟨?_, ?_, by omega, fun d hd => absurd hd (hpoints d), ?_⟩
  · refine switchState_pastFin _ ?_
    split <;> decide
  · rw [leave, (switchState_frame _ _).remoteFinished, hframe.remoteFinished]
    exact hfin.1
  · refine hseq.imp (List.mem_append_left left) fun hkept => ?_
    rw [leave, switchState_mLocalSeq, hkept, enqueueBack_mLocalSeq, newSegment_seqLen,
      if_pos (by decide)]
    rfl

theorem finLast_invariant : CallInvariant (FinLast (τ := τ)) where
  mono h hle := by
    refine ⟨fun hfinished => Nat.le_trans hle (h.budget hfinished), fun before fin after hs hfin => ?_⟩
    have hbehind := h.last before fin after hs hfin
    have hspent := hbehind.spent
    exact ⟨hbehind.past, hbehind.finished, by omega, hbehind.bare, hbehind.numbered⟩
  inert h hinert :=
    h.records hinert.trace (fun _ => rfl) (pastFin_of_eq hinert.state) hinert.remoteFinished
      hinert.localSeq
  finished h hb := by
    refine ⟨fun _ => hb, fun before fin after hs hfin => ?_⟩
    have hbehind := h.last before fin after hs hfin
    exact ⟨hbehind.past, rfl, hbehind.spent, hbehind.bare, hbehind.numbered⟩
  pop {_ s} h :=
    h.records (popAcked_records s) (fun _ => rfl) (pastFin_of_eq (popAcked_mState s))
      (popAcked_frame s).remoteFinished (popAcked_mLocalSeq s)
  send h hsound := h.sendBackData hsound
  reset h := h.resetConnection
  turn {_ s _} h hturn := by
    refine h.switchState fun hpast => ?_
    generalize hold : s.mState = old at hturn
    cases hturn with
    | established => exact absurd hold hpast.2.1
    | finWait2 | timeWait | closed => exact switchState_pastFin s (by decide)
  number h _ hb _ := h.number hb
  finish h hsound hfin _ hb := h.finish hsound hfin hb
  receive {b s _} h hsound hle hturn := by
    have hqueued := enqueueBare_sound hsound ACK
    have hpushed : FinLast b (pushInBackQueue ACK [] s).2 := by
      have hempty : ([] : Bytes).length ≤ b := Nat.zero_le b
      have hnumbered : FinLast b (s.enqueueBack ACK []) := h.number hempty
      have hpopped : FinLast b (s.enqueueBack ACK []).popAcked :=
        hnumbered.records (popAcked_records _) (fun _ => rfl) (pastFin_of_eq (popAcked_mState _))
          (popAcked_frame _).remoteFinished (popAcked_mLocalSeq _)
      rw [pushInBackQueue_of_le hle]
      exact hpopped.sendBackData (popAcked_sound hqueued)
    generalize hold : s.mState = old at hturn
    cases hturn with
    | closeWait =>
      have hfree : s.FinFree := h.finFree fun hpast => hpast.2.2 (.inl hold)
      refine ((hfree.push hsound hle (by decide)).records (switchState_records _ _) fun _ => rfl).finLast ?_
      rw [(switchState_frame _ _).remoteFinished]
      exact hpushed.budget
    | timeWait | closing | timeWait2 =>
      exact hpushed.switchState fun _ => switchState_pastFin _ (by decide)
  refuse {_ s} flag h _ := by
    have htrace : Records TracePoint.refusing s (s.emit [.refused flag]) :=
      emit_records (by simp [TracePoint.refusing]) s
    exact h.records htrace (fun _ => rfl) (pastFin_of_eq rfl) rfl rfl

/-! ## Runs -/

omit [ITunnel τ] in
def Event.CarriesData : Event τ → Prop
  | .tunnelDataBack data => data ≠ []
  | _ => False

instance : ∀ e : Event τ, Decidable e.CarriesData
  | .tunnelDataBack _ => inferInstanceAs (Decidable (_ ≠ _))
  | .accept _ | .tunnelConnected | .tunnelDisconnected _ | .tunnelWritable | .written _ _
  | .environment _ _ _ => inferInstanceAs (Decidable False)

/-- The tunnel calls `onTunnelDisconnected`, from a failing `sendData` too, or delivers data of length
    0, which the session takes for the same. -/
def TellsEnd (s : TCPSession τ) : Event τ → Prop
  | .tunnelDisconnected _ => True
  | .tunnelDataBack data => data = []
  | .tunnelWritable => (drain s.mForwardQueue s.mTunnel).failed ≠ none
  | _ => False

instance (s : TCPSession τ) : ∀ e, Decidable (s.TellsEnd e)
  | .tunnelDisconnected _ => inferInstanceAs (Decidable True)
  | .tunnelDataBack _ => inferInstanceAs (Decidable (_ = _))
  | .tunnelWritable => inferInstanceAs (Decidable (_ ≠ _))
  | .accept _ | .tunnelConnected | .written _ _ | .environment _ _ _ =>
      inferInstanceAs (Decidable False)

/-- Once the tunnel has told its end it delivers no more bytes. -/
def QuietAfterEnd : TCPSession τ → List (Event τ) → Prop
  | _, [] => True
  | s, e :: es =>
      (s.TellsEnd e → ∀ e' ∈ es, ¬ e'.CarriesData) ∧
        match step s e with
        | none => True
        | some t => QuietAfterEnd t es

instance QuietAfterEnd.decidable : ∀ (s : TCPSession τ) (es : List (Event τ)),
    Decidable (s.QuietAfterEnd es)
  | _, [] => inferInstanceAs (Decidable True)
  | s, e :: es =>
      haveI : Decidable (match step s e with
          | none => True
          | some t => QuietAfterEnd t es) :=
        match step s e with
        | none => inferInstanceAs (Decidable True)
        | some t => QuietAfterEnd.decidable t es
      inferInstanceAs (Decidable (_ ∧ _))

theorem flushed_finished {s t : TCPSession τ} (h : BackFrame s t) :
    t.flushBackQueue.mRemoteFinished = s.mRemoteFinished :=
  (h.trans (flushBackQueue_frame t)).remoteFinished

-- A packet says nothing about the remote.
theorem accepted_finished {ip : Packet} {s t : TCPSession τ} (h : Accepted ip s t) :
    t.mRemoteFinished = s.mRemoteFinished := by
  have hrepeated (u : TCPSession τ) :
      (pushInBackQueue ACK [] u).2.flushBackQueue.mRemoteFinished = u.mRemoteFinished :=
    flushed_finished (pushInBackQueue_frame ACK [] u)
  cases h with
  | syn => exact (flushBackQueue_frame s).remoteFinished
  | fin =>
    have hpushed := (pushInBackQueue_frame ACK [] (s.finNumbered ip)).remoteFinished
    by_cases hmoves : s.FinMoves
    · by_cases hle : (s.finNumbered ip).mLocalNext ≤ s.mLocalSeq
      · rw [onReceiveFIN_moves hle hmoves]
        exact (switchState_frame _ _).remoteFinished.trans hpushed
      · rw [onReceiveFIN_refused (by bv_omega)]
        rfl
    · rw [onReceiveFIN_stays hmoves]
      exact hpushed
  | rst => exact (switchState_frame _ s).remoteFinished
  | stale => rfl
  | ack _ _ hstep =>
    have hacked : (s.acknowledged ip).mRemoteFinished = s.mRemoteFinished := rfl
    rw [← hacked]
    generalize s.acknowledged ip = u at hstep
    have hfirst (v : TCPSession τ) :
        (acceptFirstPayload ip v).mRemoteFinished = v.mRemoteFinished := by
      rcases acceptFirstPayload_cases ip v with ⟨-, heq⟩ | ⟨-, -, heq⟩ | ⟨-, heq⟩
      · rw [heq]
        exact (flushBackQueue_frame (v.uploaded ip)).remoteFinished
      · rw [heq]
        exact hrepeated v
      · rw [heq]
        exact (flushBackQueue_frame v).remoteFinished
    rcases onReceiveACK_cases hstep with ⟨-, rfl⟩ | ⟨-, rfl⟩ | ⟨-, rfl⟩ | ⟨-, rfl⟩ | ⟨-, rfl⟩ |
      ⟨-, -, -, -, -, rfl⟩
    · exact (hfirst _).trans (switchState_frame _ u).remoteFinished
    · exact flushed_finished (switchState_frame _ u)
    · exact flushed_finished (switchState_frame _ u)
    · exact flushed_finished (switchState_frame _ u)
    · rcases acceptPayload_cases ip u with ⟨-, heq⟩ | ⟨-, -, heq⟩ | ⟨-, heq⟩
      · rw [heq]
        exact (pushInBackQueue_frame ACK [] (u.uploaded ip)).remoteFinished
      · rw [heq]
        exact hrepeated u
      · rw [heq]
        exact (flushBackQueue_frame u).remoteFinished
    · exact (flushBackQueue_frame u).remoteFinished

theorem relayLoop_finished (fuel : Nat) (data : Bytes) (s : TCPSession τ) :
    (relayLoop fuel data s).2.mRemoteFinished = s.mRemoteFinished := by
  induction fuel generalizing data s with
  | zero => rfl
  | succ fuel ih =>
    have hpushed := (pushInBackQueue_frame ACK (data.take TCP_IP_PAYLOAD_SIZE) s).remoteFinished
    unfold relayLoop
    split
    · rfl
    · split
      next hpush =>
        rw [hpush] at hpushed
        exact hpushed
      next hpush =>
        rw [hpush] at hpushed
        exact (ih _ _).trans hpushed

-- The remote has finished when the tunnel has said so.
theorem step_finished {s s' : TCPSession τ} {e : Event τ} (hopened : s.Opened)
    (hstep : step s e = some s') (hfinished : s'.mRemoteFinished) :
    s.mRemoteFinished ∨ s.TellsEnd e := by
  cases e with
  | accept ip =>
    obtain ⟨t, haccepted, rfl⟩ := accept_accepted hopened.2 hstep
    have hcounted := (countAccepted_frame ip s).remoteFinished
    exact .inl ((accepted_finished haccepted).trans hcounted ▸ hfinished)
  | tunnelConnected =>
    cases hstep
    exact .inl hfinished
  | tunnelDisconnected reason => exact .inr trivial
  | tunnelWritable =>
    cases hstep
    rcases onTunnelWritable_cases s with hinert | ⟨-, reason, n, hfailed, -⟩
    · exact .inl (hinert.remoteFinished ▸ hfinished)
    · refine .inr (show _ ≠ none from ?_)
      rw [hfailed]
      exact Option.some_ne_none reason
  | tunnelDataBack data =>
    cases hstep
    by_cases hdata : data = []
    · exact .inr hdata
    · have hrelayed := relayLoop_finished data.length data s
      have hcounted := (countRecv_inert (relayLoop data.length data s).1
        (relayLoop data.length data s).2).remoteFinished
      have hpaused := (pauseIfFull_inert ((relayLoop data.length data s).2.countRecv
        (relayLoop data.length data s).1)).remoteFinished
      unfold onTunnelDataBack at hfinished
      rw [if_neg hdata] at hfinished
      exact .inl ((hpaused.trans hcounted).trans hrelayed ▸ hfinished)
  | written i n =>
    cases hstep
    exact .inl hfinished
  | environment tunnel now rand =>
    cases hstep
    exact .inl hfinished

-- No bytes from the tunnel once the session knows that the remote has finished.
def KeepsFin (s : TCPSession τ) (e : Event τ) : Prop := s.mRemoteFinished → ¬ e.CarriesData

theorem QuietAfterEnd.along {s : TCPSession τ} {es : List (Event τ)} (hopened : s.Opened)
    (hquiet : s.QuietAfterEnd es) (htold : s.mRemoteFinished → ∀ e ∈ es, ¬ e.CarriesData) :
    Lib.Along step KeepsFin s es := by
  induction es generalizing s with
  | nil => exact trivial
  | cons e es ih =>
    refine ⟨fun hfinished => htold hfinished e List.mem_cons_self, ?_⟩
    have hlater := hquiet.2
    cases hstep : step s e with
    | none => exact trivial
    | some t =>
      rw [hstep] at hlater
      refine ih (step_opened hopened hstep) hlater fun hfinished e' he' => ?_
      rcases step_finished hopened hstep hfinished with hbefore | htells
      · exact htold hbefore e' (List.mem_cons_of_mem e he')
      · exact hquiet.1 htells e' he'

theorem step_finLast {s s' : TCPSession τ} {e : Event τ} (h : Steady FinLast 0 s)
    (hkeeps : s.KeepsFin e) (hstep : step s e = some s') : Steady FinLast 0 s' := by
  have hone : s.mRemoteFinished → s.demand e ≤ 1 := by
    intro hfinished
    have hdata := hkeeps hfinished
    cases e with
    | tunnelDataBack data =>
      show (if data = [] then _ else _) ≤ 1
      rw [if_pos (not_not.mp hdata)]
      split <;> omega
    | accept | tunnelDisconnected | tunnelWritable =>
      simp only [demand]
      split <;> omega
    | tunnelConnected | written | environment => exact Nat.zero_le 1
  -- behind the FIN a step numbers nothing
  have hnone : s.PastFin → s.mRemoteFinished → s.demand e = 0 := by
    rintro ⟨-, hsyn, hmay⟩ hfinished
    have hdata := hkeeps hfinished
    cases e with
    | tunnelDataBack data =>
      show (if data = [] then _ else _) = 0
      rw [if_pos (not_not.mp hdata), if_neg hmay]
    | accept ip => exact if_neg fun h => h.2.elim hsyn hmay
    | tunnelDisconnected | tunnelWritable => exact if_neg hmay
    | tunnelConnected | written | environment => rfl
  have hlast : FinLast (s.demand e) s := by
    refine ⟨hone, fun before fin after hsplit hfin => ?_⟩
    have hbehind := h.holds.last before fin after hsplit hfin
    exact ⟨hbehind.past, hbehind.finished, hnone hbehind.past hbehind.finished, hbehind.bare,
      hbehind.numbered⟩
  have hsame {b : Nat} {t t' : TCPSession τ} (ht : FinLast b t)
      (htrace : Records TracePoint.inert t t') (hstate : t'.mState = t.mState)
      (hfinished : t'.mRemoteFinished = t.mRemoteFinished) (hseq : t'.mLocalSeq = t.mLocalSeq) :
      FinLast b t' := ht.records htrace (fun _ => rfl) (pastFin_of_eq hstate) hfinished hseq
  refine finLast_invariant.stepOrWritten (fun i n hwritten => ?_) ⟨h.sound, h.opened, hlast⟩
    (Nat.le_refl _) (fun ip _ _ _ => ?_) hstep
  · exact hsame hwritten (.of_eq rfl) rfl rfl rfl
  · exact hsame hlast (.of_eq rfl) rfl rfl rfl

theorem Born.finLast {s : TCPSession τ} (h : s.Born) : Steady FinLast 0 s := by
  have hopened := h.newborn.opened
  obtain ⟨s₀, ip, hfresh, hsyn, haccept⟩ := h
  obtain ⟨t, rfl, -, -, hback, -, htrace⟩ := hfresh.accept_eq hsyn haccept
  refine ⟨hopened.1, hopened.2, FinFree.finLast ?_ fun _ => Nat.zero_le 1⟩
  have hcounted : t.FinFree := by
    intro d hd
    rw [htrace, (countAccepted_inert ip s₀).trace.mem_iff rfl, hfresh.trace] at hd
    cases hd
  have hsound : (t.synNumbered ip).BackSound := by
    unfold BackSound
    rw [show (t.synNumbered ip).mBackQueue = [] from hback]
    exact List.forall_mem_nil _
  have hle : (t.synNumbered ip).mLocalNext ≤ (t.synNumbered ip).mLocalSeq :=
    BitVec.le_refl (0 : U32)
  have hflag : NetCore.hasFlag (SYN ||| ACK) FIN = false := by decide
  have hpushed := FinFree.push (s := t.synNumbered ip) hcounted hsound hle hflag
  rw [pushInBackQueue_of_le hle] at hpushed
  have hentered {s : TCPSession τ} (hs : s.FinFree) : (s.switchState .synRcved).noteTime.FinFree :=
    hs.records (switchState_records .synRcved s) fun _ => rfl
  unfold handshake
  rw [pushInBackQueue_of_le hle]
  dsimp only at hpushed ⊢
  exact hentered hpushed

/-- In a run whose tunnel delivers no bytes once it has told its end, whatever is pushed behind a FIN
    is a pure ACK, and without a reset the FIN has the last number. -/
theorem fin_last {s s' : TCPSession τ} {es : List (Event τ)} (hborn : s.Born)
    (hquiet : s.QuietAfterEnd es) (hrun : Lib.run step s es = some s')
    {before after : List TracePoint} {fin : TCPDatagram}
    (htrace : s'.trace = before ++ .pushed fin :: after) (hfin : fin.hasFlag FIN) :
    (∀ d, .pushed d ∈ after → d.mLength = 0 ∧ d.hasFlag SYN = false ∧ d.hasFlag FIN = false) ∧
      (.reset ∈ after ∨ s'.mLocalSeq = fin.mSeq + 1) := by
  have hnewborn := hborn.newborn
  have hkeeps := hquiet.along hnewborn.opened fun hfinished =>
    absurd hfinished (Bool.eq_false_iff.mp hnewborn.remoteFinished)
  have hsteady := Lib.Along.invariant (Steady FinLast 0) (fun _ _ _ => step_finLast)
    hborn.finLast hkeeps hrun
  have hbehind := hsteady.holds.last before fin after htrace hfin
  refine ⟨fun d hd => ?_, hbehind.numbered⟩
  have hbare := hbehind.bare d hd
  exact ⟨hbare.payload, hbare.syn, hbare.fin⟩

theorem fin_last_sample :
    ∃ (s' : TCPSession TCPTunnel) (before after : List TracePoint) (fin : TCPDatagram),
      Lib.run step (sampleBorn sampleTunnel)
        [.accept (samplePacket 101 1001 ACK [] (by decide)), .tunnelDataBack [1, 2, 3],
          .accept (samplePacket 101 1004 ACK [] (by decide)), .tunnelDisconnected 0,
          .accept (samplePacket 101 1005 (FIN ||| ACK) [] (by decide))] = some s' ∧
      s'.trace = before ++ .pushed fin :: after ∧ fin.hasFlag FIN ∧
      (∀ d, .pushed d ∈ after → d.mLength = 0 ∧ d.hasFlag SYN = false ∧ d.hasFlag FIN = false) ∧
      (.reset ∈ after ∨ s'.mLocalSeq = fin.mSeq + 1) := by
  have hreach : ∃ s' : TCPSession TCPTunnel,
      Lib.run step (sampleBorn sampleTunnel)
        [.accept (samplePacket 101 1001 ACK [] (by decide)), .tunnelDataBack [1, 2, 3],
          .accept (samplePacket 101 1004 ACK [] (by decide)), .tunnelDisconnected 0,
          .accept (samplePacket 101 1005 (FIN ||| ACK) [] (by decide))] = some s' ∧
      s'.trace.any TracePoint.pushesFIN := Lib.run_reaches (by decide)
  obtain ⟨s', hrun, hany⟩ := hreach
  obtain ⟨p, hp, hfin⟩ := List.any_eq_true.mp hany
  cases p with
  | pushed fin =>
    obtain ⟨before, after, htrace⟩ := List.append_of_mem hp
    exact ⟨s', before, after, fin, hrun, htrace, hfin,
      fin_last (sampleBorn_born (by decide)) (by decide) hrun htrace hfin⟩
  | writePackage | dispatched | captured | refused | released | reset | switched | taken => cases hfin

/-- Data of length 0 is the end, too: what comes after it is numbered behind the FIN. -/
theorem fin_followed :
    (sampleBorn sampleTunnel).Born ∧
      ∃ s' : TCPSession TCPTunnel,
        Lib.run step (sampleBorn sampleTunnel)
          [.accept (samplePacket 101 1001 ACK [] (by decide)), .tunnelDataBack [],
            .tunnelDataBack [0x61]] = some s' ∧
        .reset ∉ s'.trace ∧
        (s'.trace.dropWhile fun p => !p.pushesFIN).any TracePoint.pushesPayload :=
  ⟨sampleBorn_born (by decide), Lib.run_reaches (by decide)⟩

end TCPSession

end NetCore
