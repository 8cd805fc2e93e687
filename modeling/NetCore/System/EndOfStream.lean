import NetCore.System.Reassembly
import NetCore.TCPSession.Finish

/-!
# Where the stream ends

An application that has a FIN takes what lies before it for all there was to come.  The FIN is the
last thing a session numbers, it is numbered only when the tunnel has told its end, and on the wire
it has the number behind the last byte: so what lies before it is all that the tunnel has delivered.
-/

namespace NetCore

/-- The number of the packet's FIN, counted from the SYN: it comes behind the payload. -/
def finOf (base : U32) (ip : Bytes) : Option U32 :=
  if hasFlag (byteAt ip (getHeaderLen ip + 13)) FIN then
    some ((pieceOf base ip).1 + BitVec.ofNat 32 (pieceOf base ip).2.length)
  else none

-- The packet of a segment says what the segment says.
structure TCPDatagram.Tells (base : U32) (d : TCPDatagram) : Prop where
  flag : byteAt d.packet (getHeaderLen d.packet + 13) = d.mFlag
  fin : d.hasFlag FIN → pieceOf base d.packet = (d.mSeq, [])

theorem TCPDatagram.Tells.finOf {base : U32} {d : TCPDatagram} (h : d.Tells base) {n : U32}
    (hn : NetCore.finOf base d.packet = some n) : d.hasFlag FIN ∧ n = d.mSeq := by
  unfold NetCore.finOf at hn
  rw [h.flag] at hn
  split at hn
  next hfin =>
    refine ⟨hfin, ?_⟩
    cases hn
    rw [h.fin hfin]
    exact BitVec.add_zero d.mSeq
  next => cases hn

namespace TCPSession

variable {τ : Type} {s t : TCPSession τ}

def ends (s : TCPSession τ) : List Nat :=
  ((s.trace.filterMap TracePoint.package).filterMap fun d => finOf s.mLocalSeqBase d.readable).map
    BitVec.toNat

theorem mem_ends {n : Nat} (h : n ∈ s.ends) :
    ∃ d m, .writePackage d ∈ s.trace ∧ finOf s.mLocalSeqBase d.readable = some m ∧ m.toNat = n := by
  obtain ⟨m, hm, hn⟩ := List.mem_map.mp h
  obtain ⟨d, hd, hm⟩ := List.mem_filterMap.mp hm
  obtain ⟨point, hpoint, hd⟩ := List.mem_filterMap.mp hd
  refine ⟨d, m, ?_, hm, hn⟩
  cases point <;> cases hd
  exact hpoint

/-! ## What is handed over has been pushed -/

-- Up to a reset every packet queued or handed over is that of a segment that has been pushed.
structure Stems (s : TCPSession τ) : Prop where
  queued : ∀ d ∈ s.mBackQueue, ∃ d', .pushed d' ∈ s.trace ∧ d'.packet = d.packet
  handed : ∀ d, .writePackage d ∈ s.trace → ∃ d', .pushed d' ∈ s.trace ∧ d'.packet = d.readable

def Sourced (s : TCPSession τ) : Prop := .reset ∈ s.trace ∨ s.Stems

-- Nothing is handed over and nothing new is queued.
theorem Sourced.of_queue {kind : TracePoint → Bool} (h : s.Sourced) (htrace : Records kind s t)
    (hpackage : ∀ d, kind (.writePackage d) = false)
    (hqueue : ∀ d' ∈ t.mBackQueue, ∃ d ∈ s.mBackQueue, d'.packet = d.packet) : t.Sourced := by
  rcases h with hreset | h
  · exact .inl (htrace.mem_of_mem hreset)
  · refine .inr ⟨fun d' hd' => ?_, fun d hd => ?_⟩
    · obtain ⟨d, hd, hpacket⟩ := hqueue d' hd'
      obtain ⟨origin, hpushed, horigin⟩ := h.queued d hd
      exact ⟨origin, htrace.mem_of_mem hpushed, horigin.trans hpacket.symm⟩
    · obtain ⟨origin, hpushed, horigin⟩ := h.handed d ((htrace.mem_iff (hpackage d)).mp hd)
      exact ⟨origin, htrace.mem_of_mem hpushed, horigin⟩

theorem Sourced.of_records {kind : TracePoint → Bool} (h : s.Sourced) (htrace : Records kind s t)
    (hpackage : ∀ d, kind (.writePackage d) = false) (hqueue : t.mBackQueue = s.mBackQueue) :
    t.Sourced :=
  h.of_queue htrace hpackage fun d hd => ⟨d, hqueue ▸ hd, rfl⟩

variable [ITunnel τ]

theorem Sourced.enqueueBack (h : s.Sourced) (flag : U8) (data : Bytes) :
    (s.enqueueBack flag data).Sourced := by
  have hold {point : TracePoint} (h : point ∈ s.trace) : point ∈ (s.enqueueBack flag data).trace :=
    List.mem_append_left _ h
  refine h.imp hold fun h => ⟨fun d hd => ?_, fun d hd => ?_⟩
  · rcases List.mem_append.mp hd with hd | hd
    · obtain ⟨origin, hpushed, horigin⟩ := h.queued d hd
      exact ⟨origin, hold hpushed, horigin⟩
    · rw [List.mem_singleton.mp hd]
      exact ⟨_, List.mem_append_right _ (List.mem_singleton_self _), rfl⟩
  · rcases List.mem_append.mp hd with hd | hd
    · obtain ⟨origin, hpushed, horigin⟩ := h.handed d hd
      exact ⟨origin, hold hpushed, horigin⟩
    · cases List.mem_singleton.mp hd

theorem sourced_invariant : StepInvariant fun _ (s : TCPSession τ) => s.Sourced where
  mono h _ := h
  inert h hinert := h.of_records hinert.trace (fun _ => rfl) hinert.backQueue
  finished {_ s} h := by
    have hrecords : Records TracePoint.inert s { s with mRemoteFinished := true } := .of_eq rfl
    exact h.of_records hrecords (fun _ => rfl) rfl
  pop {_ s} h := by
    refine h.of_queue s.popAcked_records (fun _ => rfl) fun d hd => ?_
    rw [popAcked_mBackQueue] at hd
    exact ⟨d, (List.dropWhile_sublist _).mem hd, rfl⟩
  sent {_ s d rest} h _ hqueue hsends := by
    have hrecords := sentFront_records d rest s
    rcases h with hreset | h
    · exact .inl (hrecords.mem_of_mem hreset)
    · obtain ⟨origin, hpushed, horigin⟩ := h.queued d (hqueue ▸ List.mem_cons_self)
      have hfront : d.packet = d.readable := Router.packet_of_not_buffering hsends.2.1
      have hstays := hrecords.mem_of_mem hpushed
      refine .inr ⟨List.forall_mem_cons.mpr ⟨⟨origin, hstays, horigin.trans hfront⟩, fun d' hd' => ?_⟩,
        fun d' hd' => ?_⟩
      · obtain ⟨origin', hpushed', horigin'⟩ := h.queued d' (hqueue ▸ List.mem_cons_of_mem d hd')
        exact ⟨origin', hrecords.mem_of_mem hpushed', horigin'⟩
      · rcases List.mem_append.mp hd' with hd' | hd'
        · obtain ⟨origin', hpushed', horigin'⟩ := h.handed d' hd'
          exact ⟨origin', hrecords.mem_of_mem hpushed', horigin'⟩
        · -- the segment just handed over
          rcases List.mem_cons.mp hd' with heq | hd'
          · cases heq
            exact ⟨origin, hstays, horigin.trans hfront⟩
          · cases List.mem_singleton.mp hd'
  reset {_ s} _ := .inl s.resetConnection_reset
  switch {_ s} state h :=
    h.of_records (switchState_records state s) (fun _ => rfl) (switchState_backQueue state s)
  number h _ _ _ := h.enqueueBack _ _
  refuse {_ s} flag h _ := by
    have hrecords : Records TracePoint.refusing s (s.emit [.refused flag]) :=
      emit_records (by simp [TracePoint.refusing]) s
    exact h.of_records hrecords (fun _ => rfl) rfl
  written {_ s} i n h := by
    have hrecords : Records TracePoint.inert s
        { s with mBackQueue := s.mBackQueue.modify i (routerWrote n) } := .of_eq rfl
    refine h.of_queue hrecords (fun _ => rfl) fun d hd => ?_
    obtain ⟨j, hj, rfl⟩ := List.mem_iff_getElem.mp hd
    rw [List.length_modify] at hj
    refine ⟨s.mBackQueue[j], List.getElem_mem hj, ?_⟩
    rw [List.getElem_modify]
    split
    · exact packet_routerWrote n _
    · rfl

/-! ## What is pushed says its number -/

omit [ITunnel τ] in
-- The trace has grown by pushes whose packets say what they should.
structure Declares (s t : TCPSession τ) : Prop where
  base : t.mLocalSeqBase = s.mLocalSeqBase
  grown : ∃ points, t.trace = s.trace ++ points ∧
    ∀ d, .pushed d ∈ points → d.Tells s.mLocalSeqBase

omit [ITunnel τ] in
theorem Declares.of_records {kind : TracePoint → Bool} (h : Records kind s t)
    (hkind : ∀ d, kind (.pushed d) = false) (hbase : t.mLocalSeqBase = s.mLocalSeqBase) :
    Declares s t := by
  obtain ⟨points, heq, hpoints⟩ := h
  refine ⟨hbase, points, heq, fun d hd => ?_⟩
  exact absurd (hpoints _ hd) (Bool.eq_false_iff.mp (hkind d))

omit [ITunnel τ] in
theorem Declares.of_eq (htrace : t.trace = s.trace) (hbase : t.mLocalSeqBase = s.mLocalSeqBase) :
    Declares s t := by
  have hrecords : Records TracePoint.inert s t := .of_eq htrace
  exact .of_records hrecords (fun _ => rfl) hbase

omit [ITunnel τ] in
theorem Declares.trans {u : TCPSession τ} (h : Declares s t) (h' : Declares t u) :
    Declares s u := by
  obtain ⟨points, heq, hpoints⟩ := h.grown
  obtain ⟨more, heq', hmore⟩ := h'.grown
  refine ⟨h'.base.trans h.base, points ++ more, by rw [heq', heq, List.append_assoc], fun d hd => ?_⟩
  rcases List.mem_append.mp hd with hd | hd
  · exact hpoints d hd
  · exact h.base ▸ hmore d hd

theorem declares_enqueueBack {flag : U8} {data : Bytes} (hfin : NetCore.hasFlag flag FIN → data = [])
    (s : TCPSession τ) : Declares s (s.enqueueBack flag data) := by
  refine ⟨rfl, _, enqueueBack_trace flag data s, fun d hd => ?_⟩
  cases List.mem_singleton.mp hd
  have hpacket : (s.newSegment flag data).packet = s.updateWindowSize.packageBytes flag data :=
    Segment.readable_ofBytes _
  obtain ⟨hheader, -, -, -, -, -, hflag, -⟩ := readPackage s.updateWindowSize flag data
  constructor
  · rw [hpacket, hheader]
    exact hflag
  · intro hhas
    obtain rfl := hfin hhas
    rw [hpacket]
    refine (pieceOf_package s.updateWindowSize flag (Nat.zero_le _)).trans ?_
    rw [ite_self]
    rfl

theorem declares_sendBackData (s : TCPSession τ) : Declares s s.sendBackData := by
  have hqueued (s : TCPSession τ) (queue : List TCPDatagram) :
      Declares s { s with mBackQueue := queue } := .of_eq rfl rfl
  have hhand (s : TCPSession τ) (d : TCPDatagram) : Declares s (sendBackSegment d s).2.2 := by
    unfold sendBackSegment
    split
    · exact .of_eq rfl rfl
    · dsimp only
      split
      · exact .of_eq rfl rfl
      · exact ⟨rfl, _, rfl, by simp [packagePoints]⟩
  exact sendBackData_relation .trans hqueued hhand
    (fun s => .of_records (resetConnection_records s) (fun _ => rfl) (resetConnection_frame s).localSeqBase)
    (fun s => .of_eq (resumeIfRoom_trace s) (resumeIfRoom_frame s).localSeqBase) s

theorem declares_relation : StepRelation (Declares (τ := τ)) where
  refl _ := .of_eq rfl rfl
  trans := .trans
  pop s := .of_records s.popAcked_records (fun _ => rfl) s.popAcked_frame.localSeqBase
  send := declares_sendBackData
  number flag s := declares_enqueueBack (fun _ => rfl) s
  refuse flag s := by
    have hrecords : Records TracePoint.refusing s (s.emit [.refused flag]) :=
      emit_records (by simp [TracePoint.refusing]) s
    exact .of_records hrecords (fun _ => rfl) rfl
  switch state s :=
    .of_records (switchState_records state s) (fun _ => rfl) (switchState_frame state s).localSeqBase
  rst s := by
    obtain ⟨u, htrace⟩ := s.rstSent_trace
    exact ⟨rfl, _, htrace, by simp [packagePoints]⟩
  finish _ := .of_eq rfl rfl
  upload _ _ := .of_eq rfl rfl
  count ip s :=
    .of_records (countAccepted_inert ip s).trace (fun _ => rfl) (countAccepted_frame ip s).localSeqBase
  environment _ _ _ _ _ _ _ _ := .of_eq rfl rfl
  written _ _ _ := .of_eq rfl rfl

theorem declares_onTunnelWritable (s : TCPSession τ) : Declares s s.onTunnelWritable := by
  refine declares_relation.toFlushRelation.onTunnelWritable (fun s => ?_) (fun n s => ?_)
    (fun _ _ => .of_eq rfl rfl) s
  · exact .of_records (drained_inert s).trace (fun _ => rfl) rfl
  · exact .of_records (countSent_inert n s).trace (fun _ => rfl) (by unfold countSent; split <;> rfl)

theorem declares_onTunnelDataBack {data : Bytes} (hdata : data ≠ []) (s : TCPSession τ) :
    Declares s (s.onTunnelDataBack data) := by
  have hflag : NetCore.hasFlag ACK FIN = false := by decide
  refine declares_relation.toFlushRelation.onTunnelDataBack (fun data s => ?_) (fun i s => ?_)
    (fun _ _ => .of_eq rfl rfl) (fun _ => .of_eq rfl rfl) hdata s
  · exact declares_enqueueBack (fun hfin => absurd (hflag.symm.trans hfin) (by decide)) s
  · exact .of_records (countRecv_inert i s).trace (fun _ => rfl) (by unfold countRecv; split <;> rfl)

/-! ## How many numbers there are -/

omit [ITunnel τ] in
-- Besides the bytes only the SYN and the FINs have taken a number.
def Marked (s : TCPSession τ) : Prop :=
  s.sequence.count none = 1 + s.trace.countP TracePoint.pushesFIN

omit [ITunnel τ] in
theorem Marked.unpushed {points : List TracePoint} (h : s.Marked)
    (htrace : t.trace = s.trace ++ points) (hpoints : ∀ d, .pushed d ∉ points) : t.Marked := by
  have hitems : points.flatMap TracePoint.items = [] := by
    refine List.flatMap_eq_nil_iff.mpr fun point hpoint => ?_
    cases point with
    | pushed d => exact absurd hpoint (hpoints d)
    | _ => rfl
  have hnone : points.countP TracePoint.pushesFIN = 0 := by
    refine List.countP_eq_zero.mpr fun point hpoint => ?_
    cases point with
    | pushed d => exact absurd hpoint (hpoints d)
    | _ => exact Bool.false_ne_true
  unfold Marked sequence at h ⊢
  rw [htrace, List.flatMap_append, hitems, List.append_nil, List.countP_append, hnone]
  exact h

omit [ITunnel τ] in
theorem Marked.of_records {kind : TracePoint → Bool} (h : s.Marked) (htrace : Records kind s t)
    (hkind : ∀ d, kind (.pushed d) = false) : t.Marked := by
  obtain ⟨points, heq, hpoints⟩ := htrace
  exact h.unpushed heq fun d hd => absurd (hpoints _ hd) (Bool.eq_false_iff.mp (hkind d))

theorem hasFlag_fin_or_syn {flag : U8} (h : hasFlag flag SYN = false) :
    hasFlag flag (FIN ||| SYN) = hasFlag flag FIN := by
  revert flag
  decide

theorem Marked.push {flag : U8} {data : Bytes} (h : s.Marked)
    (hflag : NetCore.hasFlag flag SYN = false) : (s.enqueueBack flag data).Marked := by
  have hitems := items_newSegment flag data s
  rw [hasFlag_fin_or_syn hflag] at hitems
  have hcount : (TracePoint.items (.pushed (s.newSegment flag data))).count none =
      [TracePoint.pushed (s.newSegment flag data)].countP TracePoint.pushesFIN := by
    have hpushes : TracePoint.pushesFIN (.pushed (s.newSegment flag data)) =
        NetCore.hasFlag flag FIN := rfl
    rw [hitems, List.countP_singleton, hpushes]
    split
    · rfl
    · exact List.count_eq_zero.mpr (by simp)
  unfold Marked sequence at h ⊢
  rw [enqueueBack_trace, List.flatMap_append, List.flatMap_singleton, List.count_append,
    List.countP_append, h, hcount]
  omega

theorem Marked.sendBackData (h : s.Marked) (hsound : s.BackSound) : s.sendBackData.Marked := by
  obtain ⟨points, htrace, hpoints, -⟩ := sendBackData_more hsound
  exact h.unpushed htrace hpoints

theorem marked_invariant : CallInvariant fun _ (s : TCPSession τ) => s.Marked where
  mono h _ := h
  inert h hinert := h.of_records hinert.trace fun _ => rfl
  finished h _ := h
  pop {_ s} h := h.of_records s.popAcked_records fun _ => rfl
  send h hsound := h.sendBackData hsound
  reset {_ s} h := h.of_records (resetConnection_records s) fun _ => rfl
  turn {_ s state} h _ := h.of_records (switchState_records state s) fun _ => rfl
  number h _ _ _ := h.push (by decide)
  finish {_ s} h hsound _ _ _ := by
    have hpushed : (s.enqueueBack (FIN ||| ACK) []).Marked := h.push (by decide)
    have hsent := hpushed.sendBackData (enqueueBare_sound hsound _)
    exact hsent.of_records (switchState_records _ _) fun _ => rfl
  receive {_ s _} h hsound hle _ := by
    have hpushed : (s.enqueueBack ACK []).Marked := h.push (by decide)
    have hpopped : (s.enqueueBack ACK []).popAcked.Marked :=
      hpushed.of_records (popAcked_records _) fun _ => rfl
    have hsent := hpopped.sendBackData (popAcked_sound (enqueueBare_sound hsound ACK))
    rw [pushInBackQueue_of_le hle]
    exact hsent.of_records (switchState_records _ _) fun _ => rfl
  refuse {_ s} flag h _ := by
    have htrace : (s.emit [.refused flag]).trace = s.trace ++ [.refused flag] := rfl
    exact h.unpushed htrace (by simp)

/-! ## Runs -/

-- How a session comes by its first segment.
theorem Born.opening (h : s.Born) : ∃ u : TCPSession τ, u.mBackQueue = [] ∧
    (∀ point ∈ u.trace, point.inert) ∧
    s = ((u.enqueueBack (SYN ||| ACK) []).popAcked.sendBackData.switchState .synRcved).noteTime := by
  obtain ⟨s₀, ip, hfresh, hsyn, haccept⟩ := h
  obtain ⟨t, rfl, -, -, hback, -, htrace⟩ := hfresh.accept_eq hsyn haccept
  have hle : (t.synNumbered ip).mLocalNext ≤ (t.synNumbered ip).mLocalSeq :=
    BitVec.le_refl (0 : U32)
  refine ⟨t.synNumbered ip, hback, ?_, ?_⟩
  · obtain ⟨points, heq, hpoints⟩ := (countAccepted_inert ip s₀).trace
    show ∀ point ∈ t.trace, point.inert
    rw [htrace, heq, hfresh.trace, List.nil_append]
    exact hpoints
  · unfold TCPSession.handshake
    rw [pushInBackQueue_of_le hle]

-- What is so right after the SYN.
theorem Born.pushed (h : s.Born) :
    s.Sourced ∧ s.Marked ∧ ∀ d, .pushed d ∈ s.trace → d.Tells s.mLocalSeqBase := by
  obtain ⟨u, hqueue, hinert, rfl⟩ := h.opening
  have hnone {point : TracePoint} (hpoint : point.inert = false) : point ∉ u.trace :=
    fun hmem => absurd (hinert point hmem) (Bool.eq_false_iff.mp hpoint)
  have hstems : u.Stems := by
    refine ⟨?_, fun d hd => absurd hd (hnone rfl)⟩
    rw [hqueue]
    exact List.forall_mem_nil _
  have hsound : (u.enqueueBack (SYN ||| ACK) []).popAcked.BackSound := by
    refine popAcked_sound (enqueueBare_sound ?_ _)
    unfold BackSound
    rw [hqueue]
    exact List.forall_mem_nil _
  have hsource := sourced_invariant (τ := τ)
  have hsourced : (u.enqueueBack (SYN ||| ACK) []).popAcked.Sourced :=
    hsource.pop (b := 0) (Sourced.enqueueBack (.inr hstems) _ _)
  refine ⟨?_, ?_, ?_⟩
  · have hsent := hsource.toPartInvariant.sendBackData (b := 0) hsound hsourced
    exact hsource.inert (b := 0) (hsource.switch (b := 0) .synRcved hsent) (noteTime_inert _)
  · -- the SYN is the first number, and there is no FIN
    have hnumbered : (u.enqueueBack (SYN ||| ACK) []).Marked := by
      have hitems : u.trace.flatMap TracePoint.items = [] := by
        refine List.flatMap_eq_nil_iff.mpr fun point hpoint => ?_
        have hthis := hinert point hpoint
        cases point <;> first | rfl | cases hthis
      have hfins : u.trace.countP TracePoint.pushesFIN = 0 := by
        refine List.countP_eq_zero.mpr fun point hpoint => ?_
        have hthis := hinert point hpoint
        cases point <;> first | exact Bool.false_ne_true | cases hthis
      have hsyn := items_newSegment (SYN ||| ACK) [] u
      have hfin : TracePoint.pushesFIN (.pushed (u.newSegment (SYN ||| ACK) [])) = false := by
        show NetCore.hasFlag (SYN ||| ACK) FIN = false
        decide
      unfold Marked sequence
      rw [enqueueBack_trace, List.flatMap_append, hitems, List.flatMap_singleton, hsyn,
        if_pos (by decide), List.countP_append, hfins, List.countP_singleton, hfin]
      rfl
    have hpopped := hnumbered.of_records (popAcked_records _) fun _ => rfl
    have hsent := hpopped.sendBackData hsound
    exact hsent.of_records (switchState_records .synRcved _) fun _ => rfl
  · have hdeclared : Declares u
        ((u.enqueueBack (SYN ||| ACK) []).popAcked.sendBackData.switchState .synRcved) :=
      (declares_relation.toFlushRelation.settle
        (declares_enqueueBack (fun _ => rfl) u)).trans (declares_relation.switch .synRcved _)
    obtain ⟨points, heq, hpoints⟩ := hdeclared.grown
    intro d hd
    show d.Tells (switchState _ _).mLocalSeqBase
    rw [hdeclared.base]
    refine hpoints d ((List.mem_append.mp ?_).resolve_left (hnone rfl))
    rw [← heq]
    exact hd

theorem step_declares {e : Event τ} (hopened : s.Opened) (hstep : s.step e = some t) :
    Declares s t :=
  declares_relation.step hopened.2 (fun _ _ hdata => declares_onTunnelDataBack hdata s)
    (fun _ => declares_onTunnelWritable s) hstep

-- Once the application has acknowledged what was never numbered, no FIN is.
theorem barred_invariant : StepInvariant fun _ (s : TCPSession τ) =>
    .reset ∈ s.trace ∨ (s.mLocalSeq < s.mLocalNext ∧ s.FinFree) where
  mono h _ := h
  inert h hinert := by
    refine h.imp hinert.trace.mem_of_mem fun h => ⟨?_, h.2.records hinert.trace fun _ => rfl⟩
    rw [hinert.localSeq, hinert.localNext]
    exact h.1
  finished h := h
  pop {_ s} h := by
    refine h.imp s.popAcked_records.mem_of_mem fun h => ⟨?_, h.2.records s.popAcked_records fun _ => rfl⟩
    rw [popAcked_mLocalSeq, s.popAcked_frame.localNext]
    exact h.1
  sent {_ s d rest} h _ _ _ := by
    have hrecords := sentFront_records d rest s
    exact h.imp hrecords.mem_of_mem fun h => ⟨h.1, h.2.records hrecords fun _ => rfl⟩
  reset {_ s} _ := .inl s.resetConnection_reset
  switch {_ s} state h := by
    have hrecords := switchState_records state s
    refine h.imp hrecords.mem_of_mem fun h => ⟨?_, h.2.records hrecords fun _ => rfl⟩
    rw [switchState_mLocalSeq, (switchState_frame state s).localNext]
    exact h.1
  number {_ s _ _} h hle _ _ := by
    refine h.imp (List.mem_append_left _) fun h => ?_
    exact absurd h.1 (by bv_omega)
  refuse {_ s} flag h _ := by
    have hrecords : Records TracePoint.refusing s (s.emit [.refused flag]) :=
      emit_records (by simp [TracePoint.refusing]) s
    exact h.imp hrecords.mem_of_mem fun h => ⟨h.1, h.2.records hrecords fun _ => rfl⟩
  written {_ s} i n h := h.imp id fun h => ⟨h.1, h.2⟩

-- The FIN is numbered when all that has come is.
def FinWaits (stream : Bytes) (s : TCPSession τ) : Prop :=
  .reset ∈ s.trace ∨ s.downloaded = stream ∨ s.FinFree

theorem step_finWaits {stream : Bytes} {e : Event τ} (hlast : Steady FinLast 0 s)
    (hnumbers : Numbers stream s) (h : FinWaits stream s) (hkeeps : s.KeepsFin e)
    (hstep : s.step e = some t) : FinWaits (stream ++ e.download) t := by
  have hopened : s.Opened := ⟨hlast.sound, hlast.opened⟩
  by_cases hdata : e.CarriesData
  · -- the remote has not finished, so there is no FIN yet
    have htells : ¬ s.TellsEnd e := by
      cases e with
      | tunnelDataBack data => exact hdata
      | _ => exact hdata.elim
    have hnot : ¬ t.mRemoteFinished := fun hfinished =>
      (step_finished hopened hstep hfinished).elim (fun hs => hkeeps hs hdata) htells
    refine .inr (.inr fun d hd => Bool.eq_false_iff.mpr fun hfin => hnot ?_)
    obtain ⟨before, after, htrace⟩ := List.append_of_mem hd
    exact ((step_finLast hlast hkeeps hstep).holds.last before d after htrace hfin).finished
  · have hnone : e.download = [] := by
      cases e <;> first | rfl | exact not_not.mp hdata
    have hbyteless := step_byteless hopened hnone hstep
    rw [hnone, List.append_nil]
    rcases h with hreset | hsame | hfree
    · exact .inl (hbyteless.isPrefix.subset hreset)
    · exact .inr (.inl (hbyteless.downloaded.trans hsame))
    · rcases hnumbers with hreset | hsame | ⟨-, hlt⟩
      · exact .inl (hbyteless.isPrefix.subset hreset)
      · exact .inr (.inl (hbyteless.downloaded.trans hsame))
      · have hsteady : Steady (fun _ (s : TCPSession τ) =>
            .reset ∈ s.trace ∨ (s.mLocalSeq < s.mLocalNext ∧ s.FinFree)) (s.demand e) s :=
          ⟨hlast.sound, hlast.opened, .inr ⟨hlt, hfree⟩⟩
        have hbarred := (barred_invariant.step hsteady (Nat.le_refl _) (fun ip _ _ hle => ?_) hstep).holds
        · exact hbarred.imp id fun h => .inr h.2
        · exact .inr ⟨show s.mLocalSeq < s.relativeAck ip by bv_omega, hfree⟩

omit [ITunnel τ] in
-- Every number has been taken by the SYN, by a byte or by a FIN.
theorem Marked.length (h : s.Marked) :
    s.sequence.length = s.downloaded.length + 1 + s.trace.countP TracePoint.pushesFIN := by
  have hsplit : s.sequence.length = s.downloaded.length + s.sequence.count none := by
    unfold downloaded
    rw [List.count_eq_countP, List.countP_eq_length_filter]
    have hlength : s.sequence.length = s.sequence.reduceOption.length +
      (s.sequence.filter Option.isNone).length := List.length_eq_reduceOption_length_add_filter_none
    have hsame : (fun x : Option U8 => x == none) = Option.isNone := by
      funext x
      cases x <;> rfl
    rw [hsame]
    exact hlength
  rw [hsplit, h]
  omega

omit [ITunnel τ] in
theorem FinLast.once {b : Nat} {d : TCPDatagram} (h : FinLast b s) (hd : .pushed d ∈ s.trace)
    (hfin : d.hasFlag FIN) : s.trace.countP TracePoint.pushesFIN = 1 := by
  have hlater {before after : List TracePoint} {fin : TCPDatagram}
      (htrace : s.trace = before ++ .pushed fin :: after) (hfin : fin.hasFlag FIN) :
      ∀ point ∈ after, ¬ point.pushesFIN := by
    intro point hpoint
    cases point with
    | pushed d =>
      have hbare := (h.last before fin after htrace hfin).bare d hpoint
      exact Bool.eq_false_iff.mp hbare.fin
    | _ => exact Bool.false_ne_true
  obtain ⟨before, after, htrace⟩ := List.append_of_mem hd
  have hbefore : ∀ point ∈ before, ¬ point.pushesFIN := by
    intro point hpoint hpushes
    cases point with
    | pushed fin =>
      obtain ⟨first, rest, rfl⟩ := List.append_of_mem hpoint
      rw [List.append_assoc, List.cons_append] at htrace
      exact hlater htrace hpushes (.pushed d) (by simp) hfin
    | _ => cases hpushes
  have hone : [TracePoint.pushed d].countP TracePoint.pushesFIN = 1 := by
    rw [List.countP_singleton]
    exact if_pos hfin
  rw [htrace, List.append_cons, List.countP_append, List.countP_append, hone,
    List.countP_eq_zero.mpr hbefore, List.countP_eq_zero.mpr (hlater htrace hfin)]

-- What is so of a session that has been delivered `stream`, if nothing comes behind the end.
structure Ending (stream : Bytes) (s : TCPSession τ) : Prop where
  finLast : Steady FinLast 0 s
  placed : s.Placed
  syn : [none] <+: s.sequence
  numbers : Numbers stream s
  finWaits : FinWaits stream s
  sourced : s.Sourced
  marked : s.Marked
  tells : ∀ d, .pushed d ∈ s.trace → d.Tells s.mLocalSeqBase

theorem Born.ending (h : s.Born) : Ending [] s := by
  obtain ⟨hplaced, hsyn, hnone⟩ := h.numbered
  obtain ⟨hsourced, hmarked, htells⟩ := h.pushed
  exact ⟨h.finLast, hplaced, hsyn, .inr (.inl hnone), .inr (.inl hnone), hsourced, hmarked, htells⟩

theorem step_ending {stream : Bytes} {e : Event τ} (h : Ending stream s) (hkeeps : s.KeepsFin e)
    (hstep : s.step e = some t) : Ending (stream ++ e.download) t := by
  have hopened : s.Opened := ⟨h.finLast.sound, h.finLast.opened⟩
  refine ⟨step_finLast h.finLast hkeeps hstep, step_placed hopened h.placed hstep,
    h.syn.trans (sequence_extends (step_extends hopened hstep)), step_numbers hopened h.numbers hstep,
    step_finWaits h.finLast h.numbers h.finWaits hkeeps hstep, ?_, ?_, ?_⟩
  · have hsteady : Steady (fun _ (s : TCPSession τ) => s.Sourced) (s.demand e) s :=
      ⟨hopened.1, hopened.2, h.sourced⟩
    refine (sourced_invariant.step hsteady (Nat.le_refl _) (fun ip _ _ _ => ?_) hstep).holds
    exact h.sourced.imp id fun hs => ⟨hs.queued, hs.handed⟩
  · have hsteady : Steady (fun _ (s : TCPSession τ) => s.Marked) (s.demand e) s :=
      ⟨hopened.1, hopened.2, h.marked⟩
    exact (marked_invariant.stepOrWritten (fun _ _ hs => hs) hsteady (Nat.le_refl _)
      (fun ip _ _ _ => h.marked) hstep).holds
  · have hdeclared := step_declares hopened hstep
    obtain ⟨points, heq, hpoints⟩ := hdeclared.grown
    intro d hd
    rw [hdeclared.base]
    rw [heq] at hd
    exact (List.mem_append.mp hd).elim (h.tells d) (hpoints d)

omit [ITunnel τ] in
-- A FIN handed over has the number behind the last byte.
theorem Ending.ends {stream : Bytes} {n : Nat} (h : Ending stream s) (hreset : .reset ∉ s.trace)
    (hfits : s.sequence.length ≤ 2 ^ 32) (hn : n ∈ s.ends) :
    s.mRemoteFinished ∧ n = 1 + stream.length ∧ s.downloaded = stream := by
  obtain ⟨d, m, hd, hm, rfl⟩ := mem_ends hn
  obtain ⟨fin, hpushed, horigin⟩ := (h.sourced.resolve_left hreset).handed d hd
  rw [← horigin] at hm
  obtain ⟨hfin, rfl⟩ := (h.tells fin hpushed).finOf hm
  have hall : s.downloaded = stream := by
    refine (h.finWaits.resolve_left hreset).resolve_right fun hfree => ?_
    exact absurd hfin (Bool.eq_false_iff.mp (hfree fin hpushed))
  obtain ⟨before, after, htrace⟩ := List.append_of_mem hpushed
  have hbehind := h.finLast.holds.last before fin after htrace hfin
  have hseq : s.mLocalSeq = fin.mSeq + 1 := by
    refine hbehind.numbered.resolve_left fun hmem => hreset ?_
    rw [htrace]
    exact List.mem_append_right _ (List.mem_cons_of_mem _ hmem)
  have hlength := h.marked.length
  rw [h.finLast.holds.once hpushed hfin] at hlength
  refine ⟨hbehind.finished, ?_, hall⟩
  rw [(h.placed.resolve_left hreset).number, hlength] at hseq
  have hnumber : fin.mSeq = BitVec.ofNat 32 (s.downloaded.length + 1) := by
    rw [BitVec.ofNat_add] at hseq
    bv_omega
  rw [hnumber, BitVec.toNat_ofNat, Nat.mod_eq_of_lt (by omega), hall]
  omega

end TCPSession
end NetCore
