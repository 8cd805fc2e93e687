import NetCore.IPAdpt.Options
import NetCore.Lib.Run
import NetCore.TCPSession.Birth

/-!
# Selective acknowledgements

`onSack` reads its number of bytes where the kind of the option stands, so it never marks a segment.
`marks` follows every segment of the back queue, also when it has been released: what a packet of the
application does to the queue leaves the marks as they are and adds new segments behind them.
-/

namespace NetCore

def TracePoint.release : TracePoint → Option TCPDatagram
  | .released segment => some segment
  | _ => none

-- The sequence range of a segment, and whether it is marked.
def TCPDatagram.mark (d : TCPDatagram) : U32 × Nat × Bool := (d.mSeq, d.mLength, d.mACKed)

namespace TCPSession

variable {τ : Type}

def releasedSegments (s : TCPSession τ) : List TCPDatagram := s.trace.filterMap TracePoint.release

/-- The segments that have been queued, in order: those released, then those still queued. -/
def segments (s : TCPSession τ) : List TCPDatagram := s.releasedSegments ++ s.mBackQueue

def marks (s : TCPSession τ) : List (U32 × Nat × Bool) := s.segments.map TCPDatagram.mark

theorem marks_eq (s : TCPSession τ) :
    s.marks = s.releasedSegments.map TCPDatagram.mark ++ s.mBackQueue.map TCPDatagram.mark :=
  List.map_append

theorem releasedSegments_of_records {s s' : TCPSession τ} {kind : TracePoint → Bool}
    (h : Records kind s s') (hkind : ∀ p, kind p → p.release = none) :
    s'.releasedSegments = s.releasedSegments := by
  obtain ⟨points, htrace, hpoints⟩ := h
  have hnone : points.filterMap TracePoint.release = [] :=
    List.filterMap_eq_nil_iff.mpr fun p hp => hkind p (hpoints p hp)
  unfold releasedSegments
  rw [htrace, List.filterMap_append, hnone, List.append_nil]

theorem marks_of_records {s s' : TCPSession τ} {kind : TracePoint → Bool}
    (h : Records kind s s') (hkind : ∀ p, kind p → p.release = none)
    (hqueue : s'.mBackQueue = s.mBackQueue) : s'.marks = s.marks := by
  rw [marks_eq, marks_eq, releasedSegments_of_records h hkind, hqueue]

theorem marks_inert {s s' : TCPSession τ} (h : Inert s s') : s'.marks = s.marks :=
  marks_of_records h.trace (fun p hp => by cases p <;> first | rfl | cases hp) h.backQueue

theorem mark_releaseMark (d : TCPDatagram) : (releaseMark d).mark = d.mark := by
  unfold releaseMark
  split <;> rfl

-- Popping moves marks, and changes none.
theorem marks_popLoop (queue : List TCPDatagram) (s : TCPSession τ) :
    (popLoop queue s).marks =
      s.releasedSegments.map TCPDatagram.mark ++ queue.map TCPDatagram.mark := by
  induction queue generalizing s with
  | nil => exact marks_eq _
  | cons d queue ih =>
    rw [popLoop]
    split
    · have hreleased : (popSegment d s).releasedSegments = s.releasedSegments ++ [releaseMark d] := by
        show (s.trace ++ [TracePoint.released (releaseMark d)]).filterMap TracePoint.release = _
        rw [List.filterMap_append]
        rfl
      rw [ih, hreleased, List.map_append, List.append_assoc, List.map_singleton, mark_releaseMark,
        List.singleton_append, List.map_cons]
    · exact marks_eq _

theorem marks_popAcked (s : TCPSession τ) : s.popAcked.marks = s.marks :=
  (marks_popLoop s.mBackQueue s).trans (marks_eq s).symm

variable [ITunnel τ]

theorem marks_switchState (state : TCPState) (s : TCPSession τ) :
    (s.switchState state).marks = s.marks :=
  marks_of_records (switchState_records state s)
    (fun p hp => by cases p <;> first | rfl | cases hp) (switchState_backQueue state s)

theorem marks_resetConnection (s : TCPSession τ) : s.resetConnection.marks = s.marks :=
  marks_of_records (resetConnection_records s)
    (fun p hp => by cases p <;> first | rfl | cases hp) (resetConnection_backQueue s)

omit [ITunnel τ] in
theorem marks_sendBackSegment (d : TCPDatagram) (s : TCPSession τ) :
    (sendBackSegment d s).2.1.mark = d.mark ∧
      (sendBackSegment d s).2.2.releasedSegments = s.releasedSegments := by
  unfold sendBackSegment
  split
  · exact ⟨rfl, rfl⟩
  · simp only
    split
    · exact ⟨rfl, rfl⟩
    · refine ⟨rfl, ?_⟩
      show (s.trace ++ packagePoints _ s).filterMap TracePoint.release = _
      rw [List.filterMap_append]
      exact List.append_nil _

-- The send loop hands segments over, and leaves their marks.
theorem marks_sendLoop (limit w : U32) (packet : U8) (done rest : List TCPDatagram)
    (s : TCPSession τ) :
    (sendLoop limit w packet done rest s).2.marks =
      s.releasedSegments.map TCPDatagram.mark ++ (done ++ rest).map TCPDatagram.mark := by
  induction rest generalizing w packet done s with
  | nil =>
    rw [sendLoop, List.append_nil]
    exact marks_eq _
  | cons d rest ih =>
    have hkeep (s' : TCPSession τ) (d' : TCPDatagram) (hd' : d'.mark = d.mark)
        (hreleased : s'.releasedSegments = s.releasedSegments) :
        s'.releasedSegments.map TCPDatagram.mark ++ (done ++ d' :: rest).map TCPDatagram.mark =
          s.releasedSegments.map TCPDatagram.mark ++ (done ++ d :: rest).map TCPDatagram.mark := by
      rw [hreleased, List.map_append, List.map_append, List.map_cons, List.map_cons, hd']
    have happend (d' : TCPDatagram) : (done ++ [d']) ++ rest = done ++ d' :: rest := by
      rw [List.append_assoc, List.singleton_append]
    rw [sendLoop]
    split
    · exact marks_eq _
    · split
      · rw [marks_resetConnection]
        exact marks_eq _
      · simp only
        split
        · split
          · obtain ⟨hmark, hreleased⟩ := marks_sendBackSegment d s
            split
            · rw [ih, happend]
              exact hkeep _ _ hmark hreleased
            · rw [marks_eq]
              exact hkeep _ _ hmark hreleased
          · rw [ih, happend]
        · exact marks_eq _

theorem marks_sendBackData (s : TCPSession τ) : s.sendBackData.marks = s.marks := by
  have hloop := marks_sendLoop s.sendLimit 0 0 [] s.mBackQueue s
  rw [List.nil_append, ← marks_eq] at hloop
  unfold sendBackData
  split
  next hresult =>
    rw [hresult] at hloop
    exact hloop
  next hresult =>
    rw [hresult] at hloop
    rw [marks_inert (resumeIfRoom_inert _)]
    exact hloop

theorem marks_enqueueBack (flag : U8) (data : Bytes) (s : TCPSession τ) :
    s.marks <+: (s.enqueueBack flag data).marks := by
  have hreleased : (s.enqueueBack flag data).releasedSegments = s.releasedSegments := by
    unfold releasedSegments
    rw [enqueueBack_trace, List.filterMap_append]
    exact List.append_nil _
  rw [marks_eq, marks_eq, hreleased, enqueueBack_mBackQueue, List.map_append, ← List.append_assoc]
  exact List.prefix_append _ _

omit [ITunnel τ] in
theorem marks_refused (flag : U8) (s : TCPSession τ) : (s.emit [.refused flag]).marks = s.marks :=
  have hrecords : Records TracePoint.refusing s (s.emit [.refused flag]) :=
    ⟨_, rfl, by simp [TracePoint.refusing]⟩
  marks_of_records hrecords (fun p hp => by cases p <;> first | rfl | cases hp) rfl

omit [ITunnel τ] in
theorem prefix_of_marks_eq {s s' : TCPSession τ} (h : s'.marks = s.marks) : s.marks <+: s'.marks :=
  ⟨[], by rw [h, List.append_nil]⟩

theorem marks_push (flag : U8) (data : Bytes) (s : TCPSession τ) :
    s.marks <+: (pushInBackQueue flag data s).2.marks := by
  by_cases hle : s.mLocalNext ≤ s.mLocalSeq
  · rw [pushInBackQueue_of_le hle, marks_sendBackData, marks_popAcked]
    exact marks_enqueueBack flag data s
  · rw [pushInBackQueue_refused (by bv_omega)]
    exact prefix_of_marks_eq (marks_refused flag s)

theorem marks_flush (s : TCPSession τ) : s.marks <+: s.flushBackQueue.marks := by
  by_cases hfin : s.popAcked.FinDue
  · by_cases hle : s.mLocalNext ≤ s.mLocalSeq
    · have hpushed := marks_enqueueBack (FIN ||| ACK) [] s.popAcked
      rw [flushBackQueue_fin hfin hle]
      unfold leave
      rw [marks_switchState, marks_sendBackData, ← marks_popAcked s]
      exact hpushed
    · rw [flushBackQueue_fin_refused hfin (by bv_omega)]
      exact prefix_of_marks_eq ((marks_refused _ _).trans (marks_popAcked s))
  · rw [flushBackQueue_of_not_finDue hfin]
    exact prefix_of_marks_eq ((marks_sendBackData _).trans (marks_popAcked s))

/-! ## Packets -/

theorem marks_onReceiveFIN (ip : Packet) (s : TCPSession τ) :
    s.marks <+: (onReceiveFIN ip s).marks := by
  have hpush := marks_push ACK [] (s.finNumbered ip)
  by_cases hmoves : s.FinMoves
  · by_cases hle : (s.finNumbered ip).mLocalNext ≤ s.mLocalSeq
    · rw [onReceiveFIN_moves hle hmoves, marks_switchState]
      exact hpush
    · rw [onReceiveFIN_refused (by bv_omega)]
      exact prefix_of_marks_eq (marks_refused ACK _)
  · rw [onReceiveFIN_stays hmoves]
    exact hpush

theorem marks_pushThenFlush (s : TCPSession τ) :
    s.marks <+: (pushInBackQueue ACK [] s).2.flushBackQueue.marks :=
  (marks_push ACK [] s).trans (marks_flush _)

theorem marks_acceptPayload (ip : Packet) (s : TCPSession τ) :
    s.marks <+: (acceptPayload ip s).marks := by
  rcases acceptPayload_cases ip s with ⟨-, heq⟩ | ⟨-, -, heq⟩ | ⟨-, heq⟩ <;> rw [heq]
  · exact marks_push ACK [] (s.uploaded ip)
  · exact marks_pushThenFlush s
  · exact marks_flush s

theorem marks_acceptFirstPayload (ip : Packet) (s : TCPSession τ) :
    s.marks <+: (acceptFirstPayload ip s).marks := by
  rcases acceptFirstPayload_cases ip s with ⟨-, heq⟩ | ⟨-, -, heq⟩ | ⟨-, heq⟩ <;> rw [heq]
  · exact marks_flush (s.uploaded ip)
  · exact marks_pushThenFlush s
  · exact marks_flush s

theorem marks_switchThenFlush (state : TCPState) (s : TCPSession τ) :
    s.marks <+: (s.switchState state).flushBackQueue.marks := by
  have hflush := marks_flush (s.switchState state)
  rw [marks_switchState] at hflush
  exact hflush

theorem marks_onReceiveACK {ip : Packet} {s t : TCPSession τ} (h : onReceiveACK ip s = some t) :
    s.marks <+: t.marks := by
  rcases onReceiveACK_cases h with ⟨-, rfl⟩ | ⟨-, rfl⟩ | ⟨-, rfl⟩ | ⟨-, rfl⟩ | ⟨-, rfl⟩ |
    ⟨-, -, -, -, -, rfl⟩
  · have hfirst := marks_acceptFirstPayload ip (s.switchState .established)
    rw [marks_switchState] at hfirst
    exact hfirst
  · exact marks_switchThenFlush _ s
  · exact marks_switchThenFlush _ s
  · exact marks_switchThenFlush _ s
  · exact marks_acceptPayload ip s
  · exact marks_flush s

-- Whatever a packet is, it marks no segment.
theorem marks_accept {ip : Packet} {s t : TCPSession τ} (hopen : s.mState ≠ .listen)
    (h : s.accept ip = some t) : s.marks <+: t.marks := by
  obtain ⟨u, haccepted, rfl⟩ := accept_accepted hopen h
  rw [marks_inert (noteTime_inert u), ← marks_inert (countAccepted_inert ip s)]
  cases haccepted with
  | syn => exact marks_flush _
  | fin => exact marks_onReceiveFIN ip _
  | rst => exact prefix_of_marks_eq (marks_switchState _ _)
  | stale => exact prefix_of_marks_eq rfl
  | ack _ _ hack => exact marks_onReceiveACK (s := (s.countAccepted ip).acknowledged ip) hack

/-! ## The option -/

/-- A well-formed SACK option among those of the packet. -/
structure SackOption (ip : Packet) (o : Bytes) : Prop where
  mem : o ∈ tcpOptions ip.options
  kind : optionKind o = optSACK
  length : o.length = 10 ∨ o.length = 18 ∨ o.length = 26 ∨ o.length = 34

/-- The blocks reported: behind kind and length the left and the right edge of each. -/
def sackBlocks (o : Bytes) : List (U32 × U32) :=
  (List.range ((o.length - 2) / 8)).map fun i =>
    (beWord32 o (2 + 8 * i), beWord32 o (2 + 8 * i + 4))

/-- The whole range of a segment lies in a block, counted from the base of the session. -/
def CoveredBy (s : TCPSession τ) (block : U32 × U32) (d : TCPDatagram) : Prop :=
  (block.1 - s.mLocalSeqBase).toNat ≤ d.mSeq.toNat ∧
    d.mSeq.toNat + d.mLength ≤ (block.2 - s.mLocalSeqBase).toNat

/-- From `s` to `t` the segments of the back queue that were not marked have been marked exactly as
    the blocks say, wherever they are now. -/
def SackApplied (blocks : List (U32 × U32)) (s t : TCPSession τ) : Prop :=
  ∀ i d, s.mBackQueue[i]? = some d → d.mACKed = false →
    ∃ d', t.segments[s.releasedSegments.length + i]? = some d' ∧ d'.mSeq = d.mSeq ∧
      d'.mLength = d.mLength ∧ (d'.mACKed ↔ ∃ block ∈ blocks, s.CoveredBy block d)

omit [ITunnel τ] in
-- Each segment of the queue is found again, with its mark.
theorem segment_of_marks {s t : TCPSession τ} (h : s.marks <+: t.marks) {i : Nat} {d : TCPDatagram}
    (hd : s.mBackQueue[i]? = some d) :
    ∃ d', t.segments[s.releasedSegments.length + i]? = some d' ∧ d'.mark = d.mark := by
  have hmark : s.marks[s.releasedSegments.length + i]? = some d.mark := by
    rw [marks, List.getElem?_map, segments, List.getElem?_append_right (Nat.le_add_right _ _),
      Nat.add_sub_cancel_left, hd]
    rfl
  obtain ⟨behind, hbehind⟩ := h
  have hlt := (List.getElem?_eq_some_iff.mp hmark).1
  have hlater : t.marks[s.releasedSegments.length + i]? = some d.mark := by
    rw [← hbehind, List.getElem?_append_left hlt, hmark]
  rw [marks, List.getElem?_map] at hlater
  exact Option.map_eq_some_iff.mp hlater

-- The scan finds a SACK option that is in the list.
theorem scanOptions_finds {ip : Packet} {o : Bytes} (h : SackOption ip o) :
    ∃ sack, scanOptions ip optSACK = .found sack := by
  obtain ⟨sack, hfound, -⟩ := optionLoop_finds ip.options (ip.payload ++ ip.behind)
    ⟨o, h.mem, h.kind⟩ (Nat.lt_succ_self _) 0
  rw [← List.append_assoc] at hfound
  exact ⟨sack, hfound⟩

-- With a SACK option in the list an acknowledgement is processed to its end.
theorem onReceiveACK_returns {s : TCPSession τ} {ip : Packet} {o : Bytes}
    (hstate : s.mState = .established) (ho : SackOption ip o) : (onReceiveACK ip s).isSome := by
  obtain ⟨sack, hscan⟩ := scanOptions_finds ho
  unfold onReceiveACK
  rw [hstate]
  simp only
  by_cases hsack : s.mSack
  · rw [if_pos hsack, hscan]
    rfl
  · rw [if_neg hsack]
    rfl

theorem accept_returns {s : TCPSession τ} {ip : Packet} {o : Bytes}
    (hstate : s.mState = .established) (ho : SackOption ip o) : ∃ t, s.accept ip = some t := by
  have hcounted : (s.countAccepted ip).mState = .established := by
    rw [(countAccepted_inert ip s).state, hstate]
  have hflags : (dispatchFlags ip (s.countAccepted ip)).isSome := by
    unfold dispatchFlags
    split
    · unfold onReceiveSYN
      rw [if_pos (by rw [hcounted]; decide)]
      rfl
    · split
      · rfl
      · split
        · rfl
        · dsimp only
          split
          · exact onReceiveACK_returns hcounted ho
          · split <;> rfl
  obtain ⟨t, ht⟩ := Option.isSome_iff_exists.mp hflags
  exact ⟨t.noteTime, by rw [accept, ht]; rfl⟩

/-- A SACK option is applied exactly if the blocks hold no segment that was not marked before. -/
theorem sack_applied_iff {s : TCPSession τ} {ip : Packet} {o : Bytes}
    (hstate : s.mState = .established) (ho : SackOption ip o) :
    ∃ t, s.accept ip = some t ∧ (SackApplied (sackBlocks o) s t ↔
      ∀ d ∈ s.mBackQueue, d.mACKed = false → ¬ ∃ block ∈ sackBlocks o, s.CoveredBy block d) := by
  obtain ⟨t, ht⟩ := accept_returns hstate ho
  have hmarks := marks_accept (by rw [hstate]; decide) ht
  refine ⟨t, ht, fun h d hd hunmarked hcovered => ?_, fun h i d hd hunmarked => ?_⟩
  · obtain ⟨i, hi⟩ := List.mem_iff_getElem?.mp hd
    obtain ⟨d', hd', -, -, hmarked⟩ := h i d hi hunmarked
    obtain ⟨e, he, hsame⟩ := segment_of_marks hmarks hi
    rw [hd', Option.some.injEq] at he
    rw [TCPDatagram.mark, TCPDatagram.mark, Prod.mk.injEq, Prod.mk.injEq] at hsame
    have hstill := hmarked.mpr hcovered
    rw [he, hsame.2.2, hunmarked] at hstill
    cases hstill
  · obtain ⟨d', hd', hsame⟩ := segment_of_marks hmarks hd
    rw [TCPDatagram.mark, TCPDatagram.mark, Prod.mk.injEq, Prod.mk.injEq] at hsame
    refine ⟨d', hd', hsame.1, hsame.2.1, ?_⟩
    rw [hsame.2.2, hunmarked]
    constructor
    · intro hfalse
      cases hfalse
    · intro hcovered
      exact absurd hcovered (h d (List.mem_of_getElem? hd) hunmarked)

def sackOption (left right : U32) : Bytes := [5, 10] ++ beBytes32 left ++ beBytes32 right

def sackPacket (left right : U32) : Packet :=
  { samplePacket 101 1001 ACK [] nothing_fits with
    options := [1, 1] ++ sackOption left right
    fits := by simp [samplePacket, sackOption] }

theorem sackPacket_option (left right : U32) :
    SackOption (sackPacket left right) (sackOption left right) where
  mem := by
    have hoptions : tcpOptions (sackPacket left right).options = [[1], [1], sackOption left right] := by
      rfl
    rw [hoptions]
    simp
  kind := rfl
  length := .inl rfl

-- A session with three bytes of download on their way, numbered 1001 to 1003.
def downloading : List (Event TCPTunnel) :=
  [.accept { sampleSYN with options := [1, 1, 4, 2], fits := by decide },
    .accept (samplePacket 101 1001 ACK [] nothing_fits), .tunnelDataBack [1, 2, 3]]

theorem sack_applied_sample :
    ∃ s : TCPSession TCPTunnel, Lib.run step (sampleInit sampleTunnel 1000) downloading = some s ∧
      ∃ t, s.accept (sackPacket 1001 1004) = some t ∧
        (SackApplied (sackBlocks (sackOption 1001 1004)) s t ↔ ∀ d ∈ s.mBackQueue, d.mACKed = false →
          ¬ ∃ block ∈ sackBlocks (sackOption 1001 1004), s.CoveredBy block d) := by
  have hreach : ∃ s : TCPSession TCPTunnel,
      Lib.run step (sampleInit sampleTunnel 1000) downloading = some s ∧ s.mState = .established :=
    Lib.run_reaches (by decide)
  obtain ⟨s, hrun, hstate⟩ := hreach
  exact ⟨s, hrun, sack_applied_iff hstate (sackPacket_option 1001 1004)⟩

/-- The three bytes have arrived as a whole, and their segment stays as it was. -/
theorem sack_ignored :
    ∃ s t : TCPSession TCPTunnel, Lib.run step (sampleInit sampleTunnel 1000) downloading = some s ∧
      s.mState = .established ∧ s.mSack = true ∧
      SackOption (sackPacket 1001 1004) (sackOption 1001 1004) ∧
      s.accept (sackPacket 1001 1004) = some t ∧
      ¬ SackApplied (sackBlocks (sackOption 1001 1004)) s t := by
  have hreach : ∃ s : TCPSession TCPTunnel,
      Lib.run step (sampleInit sampleTunnel 1000) downloading = some s ∧ s.mState = .established ∧
      s.mSack = true ∧ s.mLocalSeqBase = 1000 ∧
      (s.mBackQueue.map fun d => (d.mSeq, d.mLength, d.mACKed)) = [(1, 3, false)] ∧
      (s.accept (sackPacket 1001 1004)).any fun t =>
        (t.segments[s.releasedSegments.length]?).all fun d => !d.mACKed :=
    Lib.run_reaches (by decide)
  obtain ⟨s, hrun, hstate, hsack, hbase, hqueue, hafter⟩ := hreach
  obtain ⟨d, hd, hmark⟩ := List.map_eq_singleton_iff.mp hqueue
  obtain ⟨t, ht, hunmarked⟩ := (Option.any_eq_true _ _).mp hafter
  rw [Prod.mk.injEq, Prod.mk.injEq] at hmark
  refine ⟨s, t, hrun, hstate, hsack, sackPacket_option 1001 1004, ht, fun h => ?_⟩
  obtain ⟨d', hd', -, -, hmarked⟩ := h 0 d (by rw [hd]; rfl) hmark.2.2
  have hcovered : ∃ block ∈ sackBlocks (sackOption 1001 1004), s.CoveredBy block d := by
    refine ⟨(1001, 1004), by decide, ?_⟩
    unfold CoveredBy
    rw [hbase, hmark.1, hmark.2.1]
    decide
  rw [Nat.add_zero] at hd'
  rw [hd', Option.all_some, hmarked.mpr hcovered] at hunmarked
  cases hunmarked

end TCPSession

end NetCore
