import Mathlib.Data.List.ReduceOption
import NetCore.Lib.Reassembly
import NetCore.System.Stream
import NetCore.TCPSession.Download
import NetCore.TCPSession.Package
import NetCore.TCPSession.Window

/-!
# What the application makes of its packets

The application's TCP puts the payloads of the packets together by their sequence numbers; which of
them arrive, how often and in which order is up to the tun and to the retransmissions.  Whatever it
gets is at the place where the tunnel has delivered it, and a FIN takes a number that no byte has.
-/

namespace NetCore

open Lib (Assembled Slice)

/-- What the application's TCP takes from a packet: the number of its first byte, counted from the
    SYN, and the payload.  It takes none from a SYN. -/
def pieceOf (base : U32) (ip : Bytes) : U32 × Bytes :=
  (beWord32 ip (getHeaderLen ip + 4) - base,
    if hasFlag (byteAt ip (getHeaderLen ip + 13)) SYN then []
    else (ip.drop (getPayloadOffset ip)).take (getPayloadLen ip).toNat)

/-- The sequence numbers a push takes: the bytes, or one for the SYN or the FIN. -/
def TracePoint.items : TracePoint → List (Option U8)
  | .pushed d => if d.hasFlag (FIN ||| SYN) then [none] else d.payload.map some
  | _ => []

def TCPSession.Event.download {τ : Type} : TCPSession.Event τ → Bytes
  | .tunnelDataBack data => data
  | _ => []

-- The packet has its bytes where the sequence has them.
def InPlace (base : U32) (sequence : List (Option U8)) (ip : Bytes) : Prop :=
  ∃ n, (pieceOf base ip).1 = BitVec.ofNat 32 n ∧ Slice sequence (n, (pieceOf base ip).2.map some)

theorem InPlace.append {base : U32} {sequence : List (Option U8)} {ip : Bytes}
    (h : InPlace base sequence ip) (more : List (Option U8)) :
    InPlace base (sequence ++ more) ip := by
  obtain ⟨n, hn, hslice⟩ := h
  exact ⟨n, hn, hslice.append more⟩

theorem inPlace_of_empty {base : U32} {ip : Bytes} (h : (pieceOf base ip).2 = [])
    (sequence : List (Option U8)) : InPlace base sequence ip := by
  refine ⟨(pieceOf base ip).1.toNat, by simp, ?_⟩
  rw [h]
  exact Lib.slice_nil sequence _

theorem hasFlag_of_syn {flag : U8} (h : hasFlag flag SYN) : hasFlag flag (FIN ||| SYN) := by
  revert flag
  decide

namespace TCPSession

variable {τ : Type} {s t : TCPSession τ}

/-- What every sequence number up to `mLocalSeq` has been used for. -/
def sequence (s : TCPSession τ) : List (Option U8) := s.trace.flatMap TracePoint.items

def downloaded (s : TCPSession τ) : Bytes := s.sequence.reduceOption

/-- The packets handed over, as the application's TCP takes them. -/
def pieces (s : TCPSession τ) : List (Nat × Bytes) :=
  (s.trace.filterMap TracePoint.package).map fun d =>
    ((pieceOf s.mLocalSeqBase d.readable).1.toNat, (pieceOf s.mLocalSeqBase d.readable).2)

theorem pieceOf_package (s : TCPSession τ) (flag : U8) {data : Bytes}
    (h : data.length ≤ TCP_IP_PAYLOAD_SIZE) :
    pieceOf s.mLocalSeqBase (s.packageBytes flag data) =
      (s.mLocalSeq, if NetCore.hasFlag flag SYN then [] else data) := by
  obtain ⟨hheader, -, -, -, hseq, -, hflag, hrest⟩ := readPackage s flag data
  have hnumber : s.mLocalSeq + s.mLocalSeqBase - s.mLocalSeqBase = s.mLocalSeq := by bv_omega
  unfold pieceOf
  rw [hheader, show 20 + 4 = 24 from rfl, show 20 + 13 = 33 from rfl, hseq, hflag, hnumber]
  by_cases hsyn : NetCore.hasFlag flag SYN
  · rw [if_pos hsyn, if_pos hsyn]
  · have hnone : s.packageOptions flag = [] := if_neg hsyn
    have hlength : getPayloadLen (s.packageBytes flag data) = data.length := by
      rw [getPayloadLen, getTTLEN_package s flag h, getPayloadOffset_package, if_neg hsyn, hnone,
        List.length_nil]
      omega
    rw [if_neg hsyn, if_neg hsyn, getPayloadOffset_package, if_neg hsyn, hrest, hnone, hlength,
      List.nil_append, Int.toNat_natCast, List.take_length]

/-! ## One session -/

-- Up to a reset all that has been queued and handed over is in its place.
structure InPlaces (s : TCPSession τ) : Prop where
  sound : s.BackSound
  number : s.mLocalSeq = BitVec.ofNat 32 s.sequence.length
  queued : ∀ d ∈ s.mBackQueue, InPlace s.mLocalSeqBase s.sequence d.packet
  handed : ∀ d, .writePackage d ∈ s.trace → InPlace s.mLocalSeqBase s.sequence d.readable

-- A reset takes its numbers a second time.
def Placed (s : TCPSession τ) : Prop := .reset ∈ s.trace ∨ s.InPlaces

theorem sequence_of_records {kind : TracePoint → Bool} (h : Records kind s t)
    (hkind : ∀ point, kind point → point.items = []) : t.sequence = s.sequence := by
  obtain ⟨points, heq, hpoints⟩ := h
  have hnone : points.flatMap TracePoint.items = [] :=
    List.flatMap_eq_nil_iff.mpr fun point hpoint => hkind point (hpoints point hpoint)
  unfold sequence
  rw [heq, List.flatMap_append, hnone, List.append_nil]

-- Nothing is numbered and nothing is handed over; segments may leave the queue.
theorem Placed.of_queue {kind : TracePoint → Bool} (h : s.Placed) (htrace : Records kind s t)
    (hitems : ∀ point, kind point → point.items = [])
    (hpackage : ∀ d, kind (.writePackage d) = false)
    (hseq : t.mLocalSeq = s.mLocalSeq) (hbase : t.mLocalSeqBase = s.mLocalSeqBase)
    (hsound : s.BackSound → t.BackSound)
    (hqueue : ∀ d' ∈ t.mBackQueue, ∃ d ∈ s.mBackQueue, d'.packet = d.packet) : t.Placed := by
  rcases h with hreset | h
  · exact .inl (htrace.mem_of_mem hreset)
  · have hsequence := sequence_of_records htrace hitems
    refine .inr ⟨hsound h.sound, ?_, fun d' hd' => ?_, fun d hd => ?_⟩
    · rw [hseq, hsequence]
      exact h.number
    · obtain ⟨d, hd, hpacket⟩ := hqueue d' hd'
      rw [hpacket, hbase, hsequence]
      exact h.queued d hd
    · rw [hbase, hsequence]
      exact h.handed d ((htrace.mem_iff (hpackage d)).mp hd)

-- The queue is not touched, either.
theorem Placed.of_records {kind : TracePoint → Bool} (h : s.Placed) (htrace : Records kind s t)
    (hitems : ∀ point, kind point → point.items = [])
    (hpackage : ∀ d, kind (.writePackage d) = false)
    (hseq : t.mLocalSeq = s.mLocalSeq) (hbase : t.mLocalSeqBase = s.mLocalSeqBase)
    (hqueue : t.mBackQueue = s.mBackQueue) : t.Placed := by
  refine h.of_queue htrace hitems hpackage hseq hbase ?_ ?_
  · unfold BackSound
    rw [hqueue]
    exact id
  · rw [hqueue]
    exact fun d hd => ⟨d, hd, rfl⟩

theorem Placed.of_eq (h : s.Placed) (htrace : t.trace = s.trace) (hseq : t.mLocalSeq = s.mLocalSeq)
    (hbase : t.mLocalSeqBase = s.mLocalSeqBase) (hqueue : t.mBackQueue = s.mBackQueue) :
    t.Placed := by
  have hrecords : Records TracePoint.inert s t := .of_eq htrace
  exact h.of_records hrecords (fun point hinert => by cases point <;> first | rfl | cases hinert)
    (fun _ => rfl) hseq hbase hqueue

theorem Placed.inert (h : s.Placed) (hinert : Inert s t)
    (hbase : t.mLocalSeqBase = s.mLocalSeqBase) : t.Placed :=
  h.of_records hinert.trace (fun point hpoint => by cases point <;> first | rfl | cases hpoint)
    (fun _ => rfl) hinert.localSeq hbase hinert.backQueue

theorem packet_routerWrote (n : Nat) (d : TCPDatagram) : (routerWrote n d).packet = d.packet := by
  have hmarks : (d.toSegment.consume n).resume = d.toSegment.resume := by
    unfold Segment.consume
    split <;> rfl
  unfold routerWrote
  split
  next hheld =>
    have hpacket : d.packet = d.toSegment.resume.readable := Router.packet_of_buffering hheld
    rw [hpacket, ← hmarks]
    dsimp only
    split
    · rfl
    · exact Router.packet_of_buffering hheld
  next => rfl

theorem placed_popAcked (h : s.Placed) : s.popAcked.Placed := by
  refine h.of_queue (popAcked_records s) (fun point hpoint => ?_) (fun _ => rfl)
    (popAcked_mLocalSeq s) (popAcked_frame s).localSeqBase popAcked_sound fun d hd => ?_
  · cases point <;> first | rfl | cases hpoint
  · rw [popAcked_mBackQueue] at hd
    exact ⟨d, (List.dropWhile_sublist _).mem hd, rfl⟩

theorem placed_refused (flag : U8) (h : s.Placed) : (s.emit [.refused flag]).Placed := by
  have hrecords : Records TracePoint.refusing s (s.emit [.refused flag]) :=
    emit_records (by simp [TracePoint.refusing]) s
  refine h.of_records hrecords (fun point hpoint => ?_) (fun _ => rfl) rfl rfl rfl
  cases point <;> first | rfl | cases hpoint

-- The front is handed over as it was built, and may be once more.
theorem placed_sentFront (h : s.Placed) {d : TCPDatagram} {rest : List TCPDatagram}
    (hqueue : s.mBackQueue = d :: rest) (hfree : d.isBuffering = false) :
    (s.sentFront d rest).Placed := by
  have hrecords := sentFront_records d rest s
  rcases h with hreset | h
  · exact .inl (hrecords.mem_of_mem hreset)
  · have hsequence : (s.sentFront d rest).sequence = s.sequence :=
      sequence_of_records hrecords fun point hpoint => by
        cases point <;> first | rfl | cases hpoint
    have hfront : InPlace s.mLocalSeqBase s.sequence d.readable := by
      have hqueued := h.queued d (by rw [hqueue]; exact List.mem_cons_self)
      rw [Router.packet_of_not_buffering hfree] at hqueued
      exact hqueued
    refine .inr ⟨sentFront_sound h.sound hqueue, hsequence ▸ h.number, ?_, ?_⟩
    · rw [hsequence]
      refine List.forall_mem_cons.mpr ⟨hfront, fun d' hd' => ?_⟩
      exact h.queued d' (by rw [hqueue]; exact List.mem_cons_of_mem d hd')
    · rw [hsequence]
      intro d' hd'
      rcases List.mem_append.mp hd' with hd' | hd'
      · exact h.handed d' hd'
      · rcases List.mem_cons.mp hd' with heq | hd'
        · cases heq
          exact hfront
        · cases List.mem_singleton.mp hd'

variable [ITunnel τ]

theorem placed_switchState (state : TCPState) (h : s.Placed) : (s.switchState state).Placed := by
  refine h.of_records (switchState_records state s) (fun point hpoint => ?_) (fun _ => rfl)
    (switchState_mLocalSeq state s) (switchState_frame state s).localSeqBase
    (switchState_backQueue state s)
  cases point <;> first | rfl | cases hpoint

theorem placed_rstSent (s : TCPSession τ) : s.rstSent.Placed := by
  obtain ⟨u, htrace⟩ := s.rstSent_trace
  left
  rw [htrace]
  simp

theorem placed_resumeIfRoom (h : s.Placed) : s.resumeIfRoom.Placed :=
  h.inert (resumeIfRoom_inert s) (resumeIfRoom_frame s).localSeqBase

theorem placed_sendBackData (h : s.Placed) : s.sendBackData.Placed := by
  rcases h with hreset | hplaces
  · left
    -- whatever the send loop does, it only adds to the trace
    refine sendBackData_relation (R := fun s t => .reset ∈ s.trace → .reset ∈ t.trace)
      (fun h h' hreset => h' (h hreset)) (fun _ _ => id) (fun s d => ?_)
      (fun s => (resetConnection_records s).mem_of_mem)
      (fun s => by rw [resumeIfRoom_trace]; exact id) s hreset
    unfold sendBackSegment
    split
    · exact id
    · dsimp only
      split
      · exact id
      · exact List.mem_append_left _
  · have h : s.Placed := .inr hplaces
    rcases sendBackData_cases hplaces.sound with ⟨d, rest, -, -, heq⟩ |
      ⟨d, rest, hqueue, -, hsends, heq⟩ | ⟨-, heq⟩
    · rw [heq, resetConnection_eq]
      exact placed_switchState .closed (placed_rstSent s)
    · rw [heq]
      exact placed_resumeIfRoom (placed_sentFront h hqueue hsends.2.1)
    · rw [heq]
      exact placed_resumeIfRoom h

-- The numbers a push takes.
theorem items_newSegment (flag : U8) (data : Bytes) (s : TCPSession τ) :
    TracePoint.items (.pushed (s.newSegment flag data)) =
      if NetCore.hasFlag flag (FIN ||| SYN) then [none] else data.map some := by
  have hlength : (s.newSegment flag data).mData.length - (s.newSegment flag data).mLength =
      40 + (s.updateWindowSize.packageOptions flag).length := by
    show (s.updateWindowSize.packageBytes flag data).length - data.length = _
    rw [length_packageBytes]
    omega
  have hpayload : (s.newSegment flag data).payload = data := by
    unfold TCPDatagram.payload
    rw [hlength]
    show (s.updateWindowSize.packageBytes flag data).drop (40 + _) = data
    rw [← List.drop_drop, (readPackage s.updateWindowSize flag data).2.2.2.2.2.2.2, List.drop_left]
  rw [TracePoint.items, hpayload]
  rfl

-- A payload is numbered behind what has been numbered; a SYN or a FIN is pushed without any.
theorem placed_enqueueBack {flag : U8} {data : Bytes} (hlength : data.length ≤ TCP_IP_PAYLOAD_SIZE)
    (hbare : NetCore.hasFlag flag (FIN ||| SYN) → data = []) (h : s.Placed) :
    (s.enqueueBack flag data).Placed := by
  rcases h with hreset | h
  · exact .inl (List.mem_append_left _ hreset)
  · have hsequence : (s.enqueueBack flag data).sequence =
        s.sequence ++ TracePoint.items (.pushed (s.newSegment flag data)) := by
      unfold sequence
      rw [enqueueBack_trace, List.flatMap_append, List.flatMap_singleton]
    have hitems := items_newSegment flag data s
    have hpiece := pieceOf_package s.updateWindowSize flag hlength
    have hnew : InPlace s.mLocalSeqBase (s.enqueueBack flag data).sequence
        (s.newSegment flag data).packet := by
      have hpacket : (s.newSegment flag data).packet = s.updateWindowSize.packageBytes flag data :=
        Segment.readable_ofBytes _
      rw [hpacket]
      by_cases hflag : NetCore.hasFlag flag (FIN ||| SYN)
      · refine inPlace_of_empty (hpiece ▸ ?_) _
        rw [hbare hflag, ite_self]
      · have hsyn : ¬ NetCore.hasFlag flag SYN := hflag ∘ hasFlag_of_syn
        rw [if_neg hflag] at hitems
        rw [if_neg hsyn] at hpiece
        refine ⟨s.sequence.length, ?_, ?_⟩
        · exact (congrArg Prod.fst hpiece).trans h.number
        · have hdata : (pieceOf s.mLocalSeqBase (s.updateWindowSize.packageBytes flag data)).2 = data :=
            congrArg Prod.snd hpiece
          rw [hdata, hsequence, hitems]
          exact Lib.slice_snoc _ _
    refine .inr ⟨enqueueBack_sound h.sound flag hlength, ?_, fun d hd => ?_, fun d hd => ?_⟩
    · rw [enqueueBack_mLocalSeq, newSegment_seqLen, h.number, hsequence, hitems, List.length_append]
      split
      · exact (BitVec.ofNat_add _ _).symm
      · rw [List.length_map, BitVec.ofNat_add]
    · rcases List.mem_append.mp hd with hd | hd
      · rw [hsequence]
        exact (h.queued d hd).append _
      · rw [List.mem_singleton.mp hd]
        exact hnew
    · rw [hsequence]
      rcases List.mem_append.mp hd with hd | hd
      · exact (h.handed d hd).append _
      · cases List.mem_singleton.mp hd

theorem placed_relation : StepRelation fun s t : TCPSession τ => s.Placed → t.Placed where
  refl _ := id
  trans h h' := h' ∘ h
  pop _ := placed_popAcked
  send _ := placed_sendBackData
  number _ _ := placed_enqueueBack (Nat.zero_le _) fun _ => rfl
  refuse flag _ := placed_refused flag
  switch state _ := placed_switchState state
  rst s _ := placed_rstSent s
  finish _ h := h.of_eq rfl rfl rfl rfl
  upload _ _ h := h.of_eq rfl rfl rfl rfl
  count ip s h := h.inert (countAccepted_inert ip s) (countAccepted_frame ip s).localSeqBase
  environment _ _ _ _ _ _ _ _ h := h.of_eq rfl rfl rfl rfl
  written s i n h := by
    have hrecords : Records TracePoint.inert s
        { s with mBackQueue := s.mBackQueue.modify i (routerWrote n) } := .of_eq rfl
    refine h.of_queue hrecords (fun point hpoint => ?_) (fun _ => rfl) rfl rfl
      (fun hsound => modify_sound hsound i n) fun d hd => ?_
    · cases point <;> first | rfl | cases hpoint
    · obtain ⟨j, hj, rfl⟩ := List.mem_iff_getElem.mp hd
      rw [List.length_modify] at hj
      refine ⟨s.mBackQueue[j], List.getElem_mem hj, ?_⟩
      rw [List.getElem_modify]
      split
      · exact packet_routerWrote n _
      · rfl

/-! ## The data of the tunnel -/

-- The trace has grown, and nothing has been numbered but SYN and FIN.
def Byteless (s t : TCPSession τ) : Prop :=
  ∃ points, t.trace = s.trace ++ points ∧ ∀ point ∈ points, point.items.reduceOption = []

omit [ITunnel τ] in
theorem Byteless.of_records {kind : TracePoint → Bool} (h : Records kind s t)
    (hkind : ∀ point, kind point → point.items = []) : Byteless s t := by
  obtain ⟨points, heq, hpoints⟩ := h
  exact ⟨points, heq, fun point hpoint => by rw [hkind point (hpoints point hpoint)]; rfl⟩

omit [ITunnel τ] in
theorem Byteless.of_eq (h : t.trace = s.trace) : Byteless s t :=
  ⟨[], by rw [h, List.append_nil], List.forall_mem_nil _⟩

omit [ITunnel τ] in
theorem Byteless.of_inert (h : Inert s t) : Byteless s t :=
  .of_records h.trace fun point hpoint => by cases point <;> first | rfl | cases hpoint

omit [ITunnel τ] in
theorem Byteless.trans {u : TCPSession τ} (h : Byteless s t) (h' : Byteless t u) : Byteless s u := by
  obtain ⟨points, heq, hpoints⟩ := h
  obtain ⟨more, heq', hmore⟩ := h'
  refine ⟨points ++ more, by rw [heq', heq, List.append_assoc], ?_⟩
  exact List.forall_mem_append.mpr ⟨hpoints, hmore⟩

omit [ITunnel τ] in
theorem Byteless.isPrefix (h : Byteless s t) : s.trace <+: t.trace := by
  obtain ⟨points, heq, -⟩ := h
  exact ⟨points, heq.symm⟩

omit [ITunnel τ] in
theorem Byteless.downloaded (h : Byteless s t) : t.downloaded = s.downloaded := by
  obtain ⟨points, heq, hpoints⟩ := h
  have hnone : (points.flatMap TracePoint.items).reduceOption = [] := by
    clear heq
    induction points with
    | nil => rfl
    | cons point points ih =>
      obtain ⟨hpoint, hrest⟩ := List.forall_mem_cons.mp hpoints
      rw [List.flatMap_cons, List.reduceOption_append, hpoint, ih hrest, List.append_nil]
  unfold TCPSession.downloaded sequence
  rw [heq, List.flatMap_append, List.reduceOption_append, hnone, List.append_nil]

theorem byteless_switchState (state : TCPState) (s : TCPSession τ) : Byteless s (s.switchState state) :=
  .of_records (switchState_records state s) fun point hpoint => by
    cases point <;> first | rfl | cases hpoint

theorem byteless_rstSent (s : TCPSession τ) : Byteless s s.rstSent := by
  obtain ⟨u, htrace⟩ := s.rstSent_trace
  exact ⟨_, htrace, by simp [packagePoints, TracePoint.items]⟩

theorem byteless_sendBackData (s : TCPSession τ) : Byteless s s.sendBackData := by
  have hqueued (s : TCPSession τ) (queue : List TCPDatagram) : Byteless s { s with mBackQueue := queue } :=
    .of_eq rfl
  have hhand (s : TCPSession τ) (d : TCPDatagram) : Byteless s (sendBackSegment d s).2.2 := by
    unfold sendBackSegment
    split
    · exact .of_eq rfl
    · dsimp only
      split
      · exact .of_eq rfl
      · exact ⟨_, rfl, by simp [packagePoints, TracePoint.items]⟩
  have hreset (s : TCPSession τ) : Byteless s s.resetConnection := by
    rw [resetConnection_eq]
    exact (byteless_rstSent s).trans (byteless_switchState .closed _)
  exact sendBackData_relation .trans hqueued hhand hreset
    (fun s => .of_eq (resumeIfRoom_trace s)) s

theorem enqueueBack_downloads (flag : U8) (data : Bytes) (s : TCPSession τ) :
    (TracePoint.items (.pushed (s.newSegment flag data))).reduceOption =
      if NetCore.hasFlag flag (FIN ||| SYN) then [] else data := by
  rw [items_newSegment]
  split
  · rfl
  · simp [List.reduceOption]

theorem byteless_relation : StepRelation (Byteless (τ := τ)) where
  refl _ := .of_eq rfl
  trans := .trans
  pop s := .of_records (popAcked_records s) fun point hpoint => by
    cases point <;> first | rfl | cases hpoint
  send := byteless_sendBackData
  number flag s := by
    refine ⟨_, enqueueBack_trace flag [] s, List.forall_mem_singleton.mpr ?_⟩
    rw [enqueueBack_downloads, ite_self]
  refuse flag s := ⟨_, rfl, List.forall_mem_singleton.mpr rfl⟩
  switch := byteless_switchState
  rst := byteless_rstSent
  finish _ := .of_eq rfl
  upload _ _ := .of_eq rfl
  count ip s := .of_inert (countAccepted_inert ip s)
  environment _ _ _ _ _ _ _ _ := .of_eq rfl
  written _ _ _ := .of_eq rfl

-- The data of the tunnel, too, only adds to the trace.
theorem extends_relation : FlushRelation fun s t : TCPSession τ => s.trace <+: t.trace := by
  have hback : BackRelation fun s t : TCPSession τ => s.trace <+: t.trace :=
    byteless_relation.toBackRelation.weaken (fun _ => List.prefix_rfl) (fun h h' => h.trans h')
      fun h => h.isPrefix
  exact hback.toFlushRelation

theorem enqueueBack_extends (data : Bytes) (s : TCPSession τ) :
    s.trace <+: (s.enqueueBack ACK data).trace := List.prefix_append _ _

-- What is numbered from then on is refused: the application has acknowledged numbers never used.
def Overtaken (s : TCPSession τ) : Prop := .reset ∈ s.trace ∨ s.mLocalSeq < s.mLocalNext

theorem overtaken_invariant : StepInvariant fun _ (s : TCPSession τ) => s.Overtaken where
  mono h _ := h
  inert h hinert := by
    refine h.imp hinert.trace.mem_of_mem fun hlt => ?_
    rw [hinert.localSeq, hinert.localNext]
    exact hlt
  finished h := h
  pop {_ s} h := by
    refine h.imp s.popAcked_records.mem_of_mem fun hlt => ?_
    rw [popAcked_mLocalSeq, (popAcked_frame s).localNext]
    exact hlt
  sent {_ s d rest} h _ _ _ := h.imp (sentFront_records d rest s).mem_of_mem id
  reset {_ s} _ := .inl s.resetConnection_reset
  switch {_ s} state h := by
    refine h.imp (switchState_records state s).mem_of_mem fun hlt => ?_
    rw [switchState_mLocalSeq, (switchState_frame state s).localNext]
    exact hlt
  number {_ s _ _} h hle _ _ := by
    refine h.imp (List.mem_append_left _) fun hlt => ?_
    exact absurd hlt (by bv_omega)
  refuse _ h _ := h.imp (List.mem_append_left _) id
  written _ _ h := h

-- Up to a reset the session has numbered the stream, or as much of it as it had when it was
-- overtaken.
def Numbers (stream : Bytes) (s : TCPSession τ) : Prop :=
  .reset ∈ s.trace ∨ s.downloaded = stream ∨
    (s.downloaded <+: stream ∧ s.mLocalSeq < s.mLocalNext)

theorem push_downloaded (data : Bytes) (hle : s.mLocalNext ≤ s.mLocalSeq) :
    (pushInBackQueue ACK data s).2.downloaded = s.downloaded ++ data := by
  have hrest : Byteless (s.enqueueBack ACK data) (s.enqueueBack ACK data).popAcked.sendBackData :=
    (byteless_relation.pop _).trans (byteless_sendBackData _)
  have hpushed : (s.enqueueBack ACK data).downloaded = s.downloaded ++ data := by
    have hitems := enqueueBack_downloads ACK data s
    rw [if_neg (by decide)] at hitems
    unfold downloaded sequence
    rw [enqueueBack_trace, List.flatMap_append, List.flatMap_singleton, List.reduceOption_append,
      hitems]
  rw [pushInBackQueue_of_le hle]
  exact hrest.downloaded.trans hpushed

theorem relayLoop_numbers {fuel : Nat} {stream data : Bytes} (hfuel : data.length ≤ fuel)
    (h : Numbers stream s) : Numbers (stream ++ data) (relayLoop fuel data s).2 := by
  induction fuel generalizing data stream s with
  | zero =>
    have hnil : data = [] := List.length_eq_zero_iff.mp (by omega)
    rw [hnil, List.append_nil]
    exact h
  | succ fuel ih =>
    have hextends := extends_relation.relayLoop enqueueBack_extends (fuel + 1) data s
    by_cases hdata : data = []
    · rw [relayLoop, if_pos hdata, hdata, List.append_nil]
      exact h
    · have hpositive := List.length_pos_iff.mpr hdata
      have hleft : (data.drop TCP_IP_PAYLOAD_SIZE).length ≤ fuel := by
        rw [List.length_drop]
        unfold TCP_IP_PAYLOAD_SIZE
        omega
      by_cases hle : s.mLocalNext ≤ s.mLocalSeq
      · rcases h with hreset | hsame | ⟨-, hlt⟩
        · exact .inl (hextends.subset hreset)
        · have hpushed := push_downloaded (data.take TCP_IP_PAYLOAD_SIZE) hle
          rw [relayLoop, if_neg hdata]
          rw [pushInBackQueue_of_le hle] at hpushed ⊢
          dsimp only
          have hrest := ih hleft (.inr (.inl hpushed))
          rw [hsame, List.append_assoc, List.take_append_drop] at hrest
          exact hrest
        · exact absurd hlt (by bv_omega)
      · -- the first chunk is refused, and with it the rest
        have hlt : s.mLocalSeq < s.mLocalNext := by bv_omega
        have hbyteless : Byteless s (s.emit [.refused ACK]) := byteless_relation.refuse ACK s
        rw [relayLoop, if_neg hdata, pushInBackQueue_refused hlt]
        dsimp only
        rcases h with hreset | hsame | ⟨hgrown, -⟩
        · exact .inl (List.mem_append_left _ hreset)
        · refine .inr (.inr ⟨?_, hlt⟩)
          rw [hbyteless.downloaded, hsame]
          exact List.prefix_append _ _
        · refine .inr (.inr ⟨?_, hlt⟩)
          rw [hbyteless.downloaded]
          exact hgrown.trans (List.prefix_append _ _)

omit [ITunnel τ] in
theorem Numbers.byteless {stream : Bytes} (h : Numbers stream s) (hbyteless : Byteless s t)
    (hovertaken : s.Overtaken → t.Overtaken) : Numbers stream t := by
  have hsame := hbyteless.downloaded
  rcases h with hreset | hstream | ⟨hgrown, hlt⟩
  · exact .inl (hbyteless.isPrefix.subset hreset)
  · exact .inr (.inl (hsame.trans hstream))
  · rcases hovertaken (.inr hlt) with hreset | hlt
    · exact .inl hreset
    · exact .inr (.inr ⟨hsame ▸ hgrown, hlt⟩)

omit [ITunnel τ] in
theorem Numbers.inert {stream : Bytes} (h : Numbers stream s) (hinert : Inert s t) :
    Numbers stream t := by
  refine h.byteless (.of_inert hinert) fun hs => hs.imp hinert.trace.mem_of_mem fun hlt => ?_
  rw [hinert.localSeq, hinert.localNext]
  exact hlt

theorem byteless_onTunnelWritable (s : TCPSession τ) : Byteless s s.onTunnelWritable := by
  refine byteless_relation.toFlushRelation.onTunnelWritable (fun s => ?_) (fun n s => ?_)
    (fun _ _ => .of_eq rfl) s
  · exact .of_inert (drained_inert s)
  · exact .of_inert (countSent_inert n s)

-- What delivers nothing numbers no bytes.
theorem step_byteless {e : Event τ} (hopened : s.Opened) (hnone : e.download = [])
    (hstep : s.step e = some t) : Byteless s t := by
  refine byteless_relation.step hopened.2 (fun data heq hne => ?_) (fun _ => ?_) hstep
  · rw [heq] at hnone
    exact absurd hnone hne
  · exact byteless_onTunnelWritable s

-- One step of the session, with what the tunnel delivers in it.
theorem step_numbers {stream : Bytes} {e : Event τ} (hopened : s.Opened) (h : Numbers stream s)
    (hstep : s.step e = some t) : Numbers (stream ++ e.download) t := by
  have hovertaken (hs : s.Overtaken) : t.Overtaken := by
    have hsteady : Steady (fun _ (s : TCPSession τ) => s.Overtaken) (s.demand e) s :=
      ⟨hopened.1, hopened.2, hs⟩
    refine (overtaken_invariant.step hsteady (Nat.le_refl _) (fun ip _ _ hle => ?_) hstep).holds
    exact hs.imp id fun hlt => by bv_omega
  by_cases hdata : ∃ data, e = .tunnelDataBack data ∧ data ≠ []
  · obtain ⟨data, rfl, hne⟩ := hdata
    have hrelayed := relayLoop_numbers (Nat.le_refl data.length) h
    cases hstep
    have hcounted := hrelayed.inert (countRecv_inert (relayLoop data.length data s).1 _)
    rw [onTunnelDataBack, if_neg hne]
    exact (hcounted.inert (pauseIfFull_inert _)).inert (noteTime_inert _)
  · have hnone : e.download = [] := by
      cases e with
      | tunnelDataBack data => exact not_not.mp fun hne => hdata ⟨data, rfl, hne⟩
      | _ => rfl
    rw [hnone, List.append_nil]
    exact h.byteless (step_byteless hopened hnone hstep) hovertaken

theorem step_extends {e : Event τ} (hopened : s.Opened) (hstep : s.step e = some t) :
    s.trace <+: t.trace := by
  have hextends {s t : TCPSession τ} (h : Inert s t) : s.trace <+: t.trace :=
    (Byteless.of_inert h).isPrefix
  by_cases hdata : ∃ data, e = .tunnelDataBack data ∧ data ≠ []
  · obtain ⟨data, rfl, hne⟩ := hdata
    cases hstep
    exact extends_relation.onTunnelDataBack enqueueBack_extends
      (fun i s => hextends (countRecv_inert i s)) (fun _ _ => List.prefix_rfl)
      (fun s => hextends (noteTime_inert s)) hne s
  · refine (byteless_relation.step hopened.2 (fun data heq hne => ?_) (fun _ => ?_) hstep).isPrefix
    · exact absurd ⟨data, heq, hne⟩ hdata
    · exact byteless_onTunnelWritable s

/-! ## Runs -/

omit [ITunnel τ] in
theorem sequence_extends (h : s.trace <+: t.trace) : s.sequence <+: t.sequence := by
  obtain ⟨points, heq⟩ := h
  unfold sequence
  rw [← heq, List.flatMap_append]
  exact List.prefix_append _ _

theorem placed_push {data : Bytes} (hdata : data.length ≤ TCP_IP_PAYLOAD_SIZE) (h : s.Placed) :
    (pushInBackQueue ACK data s).2.Placed := by
  by_cases hle : s.mLocalNext ≤ s.mLocalSeq
  · have hpushed : (s.enqueueBack ACK data).Placed :=
      placed_enqueueBack hdata (fun hflag => absurd hflag (by decide)) h
    rw [pushInBackQueue_of_le hle]
    exact placed_sendBackData (placed_popAcked hpushed)
  · rw [pushInBackQueue_refused (by bv_omega)]
    exact placed_refused ACK h

theorem placed_relayLoop (fuel : Nat) (data : Bytes) (h : s.Placed) :
    (relayLoop fuel data s).2.Placed := by
  induction fuel generalizing data s with
  | zero => exact h
  | succ fuel ih =>
    have hpushed := placed_push (List.length_take_le TCP_IP_PAYLOAD_SIZE data) h
    rw [relayLoop]
    split
    · exact h
    · split
      next heq =>
        rw [heq] at hpushed
        exact hpushed
      next heq =>
        rw [heq] at hpushed
        exact ih _ hpushed

theorem step_placed {e : Event τ} (hopened : s.Opened) (h : s.Placed) (hstep : s.step e = some t) :
    t.Placed := by
  have hrecv (i : Nat) {s : TCPSession τ} (h : s.Placed) : (s.countRecv i).Placed := by
    refine h.inert (countRecv_inert i s) ?_
    unfold countRecv
    split <;> rfl
  have hpause {s : TCPSession τ} (h : s.Placed) : s.pauseIfFull.Placed := by
    unfold pauseIfFull
    split
    · exact h.of_eq rfl rfl rfl rfl
    · exact h
  have hsent (n : Nat) (s : TCPSession τ) (h : s.Placed) : (s.countSent n).Placed := by
    refine h.inert (countSent_inert n s) ?_
    unfold countSent
    split <;> rfl
  refine placed_relation.step hopened.2 (fun data _ hdata h => ?_) (fun _ => ?_) hstep h
  · have hrelayed := placed_relayLoop data.length data h
    rw [onTunnelDataBack, if_neg hdata]
    exact (hpause (hrecv _ hrelayed)).of_eq rfl rfl rfl rfl
  · exact placed_relation.toFlushRelation.onTunnelWritable
      (fun s h => h.inert (drained_inert s) rfl) hsent (fun _ _ h => h.of_eq rfl rfl rfl rfl) s

-- The SYN is the first to be numbered.
theorem Born.numbered (h : s.Born) :
    s.Placed ∧ [none] <+: s.sequence ∧ s.downloaded = [] := by
  obtain ⟨s₀, ip, hfresh, hsyn, haccept⟩ := h
  obtain ⟨t, rfl, -, -, hback, -, htrace⟩ := hfresh.accept_eq hsyn haccept
  have hempty : t.trace.flatMap TracePoint.items = [] ∧ ∀ d, .writePackage d ∉ t.trace := by
    obtain ⟨points, heq, hpoints⟩ := (countAccepted_inert ip s₀).trace
    rw [hfresh.trace, List.nil_append] at heq
    rw [htrace, heq]
    refine ⟨List.flatMap_eq_nil_iff.mpr fun point hpoint => ?_, fun d hd => ?_⟩
    · have hinert := hpoints point hpoint
      cases point <;> first | rfl | cases hinert
    · cases hpoints _ hd
  have hsequence : (t.synNumbered ip).sequence = [] := hempty.1
  have hqueue : (t.synNumbered ip).mBackQueue = [] := hback
  have hstart : (t.synNumbered ip).Placed := by
    refine .inr ⟨?_, ?_, ?_, fun d hd => absurd hd (hempty.2 d)⟩
    · unfold BackSound
      rw [hqueue]
      exact List.forall_mem_nil _
    · rw [hsequence]
      rfl
    · rw [hqueue]
      exact List.forall_mem_nil _
  have hplaced := placed_relation.toFlushRelation.handshake ip t hstart
  have hbyteless := byteless_relation.toFlushRelation.handshake ip t
  refine ⟨hplaced.of_eq rfl rfl rfl rfl, ?_, ?_⟩
  · -- the SYN is pushed, and the trace grows behind it
    have hle : (t.synNumbered ip).mLocalNext ≤ (t.synNumbered ip).mLocalSeq :=
      BitVec.le_refl (0 : U32)
    have hfirst : ((t.synNumbered ip).enqueueBack (SYN ||| ACK) []).sequence = [none] := by
      have hitems := items_newSegment (SYN ||| ACK) [] (t.synNumbered ip)
      unfold sequence at hsequence ⊢
      rw [enqueueBack_trace, List.flatMap_append, List.flatMap_singleton, hsequence, hitems,
        if_pos (by decide), List.nil_append]
    have hflushed := (byteless_relation.pop _).trans
      (byteless_sendBackData ((t.synNumbered ip).enqueueBack (SYN ||| ACK) []).popAcked)
    show [none] <+: (handshake ip t).sequence
    rw [← hfirst]
    apply sequence_extends
    rw [handshake, pushInBackQueue_of_le hle]
    exact (hflushed.trans (byteless_switchState .synRcved _)).isPrefix
  · show (handshake ip t).downloaded = []
    rw [hbyteless.downloaded]
    unfold downloaded
    rw [hsequence]
    rfl

omit [ITunnel τ] in
-- What is put together from the packets handed over is what the session has numbered.
theorem InPlaces.assembled (h : s.InPlaces) (hsyn : [none] <+: s.sequence)
    (hfits : s.sequence.length ≤ 2 ^ 32) {out : Bytes} (hout : Assembled 1 s.pieces out) :
    out <+: s.downloaded := by
  have hpieces : ∀ piece ∈ s.pieces.map fun piece => (piece.1, piece.2.map some),
      Slice s.sequence piece := by
    intro _ hmem
    obtain ⟨piece, hpiece, rfl⟩ := List.mem_map.mp hmem
    obtain ⟨d, hd, rfl⟩ := List.mem_map.mp hpiece
    obtain ⟨point, hpoint, hd⟩ := List.mem_filterMap.mp hd
    have hhanded : .writePackage d ∈ s.trace := by
      cases point <;> cases hd
      exact hpoint
    obtain ⟨n, hn, hslice⟩ := h.handed d hhanded
    by_cases hempty : (pieceOf s.mLocalSeqBase d.readable).2 = []
    · dsimp only
      rw [hempty]
      exact Lib.slice_nil _ _
    · -- the place of a byte is below 2^32
      have hlt : n < s.sequence.length := by
        have hlength := hslice.length_le
        have hpos := List.length_pos_iff.mpr hempty
        rw [List.length_map, List.length_drop] at hlength
        omega
      have hplace : (pieceOf s.mLocalSeqBase d.readable).1.toNat = n := by
        rw [hn, BitVec.toNat_ofNat, Nat.mod_eq_of_lt (by omega)]
      dsimp only
      rw [hplace]
      exact hslice
  have hgrown := ((hout.map some).isPrefix hpieces).filterMap id
  obtain ⟨rest, hrest⟩ := hsyn
  have hout' : (out.map some).filterMap id = out := by simp
  rw [hout', ← hrest] at hgrown
  unfold downloaded
  rw [← hrest]
  exact hgrown

omit [ITunnel τ] in
-- What can be put together is what has come, and up to a reset all of it has its number.
theorem Numbers.assembled {stream : Bytes} (h : Numbers stream t) (hplaced : t.Placed)
    (hsyn : [none] <+: t.sequence) (hreset : .reset ∉ t.trace)
    (hfits : t.sequence.length ≤ 2 ^ 32) :
    (∀ out, Assembled 1 t.pieces out → out <+: stream) ∧
      (t.mLocalNext ≤ t.mLocalSeq → t.downloaded = stream) := by
  have hplaces := hplaced.resolve_left hreset
  rcases h.resolve_left hreset with heq | ⟨hgrown, hlt⟩
  · exact ⟨fun out hout => heq ▸ hplaces.assembled hsyn hfits hout, fun _ => heq⟩
  · exact ⟨fun out hout => (hplaces.assembled hsyn hfits hout).trans hgrown,
      fun hle => absurd hlt (by bv_omega)⟩

theorem run_numbers {es : List (Event τ)} (hborn : s.Born) (hrun : Lib.run step s es = some t) :
    t.Placed ∧ [none] <+: t.sequence ∧ Numbers (es.flatMap Event.download) t := by
  obtain ⟨hplaced, hsyn, hnone⟩ := hborn.numbered
  have halways : Lib.Along step (fun _ _ => True) s es := .of_forall (fun _ _ _ => trivial) s
  have hinvariant := Lib.Along.history
    (fun past (s : TCPSession τ) => s.Opened ∧ s.Placed ∧ [none] <+: s.sequence ∧
      Numbers (past.flatMap Event.download) s)
    (fun past s e t h _ hstep => by
      obtain ⟨hopened, hplaced, hsyn, hnumbers⟩ := h
      refine ⟨step_opened hopened hstep, step_placed hopened hplaced hstep,
        hsyn.trans (sequence_extends (step_extends hopened hstep)), ?_⟩
      rw [List.flatMap_append, List.flatMap_singleton]
      exact step_numbers hopened hnumbers hstep)
    [] ⟨hborn.newborn.opened, hplaced, hsyn, .inr (.inl hnone)⟩ halways hrun
  exact hinvariant.2

/-- Whatever the application receives of the packets handed over, and in whatever order, what it can
    put together is what the tunnel has delivered, from the first byte on; and unless it acknowledges
    what was never numbered, all of that has its number. -/
theorem run_assembled {es : List (Event τ)} (hborn : s.Born) (hrun : Lib.run step s es = some t)
    (hreset : .reset ∉ t.trace) (hfits : t.sequence.length ≤ 2 ^ 32) :
    (∀ out, Assembled 1 t.pieces out → out <+: es.flatMap Event.download) ∧
      (t.mLocalNext ≤ t.mLocalSeq → t.downloaded = es.flatMap Event.download) := by
  obtain ⟨hplaced, hsyn, hnumbers⟩ := run_numbers hborn hrun
  exact hnumbers.assembled hplaced hsyn hreset hfits

/-- Two chunks, of which the first has been handed over. -/
theorem run_assembled_sample :
    ∃ t : TCPSession TCPTunnel,
      Lib.run step (sampleBorn sampleTunnel)
        [.accept (samplePacket 101 1001 ACK [] (by decide)), .tunnelDataBack [1, 2, 3],
          .tunnelDataBack [4, 5]] = some t ∧
      Assembled 1 t.pieces [1, 2, 3] ∧ ([1, 2, 3] : Bytes) <+: [1, 2, 3] ++ [4, 5] := by
  have hreach : ∃ t : TCPSession TCPTunnel,
      Lib.run step (sampleBorn sampleTunnel)
        [.accept (samplePacket 101 1001 ACK [] (by decide)), .tunnelDataBack [1, 2, 3],
          .tunnelDataBack [4, 5]] = some t ∧
      .reset ∉ t.trace ∧ t.sequence.length ≤ 2 ^ 32 ∧ Assembled 1 t.pieces [1, 2, 3] :=
    Lib.run_reaches (by decide)
  obtain ⟨t, hrun, hreset, hfits, hout⟩ := hreach
  exact ⟨t, hrun, hout, (run_assembled (sampleBorn_born (by decide)) hrun hreset hfits).1 _ hout⟩

end TCPSession
end NetCore
