import NetCore.Lib.Run
import NetCore.TCPSession.Birth
import NetCore.TCPSession.Drain

/-!
# The upload stream

A payload that starts beyond `mRemoteNext` is queued and counted like one that starts there, which
acknowledges bytes never received.  As long as every payload queued starts at `mRemoteNext` and
sorts behind the queue, the bytes taken and queued are what has been acknowledged, in order.
-/

namespace NetCore
namespace TCPSession

variable {τ : Type}

structure SameUpload (s s' : TCPSession τ) : Prop where
  forwardQueue : s'.mForwardQueue = s.mForwardQueue
  remoteNext : s'.mRemoteNext = s.mRemoteNext
  remoteSeqBase : s'.mRemoteSeqBase = s.mRemoteSeqBase
  taken : s'.taken = s.taken

theorem BackFrame.sameUpload {s s' : TCPSession τ} (h : BackFrame s s') : SameUpload s s' :=
  ⟨h.forwardQueue, h.remoteNext, h.remoteSeqBase, h.taken⟩

theorem SameUpload.refl (s : TCPSession τ) : SameUpload s s := ⟨rfl, rfl, rfl, rfl⟩

theorem SameUpload.trans {s t u : TCPSession τ} (h : SameUpload s t) (h' : SameUpload t u) :
    SameUpload s u :=
  ⟨h'.forwardQueue.trans h.forwardQueue, h'.remoteNext.trans h.remoteNext,
    h'.remoteSeqBase.trans h.remoteSeqBase, h'.taken.trans h.taken⟩

theorem SameUpload.relativeSeq {s t : TCPSession τ} (h : SameUpload s t) (ip : Packet) :
    t.relativeSeq ip = s.relativeSeq ip := by
  unfold TCPSession.relativeSeq
  rw [h.remoteSeqBase]

theorem SameUpload.forwardDatagram {s t : TCPSession τ} (h : SameUpload s t) (ip : Packet) :
    t.forwardDatagram ip = s.forwardDatagram ip := by
  unfold TCPSession.forwardDatagram
  rw [h.relativeSeq ip]

theorem SameUpload.queues_iff {s t : TCPSession τ} (h : SameUpload s t) (ip : Packet) :
    t.Queues ip ↔ s.Queues ip := by
  unfold Queues Repeated QueuedAlready
  rw [h.forwardDatagram ip, h.relativeSeq ip, h.forwardQueue, h.remoteNext]

def TakesPayload (ip : Packet) (s : TCPSession τ) : Prop :=
  s.mLocalNext ≤ s.relativeAck ip ∧ (s.mState = .synRcved ∨ s.mState = .established)

/-- A payload that is queued starts where the acknowledged bytes end, and sorts behind everything
    queued. -/
def InOrder (ip : Packet) (s : TCPSession τ) : Prop :=
  s.TakesPayload ip → s.Queues ip → s.relativeSeq ip = s.mRemoteNext ∧
    ∀ t ∈ s.mForwardQueue, 0 < (s.forwardDatagram ip).compare t

/-- The payload is the piece of the stream its sequence number tells; position 1 is the first byte. -/
def Carries (S : Bytes) (ip : Packet) (s : TCPSession τ) : Prop :=
  ip.payload ≠ [] → 1 ≤ (s.relativeSeq ip).toNat ∧
    (s.relativeSeq ip).toNat + ip.payload.length < 2 ^ 32 ∧
    ip.payload = (S.drop ((s.relativeSeq ip).toNat - 1)).take ip.payload.length

instance (ip : Packet) (s : TCPSession τ) : Decidable (s.Repeated ip) :=
  inferInstanceAs (Decidable (_ < _))

instance (ip : Packet) (s : TCPSession τ) : Decidable (s.QueuedAlready ip) :=
  decidable_of_iff ((s.mForwardQueue[BufferQueue.findNotSmaller TCPDatagram.compare
    (s.forwardDatagram ip) s.mForwardQueue]?).any fun t => t.mSeq = s.relativeSeq ip) <| by
      simp [QueuedAlready, Option.any_eq_true]

instance (ip : Packet) (s : TCPSession τ) : Decidable (s.Queues ip) :=
  inferInstanceAs (Decidable (_ ∧ _ ∧ _))

instance (ip : Packet) (s : TCPSession τ) : Decidable (s.TakesPayload ip) :=
  inferInstanceAs (Decidable (_ ∧ _))

instance (ip : Packet) (s : TCPSession τ) : Decidable (s.InOrder ip) :=
  inferInstanceAs (Decidable (_ → _ → _))

instance (S : Bytes) (ip : Packet) (s : TCPSession τ) : Decidable (s.Carries S ip) :=
  inferInstanceAs (Decidable (_ → _))

variable [ITunnel τ]

theorem SameUpload.uploaded {s t : TCPSession τ} (h : SameUpload s t) (ip : Packet) :
    SameUpload (s.uploaded ip) (t.uploaded ip) := by
  refine ⟨?_, ?_, h.remoteSeqBase, h.taken⟩
  · unfold TCPSession.uploaded queuedForward filledDatagram
    simp only
    rw [h.forwardDatagram ip, h.forwardQueue]
  · show t.mRemoteNext + _ = s.mRemoteNext + _
    rw [h.remoteNext]

theorem acceptPayload_upload (ip : Packet) (s : TCPSession τ) :
    SameUpload s (acceptPayload ip s) ∨
      (s.Queues ip ∧ SameUpload (s.uploaded ip) (acceptPayload ip s)) := by
  rcases acceptPayload_cases ip s with ⟨hqueues, heq⟩ | ⟨-, -, heq⟩ | ⟨-, heq⟩ <;> rw [heq]
  · exact .inr ⟨hqueues, (pushInBackQueue_frame ACK [] _).sameUpload⟩
  · exact .inl ((pushInBackQueue_frame ACK [] s).trans (flushBackQueue_frame _)).sameUpload
  · exact .inl (flushBackQueue_frame s).sameUpload

theorem acceptFirstPayload_upload (ip : Packet) (s : TCPSession τ) :
    SameUpload s (acceptFirstPayload ip s) ∨
      (s.Queues ip ∧ SameUpload (s.uploaded ip) (acceptFirstPayload ip s)) := by
  rcases acceptFirstPayload_cases ip s with ⟨hqueues, heq⟩ | ⟨-, -, heq⟩ | ⟨-, heq⟩ <;> rw [heq]
  · exact .inr ⟨hqueues, (flushBackQueue_frame _).sameUpload⟩
  · exact .inl ((pushInBackQueue_frame ACK [] s).trans (flushBackQueue_frame _)).sameUpload
  · exact .inl (flushBackQueue_frame s).sameUpload

-- A segment without SYN, FIN and RST leaves the upload alone, or has its payload queued.
theorem accept_upload {ip : Packet} {s s' : TCPSession τ} (hopened : s.mState ≠ .listen)
    (hplain : ip.Plain) (hstep : accept ip s = some s') :
    SameUpload s s' ∨ (s.TakesPayload ip ∧ s.Queues ip ∧ SameUpload (s.uploaded ip) s') := by
  obtain ⟨t, haccepted, rfl⟩ := accept_accepted hopened hstep
  have hcounted := (countAccepted_frame ip s).sameUpload
  have hinert := countAccepted_inert ip s
  have hnoted : SameUpload t t.noteTime := ⟨rfl, rfl, rfl, rfl⟩
  cases haccepted with
  | syn hsyn => exact absurd hsyn (by rw [hplain.1]; decide)
  | fin _ hfin => exact absurd hfin (by rw [hplain.2.1]; decide)
  | rst _ _ hrst => exact absurd hrst (by rw [hplain.2.2]; decide)
  | stale tunnel => exact .inl (hcounted.trans ⟨rfl, rfl, rfl, rfl⟩)
  | ack _ hle hack =>
    have hacked : SameUpload s ((s.countAccepted ip).acknowledged ip) :=
      hcounted.trans ⟨rfl, rfl, rfl, rfl⟩
    have hle' : s.mLocalNext ≤ s.relativeAck ip := by
      unfold relativeAck at hle ⊢
      rw [hinert.localNext, (countAccepted_frame ip s).localSeqBase] at hle
      exact hle
    have hflushed (state : TCPState) : SameUpload s
        (((s.countAccepted ip).acknowledged ip).switchState state).flushBackQueue :=
      hacked.trans ((switchState_frame state _).trans (flushBackQueue_frame _)).sameUpload
    -- what the two branches that look at the payload have in common
    have hpayload {u : TCPSession τ} (hu : SameUpload s u) (hopen : s.TakesPayload ip)
        (h : SameUpload u t ∨ (u.Queues ip ∧ SameUpload (u.uploaded ip) t)) :
        SameUpload s t.noteTime ∨
          (s.TakesPayload ip ∧ s.Queues ip ∧ SameUpload (s.uploaded ip) t.noteTime) := by
      rcases h with hsame | ⟨hqueues, hsame⟩
      · exact .inl ((hu.trans hsame).trans hnoted)
      · exact .inr ⟨hopen, (hu.queues_iff ip).mp hqueues, ((hu.uploaded ip).trans hsame).trans hnoted⟩
    rcases onReceiveACK_cases hack with ⟨hstate, rfl⟩ | ⟨-, rfl⟩ | ⟨-, rfl⟩ | ⟨-, rfl⟩ |
      ⟨hstate, rfl⟩ | ⟨-, -, -, -, -, rfl⟩
    · refine hpayload (hacked.trans (switchState_frame .established _).sameUpload) ?_
        (acceptFirstPayload_upload ip _)
      exact ⟨hle', .inl (hinert.state.symm.trans hstate)⟩
    · exact .inl ((hflushed _).trans hnoted)
    · exact .inl ((hflushed _).trans hnoted)
    · exact .inl ((hflushed _).trans hnoted)
    · refine hpayload hacked ?_ (acceptPayload_upload ip _)
      exact ⟨hle', .inr (hinert.state.symm.trans hstate)⟩
    · exact .inl ((hacked.trans (flushBackQueue_frame _).sameUpload).trans hnoted)

/-! ## Calls from the tunnel -/

theorem onRemoteFinished_upload (s : TCPSession τ) : SameUpload s s.onRemoteFinished := by
  refine SameUpload.trans ?_ (flushBackQueue_frame _).sameUpload
  exact ⟨rfl, rfl, rfl, rfl⟩

theorem onTunnelDisconnected_upload (reason : U8) (s : TCPSession τ) :
    SameUpload s (s.onTunnelDisconnected reason) := by
  unfold onTunnelDisconnected
  split
  · exact onRemoteFinished_upload s
  · exact onRemoteFinished_upload s
  · exact (switchState_frame _ s).sameUpload
  · exact (switchState_frame _ s).sameUpload
  · exact (switchState_frame _ s).sameUpload
  · exact (switchState_frame _ s).sameUpload
  · exact (resetConnection_frame s).sameUpload

omit [ITunnel τ] in
theorem countRecv_upload (i : Nat) (s : TCPSession τ) : SameUpload s (s.countRecv i) := by
  unfold countRecv
  split
  · refine SameUpload.trans ?_ (emit_frame rfl _).sameUpload
    exact ⟨rfl, rfl, rfl, rfl⟩
  · exact .refl s

theorem countSent_upload (n : Nat) (s : TCPSession τ) : SameUpload s (s.countSent n) := by
  unfold countSent
  split
  · refine SameUpload.trans ?_ (emit_frame rfl _).sameUpload
    exact ⟨rfl, rfl, rfl, rfl⟩
  · exact ⟨rfl, rfl, rfl, rfl⟩

theorem onTunnelDataBack_upload (data : Bytes) (s : TCPSession τ) :
    SameUpload s (s.onTunnelDataBack data) := by
  have hpaused (t : TCPSession τ) : SameUpload t t.pauseIfFull := by
    unfold pauseIfFull
    split <;> exact ⟨rfl, rfl, rfl, rfl⟩
  have hnoted (t : TCPSession τ) : SameUpload t t.noteTime := ⟨rfl, rfl, rfl, rfl⟩
  unfold onTunnelDataBack
  refine SameUpload.trans ?_ (hnoted _)
  split
  · refine SameUpload.trans ?_ (onRemoteFinished_upload _)
    exact ⟨rfl, rfl, rfl, rfl⟩
  · have hrelay := (relayLoop_frame data.length data s).sameUpload
    exact (hrelay.trans (countRecv_upload _ _)).trans (hpaused _)

-- A writable tunnel takes bytes off the front of the forward queue.
theorem onTunnelWritable_upload (s : TCPSession τ) :
    SameUpload s s.onTunnelWritable ∨ SameUpload s.drained s.onTunnelWritable := by
  unfold onTunnelWritable
  split
  · exact .inl ⟨rfl, rfl, rfl, rfl⟩
  · simp only
    split
    · exact .inr ((onTunnelDisconnected_upload _ _).trans (countSent_upload _ _))
    · exact .inr (countSent_upload _ _)

/-! ## The stream -/

omit [ITunnel τ] in
def Received (base : U32) (past : List (Event τ)) (i : Nat) : Prop :=
  ∃ ip, .accept ip ∈ past ∧ (tcpRelativeSeq ip.seq base).toNat ≤ i ∧
    i < (tcpRelativeSeq ip.seq base).toNat + ip.payload.length

omit [ITunnel τ] in
-- What has been taken and what is queued is what has been acknowledged, all of it received.
structure Uploads (S : Bytes) (base : U32) (past : List (Event τ)) (s : TCPSession τ) : Prop where
  opened : s.Opened
  remoteSeqBase : s.mRemoteSeqBase = base
  pos : 1 ≤ s.mRemoteNext.toNat
  stream : s.taken ++ BufferQueue.bytes s.mForwardQueue = S.take (s.mRemoteNext.toNat - 1)
  received : ∀ i, 1 ≤ i → i < s.mRemoteNext.toNat → Received base past i

omit [ITunnel τ] in
theorem Received.mono {base : U32} {past : List (Event τ)} {i : Nat} (h : Received base past i)
    (e : Event τ) : Received base (past ++ [e]) i := by
  obtain ⟨ip, hmem, hcovers⟩ := h
  exact ⟨ip, List.mem_append_left _ hmem, hcovers⟩

omit [ITunnel τ] in
theorem Uploads.of_same {S : Bytes} {base : U32} {past : List (Event τ)} {s s' : TCPSession τ}
    (h : Uploads S base past s) (hsame : SameUpload s s') (hopened : s'.Opened) (e : Event τ) :
    Uploads S base (past ++ [e]) s' where
  opened := hopened
  remoteSeqBase := hsame.remoteSeqBase.trans h.remoteSeqBase
  pos := by
    rw [hsame.remoteNext]
    exact h.pos
  stream := by
    rw [hsame.taken, hsame.forwardQueue, hsame.remoteNext]
    exact h.stream
  received i hpos hlt := by
    rw [hsame.remoteNext] at hlt
    exact (h.received i hpos hlt).mono e

-- Taking bytes off the forward queue moves them from one side to the other.
theorem drained_stream (s : TCPSession τ) :
    s.drained.taken ++ BufferQueue.bytes s.drained.mForwardQueue =
      s.taken ++ BufferQueue.bytes s.mForwardQueue := by
  have hbytes := drain_bytes s.mForwardQueue s.mTunnel
  have htaken : s.drained.taken = s.taken ++ (drain s.mForwardQueue s.mTunnel).taken := by
    unfold drained
    simp only
    rw [taken_emit, List.flatMap_singleton]
    rfl
  rw [htaken, List.append_assoc]
  exact congrArg (s.taken ++ ·) hbytes

-- A payload in order is appended to the queue.
theorem uploaded_bytes {ip : Packet} {s : TCPSession τ}
    (hbehind : ∀ t ∈ s.mForwardQueue, 0 < (s.forwardDatagram ip).compare t) :
    BufferQueue.bytes (s.uploaded ip).mForwardQueue =
      BufferQueue.bytes s.mForwardQueue ++ ip.payload := by
  have hend : BufferQueue.findNotSmaller TCPDatagram.compare (s.forwardDatagram ip)
      s.mForwardQueue = s.mForwardQueue.length := BufferQueue.findNotSmaller_eq_length hbehind
  show BufferQueue.bytes (s.mForwardQueue.insertIdx _ (s.filledDatagram ip)) = _
  rw [hend, List.insertIdx_length_self, BufferQueue.bytes_append, BufferQueue.bytes_cons,
    BufferQueue.bytes_nil, List.append_nil, filledDatagram_readable]

theorem Uploads.uploaded {S : Bytes} {base : U32} {past : List (Event τ)} {s s' : TCPSession τ}
    {ip : Packet} (h : Uploads S base past s) (hcarries : s.Carries S ip)
    (hqueues : s.Queues ip) (hnext : s.relativeSeq ip = s.mRemoteNext)
    (hbehind : ∀ t ∈ s.mForwardQueue, 0 < (s.forwardDatagram ip).compare t)
    (hsame : SameUpload (s.uploaded ip) s') (hopened : s'.Opened) :
    Uploads S base (past ++ [.accept ip]) s' := by
  obtain ⟨-, hfit, hpayload⟩ := hcarries hqueues.1
  rw [hnext] at hfit hpayload
  have hpos := h.pos
  have hremote : s'.mRemoteNext.toNat = s.mRemoteNext.toNat + ip.payload.length := by
    rw [hsame.remoteNext]
    show (s.mRemoteNext + BitVec.ofNat 32 ip.payload.length).toNat = _
    rw [BitVec.toNat_add, BitVec.toNat_ofNat, Nat.mod_eq_of_lt (show ip.payload.length < 2 ^ 32 by omega),
      Nat.mod_eq_of_lt hfit]
  refine ⟨hopened, hsame.remoteSeqBase.trans h.remoteSeqBase, ?_, ?_, ?_⟩
  · omega
  · have htaken : s'.taken = s.taken := hsame.taken
    rw [htaken, hsame.forwardQueue, uploaded_bytes hbehind, ← List.append_assoc, h.stream, hpayload,
      hremote, ← List.take_add]
    congr 1
    omega
  · intro i hi hlt
    rw [hremote] at hlt
    by_cases hold : i < s.mRemoteNext.toNat
    · exact (h.received i hi hold).mono _
    · refine ⟨ip, List.mem_append_right _ (List.mem_singleton_self _), ?_⟩
      have hseq : tcpRelativeSeq ip.seq base = s.mRemoteNext := by
        rw [← h.remoteSeqBase]
        exact hnext
      rw [hseq]
      omega

/-- The packets of a run are plain segments that carry their piece of the stream. -/
def UploadEvent (S : Bytes) (s : TCPSession τ) : Event τ → Prop
  | .accept ip => ip.Plain ∧ s.Carries S ip
  | _ => True

def UploadsInOrder (s : TCPSession τ) : Event τ → Prop
  | .accept ip => s.InOrder ip
  | _ => True

instance (S : Bytes) (s : TCPSession τ) : ∀ e, Decidable (s.UploadEvent S e)
  | .accept _ => inferInstanceAs (Decidable (_ ∧ _))
  | .tunnelConnected | .tunnelDisconnected _ | .tunnelWritable | .tunnelDataBack _ | .written _ _
  | .environment _ _ _ => inferInstanceAs (Decidable True)

instance (s : TCPSession τ) : ∀ e, Decidable (s.UploadsInOrder e)
  | .accept ip => inferInstanceAs (Decidable (s.InOrder ip))
  | .tunnelConnected | .tunnelDisconnected _ | .tunnelWritable | .tunnelDataBack _ | .written _ _
  | .environment _ _ _ => inferInstanceAs (Decidable True)

theorem step_uploads {S : Bytes} {base : U32} {past : List (Event τ)} {s s' : TCPSession τ}
    {e : Event τ} (h : Uploads S base past s) (hevent : s.UploadEvent S e)
    (horder : s.UploadsInOrder e) (hstep : step s e = some s') :
    Uploads S base (past ++ [e]) s' := by
  have hopened := step_opened h.opened hstep
  cases e with
  | accept ip =>
    obtain ⟨hplain, hcarries⟩ := hevent
    rcases accept_upload h.opened.2 hplain hstep with hsame | ⟨htakes, hqueues, hsame⟩
    · exact h.of_same hsame hopened _
    · obtain ⟨hnext, hbehind⟩ := horder htakes hqueues
      exact h.uploaded hcarries hqueues hnext hbehind hsame hopened
  | tunnelWritable =>
    cases hstep
    rcases onTunnelWritable_upload s with hsame | hsame
    · exact h.of_same hsame hopened _
    · have hremote : s.onTunnelWritable.mRemoteNext = s.mRemoteNext := hsame.remoteNext
      refine ⟨hopened, hsame.remoteSeqBase.trans h.remoteSeqBase, ?_, ?_, ?_⟩
      · rw [hremote]
        exact h.pos
      · rw [hsame.taken, hsame.forwardQueue, drained_stream, hremote]
        exact h.stream
      · intro i hi hlt
        rw [hremote] at hlt
        exact (h.received i hi hlt).mono _
  | tunnelConnected =>
    cases hstep
    exact h.of_same (.refl s) hopened _
  | tunnelDisconnected reason =>
    cases hstep
    exact h.of_same (onTunnelDisconnected_upload reason s) hopened _
  | tunnelDataBack data =>
    cases hstep
    exact h.of_same (onTunnelDataBack_upload data s) hopened _
  | written i n =>
    cases hstep
    refine h.of_same ?_ hopened _
    exact ⟨rfl, rfl, rfl, rfl⟩
  | environment tunnel now rand =>
    cases hstep
    refine h.of_same ?_ hopened _
    exact ⟨rfl, rfl, rfl, rfl⟩

/-- In a run whose payloads come in order, what the tunnel has taken is a prefix of the stream and
    every acknowledged position has been received. -/
theorem upload_intact {S : Bytes} {s s' : TCPSession τ} {es : List (Event τ)} (hborn : s.Born)
    (hevents : Lib.Along step (fun s e => s.UploadEvent S e ∧ s.UploadsInOrder e) s es)
    (hrun : Lib.run step s es = some s') :
    s'.taken <+: S ∧
      ∀ i, 1 ≤ i → i < s'.mRemoteNext.toNat → Received s.mRemoteSeqBase es i := by
  have hnew := hborn.newborn
  have hstart : Uploads S s.mRemoteSeqBase ([] : List (Event τ)) s := by
    refine ⟨hnew.opened, rfl, ?_, ?_, ?_⟩
    · rw [hnew.remoteNext]
      decide
    · have htaken : s.taken = [] := by
        refine List.flatMap_eq_nil_iff.mpr fun p hp => ?_
        have hearly := hnew.trace p hp
        cases p <;> first | rfl | cases hearly
      rw [htaken, hnew.forwardQueue, hnew.remoteNext]
      rfl
    · intro i hi hlt
      rw [hnew.remoteNext] at hlt
      have hone : ((1 : U32)).toNat = 1 := rfl
      omega
  have hend := Lib.Along.history (Uploads S s.mRemoteSeqBase)
    (fun _ _ _ _ h hcond hstep => step_uploads h hcond.1 hcond.2 hstep) [] hstart hevents hrun
  constructor
  · have hprefix : s'.taken <+: S.take (s'.mRemoteNext.toNat - 1) :=
      ⟨BufferQueue.bytes s'.mForwardQueue, hend.stream⟩
    exact hprefix.trans (List.take_prefix _ _)
  · exact hend.received

-- The first two bytes in order, the first of them repeated.
def sampleUpload : List (Event TCPTunnel) :=
  [.accept (samplePacket 101 1001 ACK [0x61] (by decide)), .tunnelWritable,
    .accept (samplePacket 101 1001 ACK [0x61] (by decide)),
    .accept (samplePacket 102 1001 ACK [0x62] (by decide))]

theorem upload_intact_sample :
    ∃ s' : TCPSession TCPTunnel,
      Lib.run step (sampleBorn sampleTunnel) sampleUpload = some s' ∧
      (s'.taken <+: [0x61, 0x62, 0x63] ∧
        ∀ i, 1 ≤ i → i < s'.mRemoteNext.toNat →
          Received (sampleBorn sampleTunnel).mRemoteSeqBase sampleUpload i) := by
  have hreach : ∃ s' : TCPSession TCPTunnel,
      Lib.run step (sampleBorn sampleTunnel) sampleUpload = some s' ∧ s'.mRemoteNext = 3 :=
    Lib.run_reaches (by decide)
  obtain ⟨s', hrun, -⟩ := hreach
  exact ⟨s', hrun, upload_intact (sampleBorn_born (by decide)) (by decide) hrun⟩

-- The second byte of a stream, arriving first.
def sampleGap : List (Event TCPTunnel) :=
  [.accept (samplePacket 102 1001 ACK [0x62] (by decide)), .tunnelWritable]

/-- A byte beyond the next expected one is acknowledged and sent as if it were that one. -/
theorem upload_gap :
    (sampleBorn sampleTunnel).Born ∧
      Lib.Along step (fun s e => s.UploadEvent [0x61, 0x62, 0x63] e) (sampleBorn sampleTunnel)
        sampleGap ∧
      ¬ Received (sampleBorn sampleTunnel).mRemoteSeqBase sampleGap 1 ∧
      ∃ s' : TCPSession TCPTunnel,
        Lib.run step (sampleBorn sampleTunnel) sampleGap = some s' ∧
        ¬ s'.taken <+: [0x61, 0x62, 0x63] ∧ s'.mRemoteNext = 2 := by
  refine ⟨sampleBorn_born (by decide), by decide, ?_, Lib.run_reaches (by decide)⟩
  rintro ⟨ip, hmem, hstart, -⟩
  rcases List.mem_cons.mp hmem with heq | hmem
  · cases heq
    exact absurd hstart (by decide)
  · rcases List.mem_cons.mp hmem with heq | hmem
    · cases heq
    · cases hmem

end TCPSession

end NetCore
