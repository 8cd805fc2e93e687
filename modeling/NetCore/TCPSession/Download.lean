import NetCore.Lib.Tiling
import NetCore.TCPSession.Sequence

/-!
# The download is kept until it is acknowledged

The pop loop discards a segment as soon as its first number is below the left edge.  As long as no
acknowledgement falls inside a queued segment, that is when the whole segment has been
acknowledged: every byte numbered is then either below the edge or still in the back queue, and the
queue is contiguous up to `mLocalSeq`.
-/

namespace NetCore

-- The same segment, handed over or written in between.
structure TCPDatagram.SameAs (d d' : TCPDatagram) : Prop where
  mSeq : d'.mSeq = d.mSeq
  mFlag : d'.mFlag = d.mFlag
  mLength : d'.mLength = d.mLength
  mData : d'.mData = d.mData

namespace TCPDatagram

theorem SameAs.refl (d : TCPDatagram) : d.SameAs d := ⟨rfl, rfl, rfl, rfl⟩

theorem SameAs.trans {d d' d'' : TCPDatagram} (h : d.SameAs d') (h' : d'.SameAs d'') :
    d.SameAs d'' :=
  ⟨h'.mSeq.trans h.mSeq, h'.mFlag.trans h.mFlag, h'.mLength.trans h.mLength,
    h'.mData.trans h.mData⟩

theorem SameAs.seqLen {d d' : TCPDatagram} (h : d.SameAs d') : d'.seqLen = d.seqLen := by
  unfold TCPDatagram.seqLen TCPDatagram.hasFlag
  rw [h.mFlag, h.mLength]

theorem SameAs.payload {d d' : TCPDatagram} (h : d.SameAs d') : d'.payload = d.payload := by
  unfold TCPDatagram.payload
  rw [h.mData, h.mLength]

end TCPDatagram

namespace TCPSession

variable {τ : Type}

theorem handedOver_sameAs (d : TCPDatagram) : d.SameAs (handedOver d) := ⟨rfl, rfl, rfl, rfl⟩

theorem routerWrote_sameAs (n : Nat) (d : TCPDatagram) : d.SameAs (routerWrote n d) := by
  have hdata : (d.consume n).mData = d.mData := by
    unfold Segment.consume
    split <;> rfl
  unfold routerWrote
  split
  · simp only
    split <;> exact ⟨rfl, rfl, rfl, hdata⟩
  · exact .refl d

def SameQueue (queue queue' : List TCPDatagram) : Prop :=
  List.Forall₂ TCPDatagram.SameAs queue queue'

theorem SameQueue.refl (queue : List TCPDatagram) : SameQueue queue queue :=
  List.forall₂_same.mpr fun d _ => .refl d

theorem SameQueue.map_eq {α : Type} {f : TCPDatagram → α}
    (hf : ∀ {d d'}, TCPDatagram.SameAs d d' → f d' = f d) {queue queue' : List TCPDatagram}
    (h : SameQueue queue queue') : queue'.map f = queue.map f := by
  induction h with
  | nil => rfl
  | cons hd _ ih => rw [List.map_cons, List.map_cons, hf hd, ih]

theorem SameQueue.exists_left {queue queue' : List TCPDatagram} (h : SameQueue queue queue')
    {d' : TCPDatagram} (hd' : d' ∈ queue') : ∃ d ∈ queue, d.SameAs d' := by
  induction h with
  | nil => cases hd'
  | @cons x y _ _ hxy _ ih =>
    rcases List.mem_cons.mp hd' with rfl | hd'
    · exact ⟨x, List.mem_cons_self, hxy⟩
    · obtain ⟨d, hd, hsame⟩ := ih hd'
      exact ⟨d, List.mem_cons_of_mem x hd, hsame⟩

theorem SameQueue.exists_right {queue queue' : List TCPDatagram} (h : SameQueue queue queue')
    {d : TCPDatagram} (hd : d ∈ queue) : ∃ d' ∈ queue', d.SameAs d' := by
  induction h with
  | nil => cases hd
  | @cons x y _ _ hxy _ ih =>
    rcases List.mem_cons.mp hd with rfl | hd
    · exact ⟨y, List.mem_cons_self, hxy⟩
    · obtain ⟨d', hd', hsame⟩ := ih hd
      exact ⟨d', List.mem_cons_of_mem y hd', hsame⟩

-- The router's writing leaves the same queue.
theorem sameQueue_modify (queue : List TCPDatagram) (i n : Nat) :
    SameQueue queue (queue.modify i (routerWrote n)) := by
  induction queue generalizing i with
  | nil => cases i <;> exact .nil
  | cons d queue ih =>
    cases i with
    | zero => exact .cons (routerWrote_sameAs n d) (SameQueue.refl queue)
    | succ i => exact .cons (.refl d) (ih i)

def seqPos (d : TCPDatagram) : Nat := d.mSeq.toNat

def seqSpan (d : TCPDatagram) : Nat := d.seqLen.toNat

-- Nothing above the left edge is lost, and the queue has no holes.
structure Retains (b : Nat) (s : TCPSession τ) : Prop where
  tiles : ∃ a, Lib.Tiles seqPos seqSpan a s.mBackQueue s.mLocalSeq.toNat
  room : s.mLocalSeq.toNat + b < 2 ^ 32
  /-- A segment that begins below the edge ends there, too. -/
  whole : ∀ d ∈ s.mBackQueue, d.mSeq < s.mLocalNext →
    d.mSeq.toNat + d.mLength ≤ s.mLocalNext.toNat
  kept : ∀ d, .pushed d ∈ s.trace → 0 < d.mLength →
    d.mSeq.toNat + d.mLength ≤ s.mLocalNext.toNat ∨ ∃ d' ∈ s.mBackQueue, d.SameAs d'

def AcksWhole (s : TCPSession τ) : Event τ → Prop
  | .accept ip => ip.UsesAck → s.mLocalNext ≤ s.relativeAck ip → ∀ d ∈ s.mBackQueue,
      d.mSeq < s.relativeAck ip → d.mSeq.toNat + d.mLength ≤ (s.relativeAck ip).toNat
  | _ => True

instance (s : TCPSession τ) : ∀ e, Decidable (s.AcksWhole e)
  | .accept _ => inferInstanceAs (Decidable (_ → _))
  | .tunnelConnected | .tunnelDisconnected _ | .tunnelWritable | .tunnelDataBack _ | .written _ _
  | .environment _ _ _ => inferInstanceAs (Decidable True)

variable [ITunnel τ]

omit [ITunnel τ] in
-- Whatever keeps the numbers and the queued segments keeps the download.
theorem Retains.of_same {b : Nat} {s s' : TCPSession τ} (h : Retains b s)
    (hqueue : SameQueue s.mBackQueue s'.mBackQueue) (hseq : s'.mLocalSeq = s.mLocalSeq)
    (hnext : s'.mLocalNext = s.mLocalNext)
    (htrace : ∀ d, .pushed d ∈ s'.trace → .pushed d ∈ s.trace) : Retains b s' where
  tiles := by
    obtain ⟨a, ha⟩ := h.tiles
    rw [hseq]
    refine ⟨a, ha.congr (hqueue.map_eq ?_) (hqueue.map_eq ?_)⟩
    · exact fun hsame => congrArg BitVec.toNat hsame.mSeq
    · exact fun hsame => congrArg BitVec.toNat hsame.seqLen
  room := by
    rw [hseq]
    exact h.room
  whole d' hd' := by
    obtain ⟨d, hd, hsame⟩ := hqueue.exists_left hd'
    rw [hsame.mSeq, hsame.mLength, hnext]
    exact h.whole d hd
  kept d hpushed hlength := by
    rw [hnext]
    rcases h.kept d (htrace d hpushed) hlength with hacked | ⟨x, hx, hsame⟩
    · exact .inl hacked
    · obtain ⟨x', hx', hsame'⟩ := hqueue.exists_right hx
      exact .inr ⟨x', hx', hsame.trans hsame'⟩

omit [ITunnel τ] in
-- The pop loop takes only what lies below the left edge.
theorem retains_pop {b : Nat} {s : TCPSession τ} (h : Retains b s) : Retains b s.popAcked := by
  have hnext := (popAcked_frame s).localNext
  have hsub : ∀ d ∈ s.popAcked.mBackQueue, d ∈ s.mBackQueue := by
    rw [popAcked_mBackQueue]
    exact fun d hd => (List.dropWhile_sublist _).mem hd
  refine ⟨?_, ?_, ?_, ?_⟩
  · obtain ⟨a, ha⟩ := h.tiles
    rw [popAcked_mBackQueue, popAcked_mLocalSeq]
    exact ha.dropWhile _
  · rw [popAcked_mLocalSeq]
    exact h.room
  · rw [hnext]
    exact fun d hd => h.whole d (hsub d hd)
  · intro d hpushed hlength
    rw [(popAcked_records s).mem_iff rfl] at hpushed
    rw [hnext]
    rcases h.kept d hpushed hlength with hacked | ⟨d', hd', hsame⟩
    · exact .inl hacked
    · rw [popAcked_mBackQueue]
      -- the segment is popped for its number, since it carries data
      by_cases hpops : popsSegment s.mLocalNext d'
      · have hlt : d'.mSeq < s.mLocalNext := by
          unfold popsSegment at hpops
          rw [hsame.mLength] at hpops
          simpa [Nat.ne_of_gt hlength] using hpops
        have hwhole := h.whole d' hd' hlt
        rw [hsame.mSeq, hsame.mLength] at hwhole
        exact .inl hwhole
      · rw [← List.takeWhile_append_dropWhile (p := popsSegment s.mLocalNext)
          (l := s.mBackQueue)] at hd'
        rcases List.mem_append.mp hd' with htake | hdrop
        · exact absurd (List.mem_takeWhile_imp htake) hpops
        · exact .inr ⟨d', hdrop, hsame⟩

theorem retains_number {b : Nat} {s : TCPSession τ} {flag : U8} {data : Bytes} (h : Retains b s)
    (hle : s.mLocalNext ≤ s.mLocalSeq) (hb : numbered flag data ≤ b) :
    Retains (b - numbered flag data) (s.enqueueBack flag data) := by
  have hroom := h.room
  have hle' := BitVec.le_def.mp hle
  have hlen := toNat_seqLen_le flag data s
  have hseq : (s.enqueueBack flag data).mLocalSeq.toNat =
      s.mLocalSeq.toNat + (s.newSegment flag data).seqLen.toNat := by
    rw [enqueueBack_mLocalSeq, BitVec.toNat_add, Nat.mod_eq_of_lt (by omega)]
  refine ⟨?_, ?_, ?_, ?_⟩
  · obtain ⟨a, ha⟩ := h.tiles
    rw [enqueueBack_mBackQueue, hseq]
    exact ⟨a, ha.snoc rfl⟩
  · rw [hseq]
    omega
  · intro d hd hlt
    rw [enqueueBack_mLocalNext] at hlt ⊢
    rw [enqueueBack_mBackQueue, List.mem_append, List.mem_singleton] at hd
    rcases hd with hd | rfl
    · exact h.whole d hd hlt
    · rw [newSegment_mSeq, BitVec.lt_def] at hlt
      omega
  · intro d hpushed hlength
    rw [enqueueBack_mLocalNext, enqueueBack_mBackQueue]
    rw [enqueueBack_trace, List.mem_append, List.mem_singleton] at hpushed
    rcases hpushed with hpushed | hpushed
    · rcases h.kept d hpushed hlength with hacked | ⟨d', hd', hsame⟩
      · exact .inl hacked
      · exact .inr ⟨d', List.mem_append_left _ hd', hsame⟩
    · cases hpushed
      exact .inr ⟨_, List.mem_append_right _ (List.mem_singleton_self _), .refl _⟩

-- Unless the connection has been reset, the download is kept.
def DownloadKept (b : Nat) (s : TCPSession τ) : Prop := .reset ∈ s.trace ∨ Retains b s

omit [ITunnel τ] in
theorem DownloadKept.of_same {b : Nat} {s s' : TCPSession τ} {kind : TracePoint → Bool}
    (h : DownloadKept b s) (hqueue : SameQueue s.mBackQueue s'.mBackQueue)
    (hseq : s'.mLocalSeq = s.mLocalSeq) (hnext : s'.mLocalNext = s.mLocalNext)
    (htrace : Records kind s s') (hkind : ∀ d, kind (.pushed d) = false) : DownloadKept b s' := by
  rcases h with hreset | hretains
  · exact .inl (htrace.mem_of_mem hreset)
  · exact .inr (hretains.of_same hqueue hseq hnext fun d => (htrace.mem_iff (hkind d)).mp)

theorem resetConnection_reset (s : TCPSession τ) : .reset ∈ s.resetConnection.trace := by
  obtain ⟨t, htrace⟩ := s.rstSent_trace
  have hsent : .reset ∈ s.rstSent.trace := by
    rw [htrace]
    simp
  rw [resetConnection_eq]
  exact (switchState_records _ _).mem_of_mem hsent

theorem downloadKept_invariant : StepInvariant (DownloadKept (τ := τ)) where
  mono {_ _ _} h hle := by
    rcases h with hreset | h
    · exact .inl hreset
    · exact .inr ⟨h.tiles, by have := h.room; omega, h.whole, h.kept⟩
  inert {_ s s'} h hinert := by
    refine h.of_same ?_ hinert.localSeq hinert.localNext hinert.trace fun _ => rfl
    rw [hinert.backQueue]
    exact .refl _
  finished {_ s} h := by
    have htrace : Records TracePoint.inert s { s with mRemoteFinished := true } := .of_eq rfl
    exact h.of_same (.refl _) rfl rfl htrace fun _ => rfl
  pop {_ s} h := by
    rcases h with hreset | hretains
    · exact .inl (s.popAcked_records.mem_of_mem hreset)
    · exact .inr (retains_pop hretains)
  sent {_ s d rest} h _ hqueue _ := by
    refine h.of_same ?_ rfl rfl (sentFront_records d rest s) fun _ => rfl
    rw [hqueue]
    exact .cons (handedOver_sameAs d) (SameQueue.refl rest)
  reset {_ s} _ := .inl s.resetConnection_reset
  switch {_ s} state h := by
    refine h.of_same ?_ (switchState_mLocalSeq state s) (switchState_frame state s).localNext
      (switchState_records state s) fun _ => rfl
    rw [switchState_backQueue]
    exact .refl _
  number {_ s flag data} h hle hb _ := by
    rcases h with hreset | hretains
    · exact .inl (List.mem_append_left _ hreset)
    · exact .inr (retains_number hretains hle hb)
  refuse {_ s} flag h _ := by
    have htrace : Records TracePoint.refusing s (s.emit [.refused flag]) :=
      emit_records (by simp [TracePoint.refusing]) s
    exact h.of_same (.refl _) rfl rfl htrace fun _ => rfl
  written {_ s} i n h := by
    have htrace : Records TracePoint.inert s
        { s with mBackQueue := s.mBackQueue.modify i (routerWrote n) } := .of_eq rfl
    exact h.of_same (sameQueue_modify _ i n) rfl rfl htrace fun _ => rfl

/-- What a step needs from its event to keep the download. -/
def KeepsDownload (s : TCPSession τ) (e : Event τ) : Prop := s.AcksWhole e ∧ s.NumbersFit e

instance (s : TCPSession τ) (e : Event τ) : Decidable (s.KeepsDownload e) :=
  inferInstanceAs (Decidable (_ ∧ _))

omit [ITunnel τ] in
theorem Retains.edge {b : Nat} {s : TCPSession τ} {ack : U32} (h : Retains b s)
    (hle : s.mLocalNext ≤ ack)
    (hwhole : ∀ d ∈ s.mBackQueue, d.mSeq < ack → d.mSeq.toNat + d.mLength ≤ ack.toNat) :
    Retains b { s with mLocalNext := ack } where
  tiles := h.tiles
  room := h.room
  whole := hwhole
  kept d hpushed hlength := by
    have hle' := BitVec.le_def.mp hle
    rcases h.kept d hpushed hlength with hacked | hqueued
    · exact .inl (Nat.le_trans hacked hle')
    · exact .inr hqueued

theorem step_downloadKept {s s' : TCPSession τ} {e : Event τ} (h : Steady DownloadKept 0 s)
    (hkeeps : s.KeepsDownload e) (hstep : step s e = some s') : Steady DownloadKept 0 s' := by
  obtain ⟨hwhole, hfit⟩ := hkeeps
  have hkept : DownloadKept (s.demand e) s := by
    rcases h.holds with hreset | hretains
    · exact .inl hreset
    · exact .inr ⟨hretains.tiles, hfit, hretains.whole, hretains.kept⟩
  refine downloadKept_invariant.step ⟨h.sound, h.opened, hkept⟩ (Nat.le_refl _) ?_ hstep
  rintro ip rfl hused hnew
  rcases hkept with hreset | hretains
  · exact .inl hreset
  · exact .inr (hretains.edge hnew (hwhole hused hnew))

omit [ITunnel τ] in
theorem Newborn.downloadKept {s : TCPSession τ} (h : s.Newborn) : Steady DownloadKept 0 s := by
  obtain ⟨d, hqueue, -, hseq, hlength, hflag⟩ := h.backQueue
  refine ⟨h.opened.1, h.opened.2, .inr ⟨⟨0, ?_⟩, ?_, ?_, ?_⟩⟩
  · have hspan : seqSpan d = 1 := by
      unfold seqSpan TCPDatagram.seqLen TCPDatagram.hasFlag
      rw [hflag]
      rfl
    rw [hqueue, h.localSeq]
    refine ⟨congrArg BitVec.toNat hseq, ?_⟩
    rw [hspan]
    rfl
  · rw [h.localSeq]
    decide
  · rw [hqueue, h.localNext]
    intro x hx hlt
    rw [List.mem_singleton.mp hx, hseq] at hlt
    exact absurd hlt (by decide)
  · intro x hpushed hpos
    have hearly := h.trace _ hpushed
    simp only [TracePoint.early, Bool.and_eq_true, decide_eq_true_eq] at hearly
    omega

/-- In a run in which no acknowledgement falls inside a queued segment and the numbers stay below
    2^32, until a reset every byte numbered and not yet acknowledged is in the back queue, and the
    segments of the queue that take numbers follow each other up to `mLocalSeq`. -/
theorem download_retained {s s' : TCPSession τ} {es : List (Event τ)} (hborn : s.Born)
    (hkeeps : Lib.Along step KeepsDownload s es) (hrun : Lib.run step s es = some s')
    (hreset : .reset ∉ s'.trace) :
    (∀ d, .pushed d ∈ s'.trace → ∀ i < d.mLength, s'.mLocalNext.toNat ≤ d.mSeq.toNat + i →
      ∃ d' ∈ s'.mBackQueue,
        d'.mSeq = d.mSeq ∧ d'.mLength = d.mLength ∧ d'.payload = d.payload) ∧
    ∃ a, Lib.Tiles seqPos seqSpan a (s'.mBackQueue.filter fun d => seqSpan d ≠ 0)
      s'.mLocalSeq.toNat := by
  have hsteady := Lib.Along.invariant (Steady DownloadKept 0) (fun _ _ _ => step_downloadKept)
    hborn.newborn.downloadKept hkeeps hrun
  have hretains := hsteady.holds.resolve_left hreset
  constructor
  · intro d hpushed i hi habove
    rcases hretains.kept d hpushed (by omega) with hacked | ⟨d', hd', hsame⟩
    · omega
    · exact ⟨d', hd', hsame.mSeq, hsame.mLength, hsame.payload⟩
  · obtain ⟨a, ha⟩ := hretains.tiles
    refine ⟨a, Lib.Tiles.filter (M := Nat) ha _ fun d _ hspan => ?_⟩
    simpa using hspan

theorem download_retained_sample :
    ∃ s' : TCPSession TCPTunnel,
      Lib.run step (sampleBorn sampleTunnel)
        [.accept (samplePacket 101 1001 ACK [] (by decide)), .tunnelDataBack [1, 2, 3],
          .tunnelDataBack [4, 5], .accept (samplePacket 101 1004 ACK [] (by decide))] = some s' ∧
      ((∀ d, .pushed d ∈ s'.trace → ∀ i < d.mLength, s'.mLocalNext.toNat ≤ d.mSeq.toNat + i →
        ∃ d' ∈ s'.mBackQueue,
          d'.mSeq = d.mSeq ∧ d'.mLength = d.mLength ∧ d'.payload = d.payload) ∧
      ∃ a, Lib.Tiles seqPos seqSpan a (s'.mBackQueue.filter fun d => seqSpan d ≠ 0)
        s'.mLocalSeq.toNat) := by
  have hreach : ∃ s' : TCPSession TCPTunnel,
      Lib.run step (sampleBorn sampleTunnel)
        [.accept (samplePacket 101 1001 ACK [] (by decide)), .tunnelDataBack [1, 2, 3],
          .tunnelDataBack [4, 5], .accept (samplePacket 101 1004 ACK [] (by decide))] = some s' ∧
      .reset ∉ s'.trace := Lib.run_reaches (by decide)
  obtain ⟨s', hrun, hreset⟩ := hreach
  exact ⟨s', hrun, download_retained (sampleBorn_born (by decide)) (by decide) hrun hreset⟩

/-- An acknowledgement of two bytes of three takes the whole segment off the queue. -/
theorem download_lost :
    (sampleBorn sampleTunnel).Born ∧
      ∃ s' : TCPSession TCPTunnel,
        Lib.run step (sampleBorn sampleTunnel)
          [.accept (samplePacket 101 1001 ACK [] (by decide)), .tunnelDataBack [1, 2, 3],
            .accept (samplePacket 101 1003 ACK [] (by decide))] = some s' ∧
        .reset ∉ s'.trace ∧ s'.mLocalNext = 3 ∧ s'.mLocalSeq = 4 ∧ s'.mBackQueue = [] ∧
        s'.trace.any fun p =>
          match p with
          | .pushed d => d.mSeq = 1 && d.mLength = 3
          | _ => false :=
  ⟨sampleBorn_born (by decide), Lib.run_reaches (by decide)⟩

end TCPSession

end NetCore
