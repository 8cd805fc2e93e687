import NetCore.Router.WriteOut
import NetCore.System.Ownership
import NetCore.TCPSession.Acknowledge

/-!
# Acknowledgements on their way to the tun

A segment of a session is in its `mBackQueue`, or in `mData`, or in both, and a pure ACK leaves the
one as soon as the router has it in the other.  `Journal` puts beside the system the segments every
session has pushed, with their addresses, so that one can ask of each what became of it: as long as
the steps of the sessions meet `Answers`, the last segment pushed acknowledges all that was accepted,
and it waits or was written out.
-/

namespace NetCore

/-- The segments pushed at these points, and where they are built. -/
def pushedBy : List TracePoint → List Nat × Router → List (Nat × TCPDatagram)
  | [], _ => []
  | point :: points, x =>
      (point.push.map fun d => (x.2.memory.next, d)).toList ++ pushedBy points (point.onHeap x)

variable {r r' : Router} {p : Nat} {d : TCPDatagram} {held : List Nat} {queue : List TCPDatagram}

/-! ## The segments pushed in a step -/

theorem pushedBy_segments (points : List TracePoint) (x : List Nat × Router) :
    (pushedBy points x).map Prod.snd = points.filterMap TracePoint.push := by
  induction points generalizing x with
  | nil => rfl
  | cons point points ih =>
    unfold pushedBy
    rw [List.map_append, ih]
    cases hpush : point.push with
    | none => rw [List.filterMap_cons_none hpush]; rfl
    | some d => rw [List.filterMap_cons_some hpush]; rfl

-- A point appends where it builds, and takes from the front.
theorem TracePoint.onHeap_suffix (point : TracePoint) (x : List Nat × Router) :
    (point.onHeap x).1 <:+
      x.1 ++ ((point.push.map fun d => (x.2.memory.next, d)).toList).map Prod.fst := by
  obtain ⟨held, r⟩ := x
  cases point with
  | pushed d => exact List.suffix_rfl
  | writePackage d =>
    have hsame : (TracePoint.onHeap (.writePackage d) (held, r)).1 = held := by
      simp only [TracePoint.onHeap]
      split
      next => rfl
      next => cases held <;> rfl
    exact ⟨[], hsame.trans (List.append_nil _).symm⟩
  | released d =>
    cases held with
    | nil => exact List.suffix_rfl
    | cons p held => exact ⟨[p], (List.append_nil _).symm⟩
  | _ => exact ⟨[], (List.append_nil _).symm⟩

theorem pushedBy_suffix (points : List TracePoint) (x : List Nat × Router) :
    (replay points x).1 <:+ x.1 ++ (pushedBy points x).map Prod.fst := by
  induction points generalizing x with
  | nil => exact ⟨[], (List.append_nil _).symm⟩
  | cons point points ih =>
    obtain ⟨gone, hgone⟩ := point.onHeap_suffix x
    obtain ⟨more, hmore⟩ := ih (point.onHeap x)
    unfold pushedBy
    rw [List.map_append, ← List.append_assoc, ← hgone, List.append_assoc, ← hmore]
    exact ⟨gone ++ more, List.append_assoc ..⟩

/-! ## What the trace of the router says of the queue -/

-- What `mRetry` says of a segment.
structure Router.Told (r : Router) (p : Nat) (d : TCPDatagram) : Prop where
  once : 0 < d.mRetry → ∃ data, .queued p data ∈ r.trace
  twice : 1 < d.mRetry → r.WroteOut p

theorem Router.Told.mono (h : r.Told p d) (hgrows : r.trace <+: r'.trace) : r'.Told p d where
  once hretry := by
    obtain ⟨data, hqueued⟩ := h.once hretry
    exact ⟨data, hgrows.subset hqueued⟩
  twice hretry := (h.twice hretry).mono hgrows

theorem Router.told_mono (h : List.Forall₂ r.Told held queue) (hgrows : r.trace <+: r'.trace) :
    List.Forall₂ r'.Told held queue := h.imp fun _ _ htold => htold.mono hgrows

-- What the router has written does not change `mRetry`.
theorem Router.told_reload (segment : Nat → TCPDatagram → BufferSegment)
    (h : List.Forall₂ r.Told held queue) :
    List.Forall₂ r.Told held
      (List.zipWith (fun p d => { d with toBufferSegment := segment p d }) held queue) := by
  induction h with
  | nil => exact .nil
  | cons hhead _ ih => exact .cons ⟨hhead.once, hhead.twice⟩ ih

-- The flags say so, and it is so.
theorem Router.wroteOut_of_was (hlogged : r.Logged) (hcell : r.Holds p d) (htold : r.Told p d)
    (hwas : d.WasWritten) : r.WroteOut p := by
  rcases hwas with ⟨hretry, hbuffering⟩ | hretry
  · obtain ⟨data, hqueued⟩ := htold.once hretry
    exact (hlogged p _ hcell).back hbuffering hqueued
  · exact htold.twice hretry

-- While a step is replayed.
structure Traced (r₀ : Router) (held₀ : List Nat) (r : Router) (held : List Nat)
    (queue : List TCPDatagram) : Prop where
  tended : Tended r₀ held₀ r held queue
  grows : r₀.trace <+: r.trace
  logged : r.Logged
  told : List.Forall₂ r.Told held queue

theorem Router.Sound.post_writes (h : r.Sound) {segment : BufferSegment}
    (hbuffering : segment.isBuffering = false) (habort : segment.isAbort = false) :
    r.Writes (r.post segment) := by
  have hbuilt := h.build_writes hbuffering habort
  exact hbuilt.trans (hbuilt.sound.onSyncEvent_writes _)

theorem Traced.writes {r₀ : Router} {held₀ held' : List Nat} {queue' : List TCPDatagram}
    (h : Traced r₀ held₀ r held queue) (hwrites : r.Writes r') (htended : Tended r₀ held₀ r' held' queue')
    (htold : List.Forall₂ r'.Told held queue → List.Forall₂ r'.Told held' queue') :
    Traced r₀ held₀ r' held' queue' :=
  ⟨htended, h.grows.trans hwrites.grows, hwrites.logged h.logged,
    htold (Router.told_mono h.told hwrites.grows)⟩

theorem traced_rule (r₀ : Router) (held₀ : List Nat) : ReplayRule (Traced r₀ held₀) where
  holds h := h.tended.holds
  kept h := h.tended.kept
  pushed h hbuffering habort hrelease hretry := by
    refine h.writes (h.tended.sound.build_writes hbuffering habort)
      (h.tended.pushed hbuffering habort hrelease) fun htold => ?_
    refine List.rel_append htold (.cons ?_ .nil)
    exact ⟨fun hpos => absurd hpos (by omega), fun hpos => absurd hpos (by omega)⟩
  handed {r p held d rest} h hsize hbuffering habort := by
    have hwrites := h.tended.sound.onSyncEvent_writes p
    obtain ⟨hcell, -⟩ := List.forall₂_cons.mp h.tended.holds
    obtain ⟨hfront, -⟩ := List.forall₂_cons.mp h.told
    obtain ⟨-, -, -, -, htrace⟩ := Router.onSyncEvent_taken hcell hsize hbuffering habort
    refine h.writes hwrites (h.tended.handed hsize hbuffering habort) fun htold => ?_
    refine .cons ⟨fun _ => ⟨d.readable, ?_⟩, fun hretry => ?_⟩ (List.forall₂_cons.mp htold).2
    · rw [htrace]
      exact List.mem_append_right _ List.mem_cons_self
    · -- it is handed over again, so it has come back from the first time
      have hretry : 1 < d.mRetry + 1 := hretry
      have hwas : d.WasWritten := .inl ⟨by omega, hbuffering⟩
      exact (Router.wroteOut_of_was h.logged hcell hfront hwas).mono hwrites.grows
  posted h hsize hbuffering habort hrelease :=
    h.writes (h.tended.sound.post_writes hbuffering habort)
      (h.tended.posted hsize hbuffering habort hrelease) id
  released h :=
    h.writes (h.tended.sound.safeRelease_writes _) h.tended.released fun htold =>
      (List.forall₂_cons.mp htold).2

section Forall₂

variable {α β : Type} {R R' : α → β → Prop} {l : List α} {m : List β} {a a' : α} {i : Nat}

theorem forall₂_getLast? (h : List.Forall₂ R l m) (ha : l.getLast? = some a) :
    ∃ b, m.getLast? = some b ∧ R a b := by
  obtain ⟨front, rfl⟩ := List.getLast?_eq_some_iff.mp ha
  have hreverse := List.forall₂_reverse_iff.mpr h
  rw [List.reverse_append, List.reverse_singleton, List.singleton_append] at hreverse
  obtain ⟨b, rest, hab, -, hm⟩ := List.forall₂_cons_left_iff.mp hreverse
  refine ⟨b, ?_, hab⟩
  rw [List.getLast?_eq_head?_reverse, hm, List.head?_cons]

end Forall₂

/-! ## One session -/

namespace TCPHolder

variable {τ : Type} {h h' : TCPHolder τ} {log : List (Nat × TCPDatagram)}

-- The segments a session that has come to `h'` from `h` has pushed on the way.
def pushedSince (r : Router) (h h' : TCPHolder τ) : List (Nat × TCPDatagram) :=
  pushedBy (h'.session.trace.drop h.session.trace.length) (h.segments, r)

-- A session and the segments it has pushed.
structure Answered (r : Router) (h : TCPHolder τ) (log : List (Nat × TCPDatagram)) : Prop where
  pushes : log.map Prod.snd = h.session.pushes
  queued : h.segments <:+ log.map Prod.fst
  bound : ∀ x ∈ log, x.2.mAck ≤ h.session.mRemoteNext
  ascending : log.Pairwise fun x y => x.2.mAck ≤ y.2.mAck
  last : ∃ x, log.getLast? = some x ∧ x.2.mAck = h.session.mRemoteNext ∧
    (h.segments = [] → r.WroteOut x.1)
  told : List.Forall₂ r.Told h.segments h.session.mBackQueue

-- The last segment pushed is the last in the queue.
theorem Answered.getLast? (hanswered : h.Answered r log) {x : Nat × TCPDatagram}
    (hx : log.getLast? = some x) (hne : h.segments ≠ []) : h.segments.getLast? = some x.1 := by
  obtain ⟨gone, hgone⟩ := hanswered.queued
  rw [← List.getLast?_append_of_ne_nil gone hne, hgone, List.getLast?_map, hx]
  rfl

-- Nothing but the trace has changed.
theorem Answered.mono (hanswered : h.Answered r log) (hgrows : r.trace <+: r'.trace) :
    h.Answered r' log := by
  obtain ⟨hpushes, hqueued, hbound, hascending, ⟨x, hx, hnext, hout⟩, htold⟩ := hanswered
  exact ⟨hpushes, hqueued, hbound, hascending, ⟨x, hx, hnext, fun hempty => (hout hempty).mono hgrows⟩,
    Router.told_mono htold hgrows⟩

theorem Answered.reload (hanswered : h.Answered r log) (hgrows : r.trace <+: r'.trace) :
    (h.reload r').Answered r' log := by
  obtain ⟨hpushes, hqueued, hbound, hascending, hlast, htold⟩ := hanswered.mono hgrows
  exact ⟨hpushes, hqueued, hbound, hascending, hlast, Router.told_reload _ htold⟩

-- More is pushed, and the queue is left empty only behind a last segment that was written out.
theorem Answered.pushed (hanswered : h.Answered r log) (new : List (Nat × TCPDatagram))
    (hpushes : h'.session.pushes = h.session.pushes ++ new.map Prod.snd)
    (hqueued : h'.segments <:+ h.segments ++ new.map Prod.fst)
    (hle : h.session.mRemoteNext ≤ h'.session.mRemoteNext)
    (hnew : ∀ x ∈ new, x.2.mAck = h'.session.mRemoteNext)
    (hsame : new = [] → h'.session.mRemoteNext = h.session.mRemoteNext)
    (hempty : h'.segments = [] → new = [] ∧ ∀ x, log.getLast? = some x → r'.WroteOut x.1)
    (htold : List.Forall₂ r'.Told h'.segments h'.session.mBackQueue) :
    h'.Answered r' (log ++ new) := by
  have hbound : ∀ x ∈ log, x.2.mAck ≤ h'.session.mRemoteNext := fun x hx =>
    BitVec.le_trans (hanswered.bound x hx) hle
  refine ⟨?_, ?_, ?_, ?_, ?_, htold⟩
  · rw [List.map_append, hanswered.pushes, hpushes]
  · obtain ⟨gone, hgone⟩ := hanswered.queued
    obtain ⟨more, hmore⟩ := hqueued
    refine ⟨gone ++ more, ?_⟩
    rw [List.append_assoc, hmore, List.map_append, ← hgone, List.append_assoc]
  · refine List.forall_mem_append.mpr ⟨hbound, fun x hx => ?_⟩
    rw [hnew x hx]
    exact BitVec.le_refl _
  · refine List.pairwise_append.mpr ⟨hanswered.ascending, ?_, fun x hx y hy => ?_⟩
    · refine List.pairwise_of_forall_mem_list fun x hx y hy => ?_
      rw [hnew x hx, hnew y hy]
      exact BitVec.le_refl _
    · rw [hnew y hy]
      exact hbound x hx
  · by_cases hnone : new = []
    · obtain ⟨x, hx, hnext, -⟩ := hanswered.last
      refine ⟨x, ?_, hnext.trans (hsame hnone).symm, fun hgone => (hempty hgone).2 x hx⟩
      rw [hnone, List.append_nil, hx]
    · obtain ⟨x, hx⟩ := Option.ne_none_iff_exists'.mp (mt List.getLast?_eq_none_iff.mp hnone)
      refine ⟨x, ?_, hnew x (List.mem_of_getLast? hx), fun hgone => absurd (hempty hgone).1 hnone⟩
      rw [List.getLast?_append_of_ne_nil log hnone, hx]

-- The flags of the last segment say that it was written out.
theorem Answered.last_written (hanswered : h.Answered r log) (hholds : List.Forall₂ r.Holds h.segments
    h.session.mBackQueue) (hlogged : r.Logged) (hwritten : h.session.LastWritten)
    {x : Nat × TCPDatagram} (hx : log.getLast? = some x) : r.WroteOut x.1 := by
  by_cases hheld : h.segments = []
  · obtain ⟨y, hy, -, hout⟩ := hanswered.last
    cases hx.symm.trans hy
    exact hout hheld
  · have hlast := hanswered.getLast? hx hheld
    obtain ⟨d, hd, hcell⟩ := forall₂_getLast? hholds hlast
    obtain ⟨d', hd', htold⟩ := forall₂_getLast? hanswered.told hlast
    cases hd.symm.trans hd'
    exact Router.wroteOut_of_was hlogged hcell htold (hwritten d hd)

variable [ITunnel τ]

theorem Answered.step (hanswered : h.Answered r log) (hagrees : h.Agrees r) (hsound : r.Sound)
    (hlogged : r.Logged) {e : TCPSession.Event τ} (hanswers : h.session.Answers e)
    (hown : ∀ i n, e ≠ .written i n) (hstep : h.step e r = some (h', r')) :
    Traced r h.segments r' h'.segments h'.session.mBackQueue ∧
      h'.Answered r' (log ++ pushedSince r h h') := by
  have hstart : Traced r h.segments r h.segments h.session.mBackQueue :=
    ⟨.start hsound hagrees.holds hagrees.nodup hagrees.kept, List.prefix_rfl, hlogged,
      hanswered.told⟩
  obtain ⟨-, ⟨points, hpoints⟩, htraced⟩ :=
    step_replays (traced_rule r h.segments) hagrees.opened hstart hown hstep
  refine ⟨htraced, ?_⟩
  obtain ⟨s', hs', heq⟩ := Option.map_eq_some_iff.mp hstep
  have htells := TCPSession.step_tells hagrees.opened hanswers hown hs'
  cases heq
  have hdrop : s'.trace.drop h.session.trace.length = points := by
    rw [← hpoints, List.drop_left]
  unfold pushedSince
  simp only [hdrop] at htraced ⊢
  let new := pushedBy points (h.segments, r)
  have hpushes : s'.pushes = h.session.pushes ++ new.map Prod.snd := by
    unfold TCPSession.pushes
    rw [pushedBy_segments, ← hpoints, List.filterMap_append]
  have hnone (hsame : s'.pushes = h.session.pushes) : new = [] := by
    rw [hpushes] at hsame
    exact List.map_eq_nil_iff.mp (List.append_right_eq_self.mp hsame)
  refine hanswered.pushed new hpushes (pushedBy_suffix points (h.segments, r)) htells.le
    (fun x hx => ?_) (fun hnew => htells.told ?_) (fun hgone => ?_) htraced.told
  · obtain ⟨ds, hds, hall⟩ := htells.pushes
    have hsame : new.map Prod.snd = ds := List.append_cancel_left (hpushes.symm.trans hds)
    exact hall x.2 (hsame ▸ List.mem_map_of_mem hx)
  · rw [hpushes, hnew, List.map_nil, List.append_nil]
  · have htold := htraced.told
    dsimp only at hgone
    rw [hgone] at htold
    obtain ⟨hsame, hwritten⟩ := htells.leaves (List.forall₂_nil_left_iff.mp htold)
    refine ⟨hnone hsame, fun x hx => ?_⟩
    exact (hanswered.last_written hagrees.holds hlogged hwritten hx).mono htraced.grows

end TCPHolder

/-! ## The system -/

/-- The system, and the segments each of its TCP sessions has pushed. -/
structure Journal (τ : Type) where
  system : System τ
  pushed : List (List (Nat × TCPDatagram)) := []

namespace System

variable {τ : Type}

-- What the step from `s` to `t` adds.
def record (s t : System τ) (pushed : List (List (Nat × TCPDatagram))) :
    Event τ → List (List (Nat × TCPDatagram))
  | .connect .. =>
      pushed ++ (t.mTCPSessions.drop s.mTCPSessions.length).map fun h =>
        pushedBy h.session.trace ([], s.router)
  | .tcp i _ =>
      match s.mTCPSessions[i]?, t.mTCPSessions[i]? with
      | some h, some h' => pushed.modify i (· ++ TCPHolder.pushedSince s.router h h')
      | _, _ => pushed
  | .releaseTCP i => pushed.eraseIdx i
  | _ => pushed

variable [ITunnel τ]

/-- The session meets its condition. -/
def Answers (s : System τ) : Event τ → Prop
  | .tcp i e => ∀ h ∈ s.mTCPSessions[i]?, h.session.Answers e
  | _ => True

instance (s : System τ) (e : Event τ) : Decidable (s.Answers e) := by
  cases e <;> unfold Answers <;> infer_instance

end System

namespace Journal

variable {τ : Type} [ITunnel τ] {j j' : Journal τ} {s t : System τ}
  {pushed : List (List (Nat × TCPDatagram))}

def step (j : Journal τ) (e : System.Event τ) : Option (Journal τ) :=
  (j.system.step e).map fun t => ⟨t, j.system.record t j.pushed e⟩

omit [ITunnel τ] in
structure Kept (j : Journal τ) : Prop where
  settled : j.system.Settled
  logged : j.system.router.Logged
  answered : List.Forall₂ (TCPHolder.Answered j.system.router) j.system.mTCPSessions j.pushed

omit [ITunnel τ] in
-- The sessions are left alone.
theorem Kept.writes (h : Kept ⟨s, pushed⟩) (hsettled : t.Settled)
    (hwrites : s.router.Writes t.router) (hsessions : t.mTCPSessions = s.mTCPSessions) :
    Kept ⟨t, pushed⟩ := by
  refine ⟨hsettled, hwrites.logged h.logged, ?_⟩
  dsimp only
  rw [hsessions]
  exact h.answered.imp fun _ _ hanswered => hanswered.mono hwrites.grows

omit [ITunnel τ] in
theorem Kept.same (h : Kept ⟨s, pushed⟩) (hsettled : t.Settled)
    (hmemory : t.router.memory = s.router.memory) (htrace : t.router.trace = s.router.trace)
    (hsessions : t.mTCPSessions = s.mTCPSessions) : Kept ⟨t, pushed⟩ :=
  h.writes hsettled (.of_same hsettled.sound (congrArg Lib.Heap.cells hmemory) htrace) hsessions

-- The journal only looks on: its runs are those of the system.
theorem run_system (es : List (System.Event τ)) (j : Journal τ) :
    (Lib.run step j es).map system = Lib.run System.step j.system es := by
  induction es generalizing j with
  | nil => rfl
  | cons e es ih =>
    unfold Lib.run
    cases hstep : j.system.step e with
    | none =>
      have hnone : j.step e = none := by rw [step, hstep, Option.map_none]
      rw [hnone]
      rfl
    | some t =>
      have hsome : j.step e = some ⟨t, j.system.record t j.pushed e⟩ := by
        rw [step, hstep, Option.map_some]
      rw [hsome]
      exact ih _

-- Data waits for its acknowledgement, a byte is repeated and another one accepted.
def busyEvents : List (System.Event TCPTunnel) :=
  [.connect 40000 80 0x0A000002 0x5DB8D822 0 TCPSession.sampleTunnel 0 1000 TCPSession.sampleSYN,
    .writable, .tcp 0 (.accept (TCPSession.samplePacket 101 1001 ACK [] TCPSession.nothing_fits)),
    .tcp 0 (.accept (TCPSession.sampleByte 101 0x61)), .writable,
    .tcp 0 (.tunnelDataBack [7, 8, 9]), .tcp 0 (.accept (TCPSession.sampleByte 101 0x61)),
    .tcp 0 (.accept (TCPSession.sampleByte 102 0x62)), .writable,
    .tcp 0 (.accept (TCPSession.samplePacket 103 1004 ACK [] TCPSession.nothing_fits)), .writable]

end Journal
end NetCore
