import NetCore.Router.Holding
import NetCore.System
import NetCore.TCPSession.Birth

/-!
# What a session does to the heap

`Tended` is the agreement between a session and the heap while a step is replayed: the segments it
holds are those of its `mBackQueue`, flag by flag, and it has left alone what was not its own.  Each
of the four things a step does to the heap keeps it, so a whole step does (`ReplayRule`).
-/

namespace NetCore

variable {r r' r₀ : Router} {p : Nat} {held held₀ : List Nat} {queue : List TCPDatagram}

def Router.Holds (r : Router) (p : Nat) (d : TCPDatagram) : Prop :=
  r.memory.cells p = some d.toBufferSegment

theorem Router.holds_congr (h : List.Forall₂ r.Holds held queue)
    (hcells : ∀ p ∈ held, r'.memory.cells p = r.memory.cells p) :
    List.Forall₂ r'.Holds held queue := by
  induction h with
  | nil => exact .nil
  | cons hhead _ ih =>
    refine .cons ((hcells _ List.mem_cons_self).trans hhead) (ih fun q hq => ?_)
    exact hcells q (List.mem_cons_of_mem _ hq)

theorem Router.live_of_holds (h : List.Forall₂ r.Holds held queue) (hp : p ∈ held) :
    r.memory.Live p := by
  induction h with
  | nil => cases hp
  | cons hhead _ ih =>
    rcases List.mem_cons.mp hp with rfl | hp
    · exact Lib.Heap.live_of_cell hhead
    · exact ih hp

-- A session that has found `r₀` with its segments at `held₀` has come to `r` and `held`.
structure Tended (r₀ : Router) (held₀ : List Nat) (r : Router) (held : List Nat)
    (queue : List TCPDatagram) : Prop where
  sound : r.Sound
  faults : r.memory.faults = r₀.memory.faults
  next : r₀.memory.next ≤ r.memory.next
  holds : List.Forall₂ r.Holds held queue
  nodup : held.Nodup
  kept : ∀ d ∈ queue, d.releaseAfterBuffering = false
  own : ∀ p ∈ held, p ∈ held₀ ∨ r₀.memory.next ≤ p
  others : ∀ p, p < r₀.memory.next → p ∉ held₀ → r.memory.cells p = r₀.memory.cells p
  /-- What the session has let go of, the router releases. -/
  owed {p : Nat} {segment : BufferSegment} :
    r.memory.cells p = some segment →
      p ∈ held ∨ (p < r₀.memory.next ∧ p ∉ held₀) ∨
        (segment.releaseAfterBuffering = true ∧ p ∈ r.mData)

-- What a session that is about to take a step has to do with the heap.
structure TCPHolder.Agrees {τ : Type} (r : Router) (h : TCPHolder τ) : Prop where
  opened : h.session.Opened
  holds : List.Forall₂ r.Holds h.segments h.session.mBackQueue
  nodup : h.segments.Nodup
  kept : ∀ d ∈ h.session.mBackQueue, d.releaseAfterBuffering = false

namespace Tended

theorem start (hsound : r.Sound) (hholds : List.Forall₂ r.Holds held queue) (hnodup : held.Nodup)
    (hkept : ∀ d ∈ queue, d.releaseAfterBuffering = false) : Tended r held r held queue where
  sound := hsound
  faults := rfl
  next := Nat.le_refl _
  holds := hholds
  nodup := hnodup
  kept := hkept
  own _ := .inl
  others _ _ _ := rfl
  owed {p _} hcell := by
    by_cases hp : p ∈ held
    · exact .inl hp
    · exact .inr (.inl ⟨(Lib.Heap.live_of_cell hcell).lt, hp⟩)

-- A change at one address, which the session holds or has just got.
theorem apart (h : Tended r₀ held₀ r held queue) {held' : List Nat} {queue' : List TCPDatagram}
    (hapart : Router.Apart p r r') (hmine : p ∈ held ∨ r.memory.next ≤ p) (hsound : r'.Sound)
    (hfaults : r'.memory.faults = r.memory.faults) (hholds : List.Forall₂ r'.Holds held' queue')
    (hnodup : held'.Nodup) (hkept : ∀ d ∈ queue', d.releaseAfterBuffering = false)
    (hsub : ∀ q ∈ held', q ∈ held ∨ q = p) (hsup : ∀ q ∈ held, q ≠ p → q ∈ held')
    (howed : ∀ segment, r'.memory.cells p = some segment →
      p ∈ held' ∨ segment.releaseAfterBuffering = true ∧ p ∈ r'.mData) :
    Tended r₀ held₀ r' held' queue' := by
  have hown : p ∈ held₀ ∨ r₀.memory.next ≤ p := by
    rcases hmine with hheld | hnew
    · exact h.own p hheld
    · exact .inr (Nat.le_trans h.next hnew)
  refine ⟨hsound, hfaults.trans h.faults, Nat.le_trans h.next hapart.next, hholds, hnodup, hkept,
    fun q hq => ?_, fun q hlt hq => ?_, fun {q segment} hcell => ?_⟩
  · rcases hsub q hq with hheld | rfl
    · exact h.own q hheld
    · exact hown
  · have hne : q ≠ p := by
      rintro rfl
      rcases hown with hmem | hle
      · exact hq hmem
      · omega
    exact (hapart.cells q hne).trans (h.others q hlt hq)
  · by_cases hq : q = p
    · subst hq
      rcases howed segment hcell with hheld | hreleased
      · exact .inl hheld
      · exact .inr (.inr hreleased)
    · rw [hapart.cells q hq] at hcell
      rcases h.owed hcell with hheld | hother | ⟨hrelease, hdata⟩
      · exact .inl (hsup q hheld hq)
      · exact .inr (.inl hother)
      · exact .inr (.inr ⟨hrelease, (hapart.mData q hq).mpr hdata⟩)

/-! ## The points of the trace -/

-- A segment is built and pushed.
theorem pushed (h : Tended r₀ held₀ r held queue) {d : TCPDatagram}
    (hbuffering : d.isBuffering = false) (habort : d.isAbort = false)
    (hrelease : d.releaseAfterBuffering = false) :
    Tended r₀ held₀ (r.build d.toBufferSegment) (held ++ [r.memory.next]) (queue ++ [d]) := by
  have hnew : r.memory.next ∉ held := fun hmem =>
    Lib.Heap.not_live_next (Router.live_of_holds h.holds hmem)
  have hkept : List.Forall₂ (r.build d.toBufferSegment).Holds held queue :=
    Router.holds_congr h.holds fun q hq =>
      (Router.apart_build r d.toBufferSegment).cells q (ne_of_mem_of_not_mem hq hnew)
  refine h.apart (Router.apart_build r d.toBufferSegment) (.inr (Nat.le_refl _))
    (h.sound.build hbuffering habort) rfl ?_ ?_ ?_ ?_ ?_ ?_
  · exact List.rel_append hkept (.cons Lib.Heap.alloc_self .nil)
  · rw [List.nodup_append_comm]
    exact List.nodup_cons.mpr ⟨hnew, h.nodup⟩
  · intro x hx
    rcases List.mem_append.mp hx with hx | hx
    · exact h.kept x hx
    · rw [List.mem_singleton.mp hx]
      exact hrelease
  · intro q hq
    simpa using hq
  · exact fun q hq _ => List.mem_append_left _ hq
  · exact fun _ _ => .inl (List.mem_append_right _ List.mem_cons_self)

-- The front of the queue is handed over.
theorem handed {d : TCPDatagram} {rest : List TCPDatagram}
    (h : Tended r₀ held₀ r (p :: held) (d :: rest)) (hsize : 0 < d.size)
    (hbuffering : d.isBuffering = false) (habort : d.isAbort = false) :
    Tended r₀ held₀ (r.onSyncEvent p).2 (p :: held) (TCPSession.handedOver d :: rest) := by
  obtain ⟨hcell, hholds⟩ := List.forall₂_cons.mp h.holds
  obtain ⟨hout, -⟩ := List.nodup_cons.mp h.nodup
  obtain ⟨hapart, hself, hdata, hfaults, -⟩ := Router.onSyncEvent_taken hcell hsize hbuffering habort
  refine h.apart hapart (.inl List.mem_cons_self) (h.sound.onSyncEvent p) hfaults ?_ h.nodup ?_
    (fun q hq => .inl hq) (fun q hq _ => hq) (fun _ _ => .inl List.mem_cons_self)
  · exact .cons hself (Router.holds_congr hholds fun q hq =>
      hapart.cells q (ne_of_mem_of_not_mem hq hout))
  · intro x hx
    rcases List.mem_cons.mp hx with rfl | hx
    · exact h.kept d List.mem_cons_self
    · exact h.kept x (List.mem_cons_of_mem d hx)

-- A segment is built, handed over and forgotten.
theorem posted (h : Tended r₀ held₀ r held queue) {segment : BufferSegment}
    (hsize : 0 < segment.size) (hbuffering : segment.isBuffering = false)
    (habort : segment.isAbort = false) (hrelease : segment.releaseAfterBuffering = true) :
    Tended r₀ held₀ (r.post segment) held queue := by
  have hnew : r.memory.next ∉ held := fun hmem =>
    Lib.Heap.not_live_next (Router.live_of_holds h.holds hmem)
  have hcell : (r.build segment).memory.cells r.memory.next = some segment := Lib.Heap.alloc_self
  obtain ⟨hapart, hself, hdata, hfaults, -⟩ :=
    Router.onSyncEvent_taken hcell hsize hbuffering habort
  have hposted : Router.Apart r.memory.next r (r.post segment) :=
    (Router.apart_build r segment).trans hapart
  have hmem : r.memory.next ∈ (r.post segment).mData :=
    hdata.symm ▸ List.mem_append_right _ List.mem_cons_self
  refine h.apart hposted (.inr (Nat.le_refl _))
    ((h.sound.build hbuffering habort).onSyncEvent _) hfaults ?_ h.nodup h.kept
    (fun q hq => .inl hq) (fun q hq _ => hq) ?_
  · exact Router.holds_congr h.holds fun q hq =>
      hposted.cells q (ne_of_mem_of_not_mem hq hnew)
  · intro x hx
    cases hself.symm.trans hx
    exact .inr ⟨hrelease, hmem⟩

-- The front of the queue is released: at once, or by the router when it is written.
theorem released {d : TCPDatagram} {rest : List TCPDatagram}
    (h : Tended r₀ held₀ r (p :: held) (d :: rest)) :
    Tended r₀ held₀ (r.safeRelease p) held rest := by
  obtain ⟨hcell, hholds⟩ := List.forall₂_cons.mp h.holds
  obtain ⟨hout, hnodup⟩ := List.nodup_cons.mp h.nodup
  have hlive := Lib.Heap.live_of_cell hcell
  have hrelease : r.safeRelease p =
      r.onMemory (if d.isBuffering then .modify p .abort else .free p) := by
    unfold Router.safeRelease
    rw [hcell]
  have hsub (q : Nat) (hq : q ∈ p :: held) (hne : q ≠ p) : q ∈ held :=
    (List.mem_cons.mp hq).resolve_left hne
  have hkept (x : TCPDatagram) (hx : x ∈ rest) : x.releaseAfterBuffering = false :=
    h.kept x (List.mem_cons_of_mem d hx)
  have hsound := h.sound.safeRelease p
  rw [hrelease] at hsound ⊢
  cases hbuffering : d.isBuffering with
  | true =>
    rw [hbuffering, if_pos rfl] at hsound
    rw [if_pos rfl]
    have hapart := Router.apart_modify p .abort r
    have hmem : p ∈ r.mData := ((h.sound.fits p).buffering hcell).mp hbuffering
    refine h.apart hapart (.inl List.mem_cons_self) hsound (Lib.Heap.faults_modify hlive) ?_ hnodup
      hkept (fun q hq => .inl (List.mem_cons_of_mem p hq)) hsub ?_
    · exact Router.holds_congr hholds fun q hq => hapart.cells q (ne_of_mem_of_not_mem hq hout)
    · intro x hx
      cases (Lib.Heap.modify_self hcell).symm.trans hx
      exact .inr ⟨rfl, hmem⟩
  | false =>
    rw [hbuffering, if_neg Bool.false_ne_true] at hsound
    rw [if_neg Bool.false_ne_true]
    have hapart := Router.apart_free p r
    refine h.apart hapart (.inl List.mem_cons_self) hsound (Lib.Heap.faults_free hlive) ?_ hnodup
      hkept (fun q hq => .inl (List.mem_cons_of_mem p hq)) hsub ?_
    · exact Router.holds_congr hholds fun q hq => hapart.cells q (ne_of_mem_of_not_mem hq hout)
    · intro x hx
      cases (Lib.Heap.free_self hlive).symm.trans hx

end Tended

-- What all that a session does to the heap keeps, with the queue it has then.
structure ReplayRule (K : Router → List Nat → List TCPDatagram → Prop) : Prop where
  holds {r : Router} {held : List Nat} {queue : List TCPDatagram} :
    K r held queue → List.Forall₂ r.Holds held queue
  kept {r : Router} {held : List Nat} {queue : List TCPDatagram} :
    K r held queue → ∀ d ∈ queue, d.releaseAfterBuffering = false
  pushed {r : Router} {held : List Nat} {queue : List TCPDatagram} {d : TCPDatagram} :
    K r held queue → d.isBuffering = false → d.isAbort = false → d.releaseAfterBuffering = false →
      d.mRetry = 0 → K (r.build d.toBufferSegment) (held ++ [r.memory.next]) (queue ++ [d])
  handed {r : Router} {p : Nat} {held : List Nat} {d : TCPDatagram} {rest : List TCPDatagram} :
    K r (p :: held) (d :: rest) → 0 < d.size → d.isBuffering = false → d.isAbort = false →
      K (r.onSyncEvent p).2 (p :: held) (TCPSession.handedOver d :: rest)
  posted {r : Router} {held : List Nat} {queue : List TCPDatagram} {segment : BufferSegment} :
    K r held queue → 0 < segment.size → segment.isBuffering = false → segment.isAbort = false →
      segment.releaseAfterBuffering = true → K (r.post segment) held queue
  released {r : Router} {p : Nat} {held : List Nat} {d : TCPDatagram} {rest : List TCPDatagram} :
    K r (p :: held) (d :: rest) → K (r.safeRelease p) held rest

theorem tended_rule (r₀ : Router) (held₀ : List Nat) : ReplayRule (Tended r₀ held₀) where
  holds h := h.holds
  kept h := h.kept
  pushed h hbuffering habort hrelease _ := h.pushed hbuffering habort hrelease
  handed h hsize hbuffering habort := h.handed hsize hbuffering habort
  posted h hsize hbuffering habort hrelease := h.posted hsize hbuffering habort hrelease
  released h := h.released

/-! ## The parts of a step -/

-- A point that does nothing to the heap.
def TracePoint.idle (point : TracePoint) : Prop :=
  ∀ x, point.onHeap x = x

theorem replay_append (points more : List TracePoint) (x : List Nat × Router) :
    replay (points ++ more) x = replay more (replay points x) := List.foldl_append

theorem replay_idle {points : List TracePoint} (h : ∀ point ∈ points, point.idle)
    (x : List Nat × Router) : replay points x = x := by
  induction points generalizing x with
  | nil => rfl
  | cons point points ih =>
    obtain ⟨hpoint, hrest⟩ := List.forall_mem_cons.mp h
    show replay points (point.onHeap x) = x
    rw [hpoint x]
    exact ih hrest x

namespace TracePoint

theorem idle_of_inert {point : TracePoint} (h : point.inert) : point.idle := by
  cases point <;> first | exact fun _ => rfl | cases h

theorem idle_of_switching {point : TracePoint} (h : point.switching) : point.idle := by
  cases point <;> first | exact fun _ => rfl | cases h

end TracePoint

namespace TCPSession

variable {τ : Type} {K : Router → List Nat → List TCPDatagram → Prop} {trace₀ : List TracePoint}
  {b : Nat} {s s' : TCPSession τ}

-- What the session has done since its trace was `trace₀`, replayed, agrees with what it holds.
def Replayed (K : Router → List Nat → List TCPDatagram → Prop) (r₀ : Router) (held₀ : List Nat)
    (trace₀ : List TracePoint) (_ : Nat) (s : TCPSession τ) : Prop :=
  ∃ points, s.trace = trace₀ ++ points ∧
    K (replay points (held₀, r₀)).2 (replay points (held₀, r₀)).1 s.mBackQueue

namespace Replayed

-- More has been recorded and replayed.
theorem more (h : Replayed K r₀ held₀ trace₀ b s) (points : List TracePoint)
    (htrace : s'.trace = s.trace ++ points)
    (hreplayed : ∀ r held, K r held s.mBackQueue →
      K (replay points (held, r)).2 (replay points (held, r)).1 s'.mBackQueue) :
    Replayed K r₀ held₀ trace₀ b s' := by
  obtain ⟨past, hpast, hheld⟩ := h
  refine ⟨past ++ points, by rw [htrace, hpast, List.append_assoc], ?_⟩
  rw [replay_append]
  exact hreplayed _ _ hheld

theorem idle (h : Replayed K r₀ held₀ trace₀ b s) (points : List TracePoint)
    (htrace : s'.trace = s.trace ++ points) (hidle : ∀ point ∈ points, point.idle)
    (hqueue : s'.mBackQueue = s.mBackQueue) : Replayed K r₀ held₀ trace₀ b s' := by
  refine h.more points htrace fun r held hheld => ?_
  rw [replay_idle hidle, hqueue]
  exact hheld

theorem records {kind : TracePoint → Bool} (h : Replayed K r₀ held₀ trace₀ b s)
    (hrecords : Records kind s s') (hkind : ∀ point, kind point → point.idle)
    (hqueue : s'.mBackQueue = s.mBackQueue) : Replayed K r₀ held₀ trace₀ b s' := by
  obtain ⟨points, htrace, hpoints⟩ := hrecords
  exact h.idle points htrace (fun point hpoint => hkind point (hpoints point hpoint)) hqueue

theorem popSegment (rule : ReplayRule K) {d : TCPDatagram} {queue : List TCPDatagram}
    (h : Replayed K r₀ held₀ trace₀ b { s with mBackQueue := d :: queue }) :
    Replayed K r₀ held₀ trace₀ b { s.popSegment d with mBackQueue := queue } := by
  refine h.more [.released (releaseMark d)] rfl fun r held hheld => ?_
  cases held with
  | nil => cases rule.holds hheld
  | cons p held => exact rule.released hheld

theorem popLoop (rule : ReplayRule K) {queue : List TCPDatagram}
    (h : Replayed K r₀ held₀ trace₀ b { s with mBackQueue := queue }) :
    Replayed K r₀ held₀ trace₀ b (popLoop queue s) := by
  induction queue generalizing s with
  | nil => exact h
  | cons d queue ih =>
    rw [TCPSession.popLoop]
    split
    · exact ih (h.popSegment rule)
    · exact h

theorem sent (rule : ReplayRule K) {d : TCPDatagram} {rest : List TCPDatagram}
    (h : Replayed K r₀ held₀ trace₀ b s) (hsound : s.BackSound) (hqueue : s.mBackQueue = d :: rest)
    (hsends : s.SendsFront d) : Replayed K r₀ held₀ trace₀ b (s.sentFront d rest) := by
  have hd : d.Sound := hsound d (by rw [hqueue]; exact List.mem_cons_self)
  refine h.more (packagePoints (handedOver d) s) rfl fun r held hheld => ?_
  rw [hqueue] at hheld
  cases held with
  | nil => cases rule.holds hheld
  | cons p held =>
    have hkept : (handedOver d).releaseAfterBuffering = false :=
      rule.kept hheld d List.mem_cons_self
    have hreplay : replay (packagePoints (handedOver d) s) (p :: held, r) =
        (p :: held, (r.onSyncEvent p).2) := by
      show TracePoint.onHeap (.writePackage (handedOver d)) (p :: held, r) = _
      exact if_neg (by rw [hkept]; exact Bool.false_ne_true)
    rw [hreplay]
    exact rule.handed hheld hd.size_pos hsends.2.1 hd.notAborted

variable [ITunnel τ]

theorem switchState (h : Replayed K r₀ held₀ trace₀ b s) (state : TCPState) :
    Replayed K r₀ held₀ trace₀ b (s.switchState state) :=
  h.records (switchState_records state s) (fun _ => TracePoint.idle_of_switching)
    (switchState_backQueue state s)

theorem resetConnection (rule : ReplayRule K) (h : Replayed K r₀ held₀ trace₀ b s) :
    Replayed K r₀ held₀ trace₀ b s.resetConnection := by
  rw [resetConnection_eq]
  refine Replayed.switchState ?_ _
  obtain ⟨t, htrace⟩ := s.rstSent_trace
  refine h.more _ htrace fun r held hheld => ?_
  have hsize : 0 < (handedOver t.rstSegment).toBufferSegment.giveBack.size := by
    show 0 < (t.buildPackage (RST ||| ACK) []).size
    rw [size_buildPackage]
    omega
  rw [rstSent_mBackQueue]
  exact rule.posted hheld hsize rfl rfl rfl

theorem enqueueBack (rule : ReplayRule K) (h : Replayed K r₀ held₀ trace₀ b s) (flag : U8)
    (data : Bytes) : Replayed K r₀ held₀ trace₀ b (s.enqueueBack flag data) :=
  h.more _ (enqueueBack_trace flag data s) fun _ _ hheld => rule.pushed hheld rfl rfl rfl rfl

end Replayed

variable [ITunnel τ]

theorem replayed_invariant (rule : ReplayRule K) (r₀ : Router) (held₀ : List Nat)
    (trace₀ : List TracePoint) : PartInvariant (Replayed (τ := τ) K r₀ held₀ trace₀) where
  mono h _ := h
  inert h hinert := h.records hinert.trace (fun _ => TracePoint.idle_of_inert) hinert.backQueue
  finished h := h.idle [] (List.append_nil _).symm (by simp) rfl
  pop h := h.popLoop rule
  sent h hsound hqueue hsends := h.sent rule hsound hqueue hsends
  reset h := h.resetConnection rule
  switch state h := h.switchState state
  number h _ _ _ := h.enqueueBack rule _ _
  refuse flag h _ := h.idle [.refused flag] rfl (by simp [TracePoint.idle, TracePoint.onHeap]) rfl

-- The answer to the SYN.
theorem Replayed.handshake (rule : ReplayRule K) (h : Replayed K r₀ held₀ trace₀ b s) (ip : Packet)
    (hqueue : s.mBackQueue = []) : Replayed K r₀ held₀ trace₀ b (handshake ip s) := by
  have hnumbered : Replayed K r₀ held₀ trace₀ b (s.synNumbered ip) :=
    h.idle [] (List.append_nil _).symm (by simp) rfl
  have hsound : (s.synNumbered ip).BackSound := by
    unfold BackSound
    rw [show (s.synNumbered ip).mBackQueue = [] from hqueue]
    exact List.forall_mem_nil _
  have hpushed : ((s.synNumbered ip).enqueueBack (SYN ||| ACK) []).popAcked.BackSound :=
    popAcked_sound (enqueueBack_sound hsound _ (Nat.zero_le _))
  unfold TCPSession.handshake
  rw [pushInBackQueue_of_le (BitVec.le_refl (0 : U32))]
  have hinvariant := replayed_invariant (τ := τ) rule r₀ held₀ trace₀
  exact (hinvariant.sendBackData hpushed (hinvariant.pop (hnumbered.enqueueBack rule _ _))).switchState _

end TCPSession

namespace TCPHolder

variable {τ : Type} [ITunnel τ] {K : Router → List Nat → List TCPDatagram → Prop}
  {h h' : TCPHolder τ}

-- A step of a session, on the heap: what it keeps of the heap, it keeps.
theorem step_replays (rule : ReplayRule K) (hopened : h.session.Opened)
    (hstart : K r h.segments h.session.mBackQueue) {e : TCPSession.Event τ}
    (hown : ∀ i n, e ≠ .written i n) (hstep : h.step e r = some (h', r')) :
    h'.session.Opened ∧ h.session.trace <+: h'.session.trace ∧
      K r' h'.segments h'.session.mBackQueue := by
  obtain ⟨s', hs', heq⟩ := Option.map_eq_some_iff.mp hstep
  have hstart : TCPSession.Replayed K r h.segments h.session.trace (h.session.demand e) h.session :=
    ⟨[], (List.append_nil _).symm, hstart⟩
  have hsteady : TCPSession.Steady (TCPSession.Replayed K r h.segments h.session.trace)
      (h.session.demand e) h.session := ⟨hopened.1, hopened.2, hstart⟩
  have hafter := (TCPSession.replayed_invariant rule r h.segments h.session.trace).call.step hsteady
    (Nat.le_refl _) (fun _ _ _ _ => hstart) hown hs'
  obtain ⟨points, htrace, hheld⟩ := hafter.holds
  cases heq
  simp only [htrace, List.drop_left]
  exact ⟨⟨hafter.sound, hafter.opened⟩, List.prefix_append _ _, hheld⟩

theorem Agrees.step (hagrees : h.Agrees r) (hsound : r.Sound) {e : TCPSession.Event τ}
    (hown : ∀ i n, e ≠ .written i n) (hstep : h.step e r = some (h', r')) :
    h'.session.Opened ∧ Tended r h.segments r' h'.segments h'.session.mBackQueue := by
  obtain ⟨hopened, -, htended⟩ := step_replays (tended_rule r h.segments) hagrees.opened
    (Tended.start hsound hagrees.holds hagrees.nodup hagrees.kept) hown hstep
  exact ⟨hopened, htended⟩

-- The first step of a session.
theorem connect_replays (rule : ReplayRule K) {s₀ : TCPSession τ} {ip : Packet} (hfresh : s₀.Fresh)
    (hsyn : hasFlag ip.flag SYN) (hstart : K r [] [])
    (hstep : TCPHolder.step ⟨s₀, []⟩ (.accept ip) r = some (h', r')) :
    h'.session.Opened ∧ K r' h'.segments h'.session.mBackQueue := by
  obtain ⟨s', hs', heq⟩ := Option.map_eq_some_iff.mp hstep
  have hborn : s'.Born := ⟨s₀, ip, hfresh, hsyn, hs'⟩
  obtain ⟨t, hs', -, -, hback, -, htrace⟩ := hfresh.accept_eq hsyn hs'
  have hstart : TCPSession.Replayed K r [] s₀.trace 0 t := by
    have hfound : TCPSession.Replayed K r [] s₀.trace 0 s₀ :=
      ⟨[], (List.append_nil _).symm, by
        rw [hfresh.backQueue]
        exact hstart⟩
    obtain ⟨points, hpoints, hinert⟩ := (TCPSession.countAccepted_inert ip s₀).trace
    exact hfound.idle points (htrace.trans hpoints) (fun _ hp => TracePoint.idle_of_inert (hinert _ hp))
      (hback.trans hfresh.backQueue.symm)
  obtain ⟨points, hpoints, hheld⟩ := hstart.handshake rule ip hback
  have hnoted : s'.trace = s₀.trace ++ points ∧ s'.mBackQueue = (TCPSession.handshake ip t).mBackQueue := by
    rw [hs']
    exact ⟨(TCPSession.noteTime_trace _).trans hpoints, rfl⟩
  cases heq
  simp only [hnoted.1, List.drop_left, hnoted.2]
  exact ⟨hborn.newborn.opened, hheld⟩

theorem step_connect {s₀ : TCPSession τ} {ip : Packet} (hfresh : s₀.Fresh)
    (hsyn : hasFlag ip.flag SYN) (hsound : r.Sound)
    (hstep : TCPHolder.step ⟨s₀, []⟩ (.accept ip) r = some (h', r')) :
    h'.session.Opened ∧ Tended r [] r' h'.segments h'.session.mBackQueue :=
  connect_replays (tended_rule r []) hfresh hsyn
    (Tended.start hsound .nil List.nodup_nil (List.forall_mem_nil _)) hstep

end TCPHolder

end NetCore
