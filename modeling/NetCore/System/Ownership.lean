import NetCore.Router.Wakeup
import NetCore.System.Replay
import NetCore.UDPSession.Packets

/-!
# Who owns a segment

In every state a run reaches, the heap, `mData` and the queues of the sessions agree (`Settled`): a
segment is marked as buffered exactly as long as the router has it, no address in use is stale, and
no segment is freed twice.  What is on the heap besides the queues of the sessions waits in `mData`
for the router to release it (`Accounted`), unless a direct UDP session has read a reply.
-/

namespace NetCore

theorem TCPDatagram.Sound.wroteAll {d : TCPDatagram} (h : d.Sound) (ns : List Nat) :
    TCPDatagram.Sound { d with toBufferSegment := d.toBufferSegment.wroteAll ns } := by
  induction ns generalizing d with
  | nil => exact h
  | cons n ns ih =>
    have hwrote : { d with toBufferSegment := d.toBufferSegment.wrote n } =
        TCPSession.routerWrote n d := by
      have hresume : (d.consume n).resume = d.resume := by
        unfold Segment.consume
        split <;> rfl
      unfold BufferSegment.wrote TCPSession.routerWrote
      simp only [hresume]
      split
      · split
        next hdone =>
          rw [if_pos (show (d.consume n).size ≤ 0 from hdone)]
          rfl
        next hleft =>
          rw [if_neg (show ¬ (d.consume n).size ≤ 0 from hleft)]
          rfl
      · rfl
    have hnext := TCPSession.routerWrote_sound n h
    rw [← hwrote] at hnext
    exact ih hnext

variable {r r' : Router} {held held₀ : List Nat} {queue : List TCPDatagram} {τ : Type}

/-! ## What the router has written is read back -/

theorem holds_reload (hwritten : Router.Written r r') (h : List.Forall₂ r.Holds held queue)
    (hkept : ∀ d ∈ queue, d.releaseAfterBuffering = false) :
    List.Forall₂ r'.Holds held
        (List.zipWith
          (fun p d => { d with toBufferSegment := (r'.memory.cells p).getD d.toBufferSegment })
          held queue) ∧
      ∀ d' ∈ List.zipWith
          (fun p d => { d with toBufferSegment := (r'.memory.cells p).getD d.toBufferSegment })
          held queue,
        ∃ d ∈ queue, ∃ ns, d' = { d with toBufferSegment := d.toBufferSegment.wroteAll ns } := by
  induction h with
  | nil => exact ⟨.nil, by simp⟩
  | cons hhead _ ih =>
    rename_i p d held queue _
    obtain ⟨hrelease, hrest⟩ := List.forall_mem_cons.mp hkept
    obtain ⟨htail, horigin⟩ := ih hrest
    obtain ⟨ns, hns⟩ := hwritten.back hhead hrelease
    have hloaded : (r'.memory.cells p).getD d.toBufferSegment = d.toBufferSegment.wroteAll ns := by
      rw [hns, Option.getD_some]
    rw [List.zipWith_cons_cons, hloaded]
    refine ⟨.cons hns htail, List.forall_mem_cons.mpr ⟨⟨d, List.mem_cons_self, ns, rfl⟩, ?_⟩⟩
    intro x hx
    obtain ⟨y, hy, horigin⟩ := horigin x hx
    exact ⟨y, List.mem_cons_of_mem d hy, horigin⟩

theorem TCPHolder.Agrees.reload {h : TCPHolder τ} (hagrees : h.Agrees r)
    (hwritten : Router.Written r r') : (h.reload r').Agrees r' := by
  obtain ⟨hholds, horigin⟩ := holds_reload hwritten hagrees.holds hagrees.kept
  refine ⟨⟨fun d' hd' => ?_, hagrees.opened.2⟩, hholds, hagrees.nodup, fun d' hd' => ?_⟩
  · obtain ⟨d, hd, ns, rfl⟩ := horigin d' hd'
    exact (hagrees.opened.1 d hd).wroteAll ns
  · obtain ⟨d, hd, ns, rfl⟩ := horigin d' hd'
    exact (BufferSegment.releaseAfterBuffering_wroteAll ns _).trans (hagrees.kept d hd)

/-! ## What one session does and the others see -/

-- What is not in a queue waits for the router to release it.
def Router.Accounts (held : List Nat) (r : Router) : Prop :=
  ∀ p segment, r.memory.cells p = some segment →
    p ∈ held ∨ (segment.releaseAfterBuffering = true ∧ p ∈ r.mData)

namespace Tended

theorem agrees (h : Tended r held₀ r' held queue) {g : TCPHolder τ} (hopened : g.session.Opened)
    (hheld : g.segments = held) (hqueue : g.session.mBackQueue = queue) : g.Agrees r' := by
  subst hheld hqueue
  exact ⟨hopened, h.holds, h.nodup, h.kept⟩

theorem others_agree (h : Tended r held₀ r' held queue) {g : TCPHolder τ} (hg : g.Agrees r)
    (hdisjoint : g.segments.Disjoint held₀) : g.Agrees r' ∧ g.segments.Disjoint held := by
  have hlt (p : Nat) (hp : p ∈ g.segments) : p < r.memory.next :=
    (Router.live_of_holds hg.holds hp).lt
  refine ⟨⟨hg.opened, ?_, hg.nodup, hg.kept⟩, fun p hp hheld => ?_⟩
  · exact Router.holds_congr hg.holds fun p hp => h.others p (hlt p hp) fun hmem => hdisjoint hp hmem
  · rcases h.own p hheld with hold | hnew
    · exact hdisjoint hp hold
    · have := hlt p hp
      omega

-- The segments of the session are exchanged for those it has now.
theorem accounts (h : Tended r held₀ r' held queue) (hsound : r.Sound) {rest : List Nat}
    (hbefore : r.Accounts (held₀ ++ rest)) : r'.Accounts (held ++ rest) := by
  intro p segment hcell
  rw [List.mem_append, or_assoc]
  rcases h.owed hcell with hheld | ⟨hlt, hout⟩ | hreleased
  · exact .inl hheld
  · have hcell' := (h.others p hlt hout).symm.trans hcell
    rcases hbefore p segment hcell' with hmem | ⟨hrelease, hdata⟩
    · exact .inr (.inl ((List.mem_append.mp hmem).resolve_left hout))
    · -- the mark of the segment tells that it is still in the queue
      have hbuffering := ((hsound.fits p).buffering hcell').mpr hdata
      exact .inr (.inr ⟨hrelease, ((h.sound.fits p).buffering hcell).mp hbuffering⟩)
  · exact .inr (.inr hreleased)

end Tended

-- `clearBackQueue`.
theorem clearBackQueue_tended {h : TCPHolder τ} (hagrees : h.Agrees r) (hsound : r.Sound) :
    Tended r h.segments (h.clearBackQueue r) [] [] := by
  have hall {held : List Nat} {queue : List TCPDatagram} {r' : Router}
      (htended : Tended r h.segments r' held queue) :
      Tended r h.segments (held.foldl (fun r p => r.safeRelease p) r') [] [] := by
    induction held generalizing r' queue with
    | nil =>
      cases htended.holds
      exact htended
    | cons p held ih =>
      cases queue with
      | nil => cases htended.holds
      | cons d queue => exact ih htended.released
  exact hall (.start hsound hagrees.holds hagrees.nodup hagrees.kept)

/-! ## Packets nobody keeps -/

-- From `r` to `r'` there are new segments besides those of `r`.
structure Router.Besides (r r' : Router) : Prop where
  sound : r'.Sound
  faults : r'.memory.faults = r.memory.faults
  next : r.memory.next ≤ r'.memory.next
  others : ∀ p, p < r.memory.next → r'.memory.cells p = r.memory.cells p

theorem Router.Besides.agrees (h : r.Besides r') {g : TCPHolder τ} (hg : g.Agrees r) :
    g.Agrees r' :=
  ⟨hg.opened, Router.holds_congr hg.holds fun p hp =>
    h.others p (Router.live_of_holds hg.holds hp).lt, hg.nodup, hg.kept⟩

-- A packet is built and taken.
theorem post_besides (hsound : r.Sound) {segment : BufferSegment} (hsize : 0 < segment.size)
    (hbuffering : segment.isBuffering = false) (habort : segment.isAbort = false) :
    r.Besides (r.post segment) ∧
      (r.post segment).memory.cells r.memory.next = some segment.hold ∧
      (∀ p, p ∈ (r.post segment).mData ↔ p ∈ r.mData ∨ p = r.memory.next) ∧
      ∀ p, p ≠ r.memory.next → (r.post segment).memory.cells p = r.memory.cells p := by
  have hcell : (r.build segment).memory.cells r.memory.next = some segment := Lib.Heap.alloc_self
  obtain ⟨hapart, hself, hdata, hfaults, -⟩ :=
    Router.onSyncEvent_taken hcell hsize hbuffering habort
  have hposted := (Router.apart_build r segment).trans hapart
  refine ⟨⟨(hsound.build hbuffering habort).onSyncEvent _, hfaults, hposted.next, fun p hp => ?_⟩,
    hself, fun p => ?_, hposted.cells⟩
  · exact hposted.cells p (Nat.ne_of_lt hp)
  · show p ∈ ((r.build segment).onSyncEvent r.memory.next).2.mData ↔ _
    rw [hdata, List.mem_append, List.mem_singleton]
    rfl

theorem replayUDP_besides {points : List UDPPoint} (hsound : r.Sound)
    (hbuilt : ∀ point ∈ points, point.Built) : r.Besides (replayUDP points r) := by
  induction points generalizing r with
  | nil => exact ⟨hsound, rfl, Nat.le_refl _, fun _ _ => rfl⟩
  | cons point points ih =>
    obtain ⟨hpoint, hrest⟩ := List.forall_mem_cons.mp hbuilt
    show r.Besides (replayUDP points (point.onHeap r))
    cases point with
    | writePackage segment =>
      obtain ⟨hfirst, -⟩ := post_besides hsound hpoint.1 hpoint.2.1 hpoint.2.2
      have hmore := ih hfirst.sound hrest
      exact ⟨hmore.sound, hmore.faults.trans hfirst.faults, Nat.le_trans hfirst.next hmore.next,
        fun p hp => (hmore.others p (Nat.lt_of_lt_of_le hp hfirst.next)).trans (hfirst.others p hp)⟩
    | _ => exact ih hsound hrest

theorem replayUDP_accounts {points : List UDPPoint} (hsound : r.Sound)
    (hgiven : ∀ point ∈ points, UDPSession.GivenAway point) (h : r.Accounts held) :
    (replayUDP points r).Accounts held := by
  induction points generalizing r with
  | nil => exact h
  | cons point points ih =>
    obtain ⟨hpoint, hrest⟩ := List.forall_mem_cons.mp hgiven
    show (replayUDP points (point.onHeap r)).Accounts held
    cases point with
    | writePackage segment =>
      obtain ⟨hbuilt, hrelease⟩ := hpoint
      obtain ⟨hfirst, hself, hdata, hothers⟩ :=
        post_besides hsound hbuilt.1 hbuilt.2.1 hbuilt.2.2
      refine ih hfirst.sound hrest fun p x hcell => ?_
      by_cases hp : p = r.memory.next
      · subst hp
        cases hself.symm.trans hcell
        exact .inr ⟨hrelease, (hdata _).mpr (.inr rfl)⟩
      · rcases h p x ((hothers p hp).symm.trans hcell) with hheld | ⟨hflag, hmem⟩
        · exact .inl hheld
        · exact .inr ⟨hflag, (hdata p).mpr (.inl hmem)⟩
    | _ => exact ih hsound hrest h

theorem Router.Accounts.written (h : r.Accounts held) (hwritten : r.Written r') :
    r'.Accounts held := by
  intro p y hcell
  obtain ⟨x, hx, hflag⟩ := hwritten.origin hcell
  rcases h p x hx with hheld | ⟨hrelease, hmem⟩
  · exact .inl hheld
  · have hrelease' : y.releaseAfterBuffering = true := hflag.trans hrelease
    exact .inr ⟨hrelease', hwritten.owed hcell hrelease' hmem⟩

/-! ## Steps -/

namespace System

variable {s s' : System τ}

def queued (s : System τ) : List Nat := s.mTCPSessions.flatMap TCPHolder.segments

structure Settled (s : System τ) : Prop where
  sound : s.router.Sound
  faults : s.router.memory.faults = []
  agrees : ∀ h ∈ s.mTCPSessions, h.Agrees s.router
  disjoint : s.mTCPSessions.Pairwise fun h h' => h.segments.Disjoint h'.segments

def Accounted (s : System τ) : Prop := s.router.Accounts s.queued

-- The list without one entry, and what the list is with another one in its place.
theorem split_at {α : Type} {l : List α} {i : Nat} {x : α} (h : l[i]? = some x) :
    ∃ l₁ l₂, l = l₁ ++ x :: l₂ ∧ (∀ y, l.set i y = l₁ ++ y :: l₂) ∧ l.eraseIdx i = l₁ ++ l₂ := by
  obtain ⟨hlt, rfl⟩ := List.getElem?_eq_some_iff.mp h
  refine ⟨l.take i, l.drop (i + 1), ?_, fun y => ?_, List.eraseIdx_eq_take_drop_succ ..⟩
  · rw [List.getElem_cons_drop, List.take_append_drop]
  · rw [List.set_eq_take_append_cons_drop, if_pos hlt]

-- Settled, with the session in the middle apart.
theorem settled_middle {l₁ l₂ : List (TCPHolder τ)} {h : TCPHolder τ} {router : Router}
    {udp : List UDPFlow} :
    Settled (τ := τ) ⟨router, l₁ ++ h :: l₂, udp⟩ ↔
      Settled (τ := τ) ⟨router, l₁ ++ l₂, udp⟩ ∧ h.Agrees router ∧
        ∀ g ∈ l₁ ++ l₂, g.segments.Disjoint h.segments := by
  have hpairwise : (l₁ ++ h :: l₂).Pairwise (fun h h' => h.segments.Disjoint h'.segments) ↔
      (h :: (l₁ ++ l₂)).Pairwise (fun h h' => h.segments.Disjoint h'.segments) :=
    List.pairwise_middle List.disjoint_symm
  have hmem (g : TCPHolder τ) : g ∈ l₁ ++ h :: l₂ ↔ g = h ∨ g ∈ l₁ ++ l₂ := by
    simp [or_left_comm]
  constructor
  · intro hsettled
    obtain ⟨hapart, hrest⟩ := List.pairwise_cons.mp (hpairwise.mp hsettled.disjoint)
    refine ⟨⟨hsettled.sound, hsettled.faults, fun g hg => ?_, hrest⟩, ?_, fun g hg => ?_⟩
    · exact hsettled.agrees g ((hmem g).mpr (.inr hg))
    · exact hsettled.agrees h ((hmem h).mpr (.inl rfl))
    · exact List.disjoint_symm (hapart g hg)
  · rintro ⟨hrest, hagrees, hapart⟩
    refine ⟨hrest.sound, hrest.faults, fun g hg => ?_, hpairwise.mpr (List.pairwise_cons.mpr ?_)⟩
    · rcases (hmem g).mp hg with rfl | hg
      · exact hagrees
      · exact hrest.agrees g hg
    · exact ⟨fun g hg => List.disjoint_symm (hapart g hg), hrest.disjoint⟩

-- A session has taken a step, or a new one its first: the others are where they were.
theorem Settled.tended {l₁ l₂ : List (TCPHolder τ)} {router router' : Router} {udp : List UDPFlow}
    (hrest : Settled (τ := τ) ⟨router, l₁ ++ l₂, udp⟩) {held₀ held : List Nat}
    {queue : List TCPDatagram} (htended : Tended router held₀ router' held queue)
    (hapart : ∀ g ∈ l₁ ++ l₂, g.segments.Disjoint held₀) :
    Settled (τ := τ) ⟨router', l₁ ++ l₂, udp⟩ ∧ ∀ g ∈ l₁ ++ l₂, g.segments.Disjoint held := by
  have hothers (g : TCPHolder τ) (hg : g ∈ l₁ ++ l₂) :=
    htended.others_agree (hrest.agrees g hg) (hapart g hg)
  exact ⟨⟨htended.sound, htended.faults.trans hrest.faults, fun g hg => (hothers g hg).1,
    hrest.disjoint⟩, fun g hg => (hothers g hg).2⟩

theorem queued_middle {l₁ l₂ : List (TCPHolder τ)} {h : TCPHolder τ} {router : Router}
    {udp : List UDPFlow} {p : Nat} :
    p ∈ queued (τ := τ) ⟨router, l₁ ++ h :: l₂, udp⟩ ↔
      p ∈ h.segments ∨ p ∈ queued (τ := τ) ⟨router, l₁ ++ l₂, udp⟩ := by
  simp [queued, or_left_comm]

theorem accounted_middle {l₁ l₂ : List (TCPHolder τ)} {h : TCPHolder τ} {router : Router}
    {udp : List UDPFlow} :
    Accounted (τ := τ) ⟨router, l₁ ++ h :: l₂, udp⟩ ↔
      router.Accounts (h.segments ++ queued (τ := τ) ⟨router, l₁ ++ l₂, udp⟩) := by
  unfold Accounted Router.Accounts
  simp only [queued_middle, List.mem_append]

-- What every step keeps, and what every step keeps that reads no reply on a direct socket.
structure Keeps (s s' : System τ) (tidy : Prop) : Prop where
  settled : Settled s → Settled s'
  accounted : Settled s → tidy → Accounted s → Accounted s'

-- A change that is not about the segments.
theorem Keeps.of_same {tidy : Prop} (hsessions : s'.mTCPSessions = s.mTCPSessions)
    (hdata : s'.router.mData = s.router.mData) (hmemory : s'.router.memory = s.router.memory)
    (htrace : s'.router.trace = s.router.trace) : Keeps s s' tidy where
  settled h := by
    refine ⟨h.sound.congr hdata hmemory htrace, hmemory ▸ h.faults, ?_, hsessions ▸ h.disjoint⟩
    rw [hsessions]
    intro g hg
    obtain ⟨hopened, hholds, hnodup, hkept⟩ := h.agrees g hg
    exact ⟨hopened, Router.holds_congr hholds fun _ _ => by rw [hmemory], hnodup, hkept⟩
  accounted _ _ h := by
    unfold Accounted Router.Accounts queued
    rw [hsessions, hdata, hmemory]
    exact h

theorem writable_keeps (s : System τ) {tidy : Prop} :
    Keeps s { s with
      router := s.router.onWritable, mTCPSessions := s.mTCPSessions.map (.reload s.router.onWritable) }
      tidy where
  settled h := by
    have hfaults := (h.sound.writeLoop s.router.writeFuel).2.1
    refine ⟨h.sound.onWritable, hfaults.trans h.faults, ?_, List.pairwise_map.mpr h.disjoint⟩
    intro h' hh'
    obtain ⟨g, hg, rfl⟩ := List.mem_map.mp hh'
    exact (h.agrees g hg).reload h.sound.onWritable_written
  accounted hsettled _ h := by
    have hqueued : queued (τ := τ) { s with
        router := s.router.onWritable,
        mTCPSessions := s.mTCPSessions.map (.reload s.router.onWritable) } = s.queued :=
      List.flatMap_map ..
    unfold Accounted
    rw [hqueued]
    exact Router.Accounts.written h hsettled.sound.onWritable_written

theorem releaseTCP_keeps (i : Nat) (s : System τ) {tidy : Prop} : Keeps s (s.releaseTCP i) tidy := by
  unfold releaseTCP
  split
  next => exact .of_same rfl rfl rfl rfl
  next h hget =>
    obtain ⟨l₁, l₂, hlist, -, herase⟩ := split_at hget
    rw [herase]
    obtain ⟨router, sessions, udp⟩ := s
    subst hlist
    constructor
    · intro hsettled
      obtain ⟨hrest, hagrees, hapart⟩ := settled_middle.mp hsettled
      exact (hrest.tended (clearBackQueue_tended hagrees hrest.sound) hapart).1
    · intro hsettled _ haccounted
      obtain ⟨hrest, hagrees, -⟩ := settled_middle.mp hsettled
      exact (clearBackQueue_tended hagrees hrest.sound).accounts hrest.sound
        (accounted_middle.mp haccounted)

variable [ITunnel τ]

theorem stepTCP_keeps {i : Nat} {e : TCPSession.Event τ} {tidy : Prop}
    (hown : ∀ i n, e ≠ .written i n) (hstep : s.stepTCP i e = some s') : Keeps s s' tidy := by
  unfold stepTCP at hstep
  split at hstep
  next =>
    cases hstep
    exact .of_same rfl rfl rfl rfl
  next h hget =>
    obtain ⟨⟨h', router'⟩, hh', rfl⟩ := Option.map_eq_some_iff.mp hstep
    obtain ⟨l₁, l₂, hlist, hset, -⟩ := split_at hget
    simp only [hset]
    obtain ⟨router, sessions, udp⟩ := s
    subst hlist
    constructor
    · intro hsettled
      obtain ⟨hrest, hagrees, hapart⟩ := settled_middle.mp hsettled
      obtain ⟨hopened, htended⟩ := hagrees.step hrest.sound hown hh'
      obtain ⟨hrest', hapart'⟩ := hrest.tended htended hapart
      exact settled_middle.mpr ⟨hrest', htended.agrees hopened rfl rfl, hapart'⟩
    · intro hsettled _ haccounted
      obtain ⟨hrest, hagrees, -⟩ := settled_middle.mp hsettled
      obtain ⟨-, htended⟩ := hagrees.step hrest.sound hown hh'
      exact accounted_middle.mpr (htended.accounts hrest.sound (accounted_middle.mp haccounted))

theorem connect_keeps {session : TCPSession τ} (hfresh : session.Fresh) {ip : Packet} {tidy : Prop}
    (hstep : s.connect session ip = some s') : Keeps s s' tidy := by
  unfold connect at hstep
  split at hstep
  next hsyn =>
    obtain ⟨⟨h', router'⟩, hh', rfl⟩ := Option.map_eq_some_iff.mp hstep
    obtain ⟨router, sessions, udp⟩ := s
    have hlist : sessions ++ [] = sessions := List.append_nil sessions
    constructor
    · intro hsettled
      obtain ⟨hopened, htended⟩ := TCPHolder.step_connect hfresh hsyn hsettled.sound hh'
      rw [← hlist] at hsettled
      obtain ⟨hrest', hapart'⟩ := hsettled.tended htended fun _ _ => List.disjoint_nil_right _
      exact settled_middle.mpr ⟨hrest', htended.agrees hopened rfl rfl, hapart'⟩
    · intro hsettled _ haccounted
      obtain ⟨-, htended⟩ := TCPHolder.step_connect hfresh hsyn hsettled.sound hh'
      refine accounted_middle.mpr (htended.accounts hsettled.sound ?_)
      rw [hlist]
      exact haccounted
  next =>
    cases hstep
    exact .of_same rfl rfl rfl rfl

omit [ITunnel τ] in
def ReadsReply (s : System τ) : Event τ → Prop
  | .udp i e => ∃ flow, s.mUDPSessions[i]? = some flow ∧ flow.ReadsReply e
  | _ => False

omit [ITunnel τ] in
theorem stepUDP_keeps {i : Nat} {e : UDPFlow.Event} (hstep : s.stepUDP i e = some s') :
    Keeps s s' (¬ s.ReadsReply (.udp i e)) := by
  unfold stepUDP at hstep
  split at hstep
  next =>
    cases hstep
    exact .of_same rfl rfl rfl rfl
  next flow hget =>
    obtain ⟨flow', hflow', rfl⟩ := Option.map_eq_some_iff.mp hstep
    obtain ⟨⟨points, htrace, hbuilt⟩, hgiven⟩ := UDPFlow.step_adds hflow'
    rw [htrace, List.drop_left]
    constructor
    · intro hsettled
      have hbesides := replayUDP_besides hsettled.sound hbuilt
      exact ⟨hbesides.sound, hbesides.faults.trans hsettled.faults,
        fun g hg => hbesides.agrees (hsettled.agrees g hg), hsettled.disjoint⟩
    · intro hsettled htidy haccounted
      obtain ⟨points', htrace', hgiven⟩ := hgiven fun hreads => htidy ⟨flow, hget, hreads⟩
      have hsame : points' = points := List.append_cancel_left (htrace'.symm.trans htrace)
      exact replayUDP_accounts hsettled.sound (hsame ▸ hgiven) haccounted

theorem step_keeps {e : Event τ} (hstep : s.step e = some s') : Keeps s s' (¬ s.ReadsReply e) := by
  cases e with
  | connect srcPort destPort srcAddr destAddr ctrl tunnel now rand ip =>
    exact connect_keeps (TCPSession.init_fresh ..) hstep
  | tcp i e =>
    have hown : ∀ i n, e ≠ .written i n := by
      rintro j n rfl
      cases hstep
    refine stepTCP_keeps (i := i) hown ?_
    cases e with
    | written j n => exact absurd rfl (hown j n)
    | _ => exact hstep
  | associate socket proxy session =>
    cases hstep
    exact .of_same rfl rfl rfl rfl
  | udp i e => exact stepUDP_keeps hstep
  | releaseTCP i =>
    cases hstep
    exact releaseTCP_keeps i s
  | releaseUDP i =>
    cases hstep
    exact .of_same rfl rfl rfl rfl
  | writable =>
    cases hstep
    exact writable_keeps s
  | reactor call =>
    obtain ⟨router, hrouter, rfl⟩ := Option.map_eq_some_iff.mp hstep
    unfold Router.step at hrouter
    simp only at hrouter
    split at hrouter
    · cases hrouter
    · cases hrouter
      exact .of_same rfl rfl rfl rfl
  | environment writes =>
    cases hstep
    exact .of_same rfl rfl rfl rfl

/-! ## Runs -/

omit [ITunnel τ] in
structure Started (s : System τ) : Prop where
  router : s.router.Started
  tcp : s.mTCPSessions = []
  udp : s.mUDPSessions = []

omit [ITunnel τ] in
theorem Started.settled (h : s.Started) : s.Settled where
  sound := h.router.sound
  faults := by
    rw [h.router.nothing]
    rfl
  agrees := by simp [h.tcp]
  disjoint := by simp [h.tcp]

omit [ITunnel τ] in
theorem Started.accounted (h : s.Started) : s.Accounted := by
  intro p segment hcell
  rw [h.router.nothing] at hcell
  cases hcell

theorem run_settled {es : List (Event τ)} {t : System τ} (h : s.Settled)
    (hrun : Lib.run step s es = some t) : t.Settled :=
  Lib.run_invariant Settled (fun _ _ _ hsettled hstep => (step_keeps hstep).settled hsettled) h hrun

theorem run_owned_or_waiting {es : List (Event τ)} {t : System τ} (hstart : s.Started)
    (htidy : Lib.Along step (fun s e => ¬ s.ReadsReply e) s es)
    (hrun : Lib.run step s es = some t) : t.Accounted := by
  have hinvariant : t.Settled ∧ t.Accounted := by
    refine Lib.Along.invariant (fun s => s.Settled ∧ s.Accounted) ?_
      ⟨hstart.settled, hstart.accounted⟩ htidy hrun
    intro s e t h htidy hstep
    have hkeeps := step_keeps hstep
    exact ⟨hkeeps.settled h.1, hkeeps.accounted h.1 htidy h.2⟩
  exact hinvariant.2

omit [ITunnel τ] in
/-- What the flags of a segment mean. -/
structure Owned (s : System τ) : Prop where
  /-- A segment is marked as buffered exactly as long as it is in `mData`. -/
  buffering {p : Nat} {segment : BufferSegment} : s.router.memory.cells p = some segment →
    (segment.isBuffering = true ↔ p ∈ s.router.mData)
  /-- The segments of a session are those of its `mBackQueue`. -/
  held : ∀ h ∈ s.mTCPSessions, List.Forall₂ s.router.Holds h.segments h.session.mBackQueue
  /-- No queue has a segment that was deleted. -/
  live : (∀ p ∈ s.router.mData, s.router.memory.Live p) ∧
    ∀ h ∈ s.mTCPSessions, ∀ p ∈ h.segments, s.router.memory.Live p
  /-- Nothing was touched after it was deleted, and nothing deleted twice. -/
  faults : s.router.memory.faults = []
  /-- A segment that waits in a back queue is whole. -/
  whole : ∀ h ∈ s.mTCPSessions, ∀ p ∈ h.segments, ∀ segment data,
    s.router.memory.cells p = some segment → segment.isBuffering = false →
      .queued p data ∈ s.router.trace → segment.readable = data

def sampleSystem : System TCPTunnel := ⟨Router.sampleRouter fun _ => .accepted 65535, [], []⟩

omit [ITunnel τ] in
theorem sampleSystem_started : sampleSystem.Started := ⟨Router.sampleRouter_started _, rfl, rfl⟩

-- A connection is opened, its first packet written, and the session released.
def sampleEvents : List (Event TCPTunnel) :=
  [.connect 40000 80 0x0A000002 0x5DB8D822 0 TCPSession.sampleTunnel 0 1000 TCPSession.sampleSYN,
    .writable, .releaseTCP 0]

omit [ITunnel τ] in
theorem sampleEvents_return : ∃ t, Lib.run step sampleSystem sampleEvents = some t :=
  Option.isSome_iff_exists.mp rfl

/-- After every run, however the sessions and the router take turns and whatever the kernel
    answers. -/
theorem run_owned {es : List (Event τ)} {t : System τ} (hstart : s.Started)
    (hrun : Lib.run step s es = some t) : t.Owned := by
  have hsettled := run_settled hstart.settled hrun
  refine ⟨fun hcell => (hsettled.sound.fits _).buffering hcell, fun h hh => (hsettled.agrees h hh).holds,
    ⟨fun p hp => (hsettled.sound.fits p).held hp, fun h hh p hp => ?_⟩, hsettled.faults, ?_⟩
  · exact Router.live_of_holds (hsettled.agrees h hh).holds hp
  · intro _ _ p _ segment data hcell hbuffering hqueued
    have hwhole := (hsettled.sound.fits p).whole hcell hqueued
    rw [hbuffering, if_neg Bool.false_ne_true] at hwhole
    exact hwhole

omit [ITunnel τ] in
theorem run_owned_sample :
    ∃ t, Lib.run step sampleSystem sampleEvents = some t ∧ t.Owned := by
  obtain ⟨t, hrun⟩ := sampleEvents_return
  exact ⟨t, hrun, run_owned sampleSystem_started hrun⟩

/-- As long as no direct UDP session reads a reply, the segments on the heap are those in `mData` and
    those in the back queues, and none was deleted twice. -/
theorem run_released {es : List (Event τ)} {t : System τ} (hstart : s.Started)
    (htidy : Lib.Along step (fun s e => ¬ s.ReadsReply e) s es)
    (hrun : Lib.run step s es = some t) :
    (∀ p, t.router.memory.Live p ↔ p ∈ t.router.mData ∨ p ∈ t.queued) ∧
      t.router.memory.faults = [] := by
  have hsettled := run_settled hstart.settled hrun
  have haccounted := run_owned_or_waiting hstart htidy hrun
  refine ⟨fun p => ⟨fun hlive => ?_, ?_⟩, hsettled.faults⟩
  · obtain ⟨segment, hcell⟩ := hlive.cell
    rcases haccounted p segment hcell with hqueued | ⟨-, hmem⟩
    · exact .inr hqueued
    · exact .inl hmem
  · rintro (hmem | hqueued)
    · exact (hsettled.sound.fits p).held hmem
    · obtain ⟨h, hh, hp⟩ := List.mem_flatMap.mp hqueued
      exact Router.live_of_holds (hsettled.agrees h hh).holds hp

def sampleDirect : UDPSession where
  mSrcPort := 1000
  mDestPort := 53
  mSrcAddr := 1
  mDestAddr := 2
  mCtrlType := 0
  reactor := sampleSystem.router.mReactor
  handler := 2
  now := 0
  sends _ := .accepted 0
  rounds := 8

-- A connection downloads three bytes, a session with a socket sends a datagram, and another
-- connection is opened.
def busyEvents : List (Event TCPTunnel) :=
  [.connect 40000 80 0x0A000002 0x5DB8D822 0 TCPSession.sampleTunnel 0 1000 TCPSession.sampleSYN,
    .writable, .tcp 0 (.accept (TCPSession.samplePacket 101 1001 ACK [] TCPSession.nothing_fits)),
    .tcp 0 (.tunnelDataBack [7, 8, 9]), .associate (some 5) none sampleDirect,
    .udp 0 (.accept ⟨[0x62, 0x63], Nat.le_of_ble_eq_true rfl⟩), .writable,
    .connect 40001 80 0x0A000002 0x5DB8D822 0 TCPSession.sampleTunnel 0 2000 TCPSession.sampleSYN]

omit [ITunnel τ] in
-- The only event of a UDP session is the datagram it sends.
theorem busyEvents_tidy : Lib.Along step (fun s e => ¬ s.ReadsReply e) sampleSystem busyEvents := by
  refine .of_forall (fun e he s => ?_) _
  simp only [busyEvents, List.mem_cons, List.not_mem_nil, or_false] at he
  rcases he with rfl | rfl | rfl | rfl | rfl | rfl | rfl | rfl
  case inr.inr.inr.inr.inr.inl =>
    rintro ⟨flow, -, hreads⟩
    cases flow <;> exact hreads
  all_goals exact id

omit [ITunnel τ] in
/-- The three bytes wait for their acknowledgement, the answer to the second SYN for the tun too. -/
theorem run_released_sample :
    ∃ t, Lib.run step sampleSystem busyEvents = some t ∧
      (t.router.mData = [2] ∧ t.queued = [1, 2]) ∧
      (∀ p, t.router.memory.Live p ↔ p ∈ t.router.mData ∨ p ∈ t.queued) ∧
      t.router.memory.faults = [] := by
  have hreach : ∃ t, Lib.run step sampleSystem busyEvents = some t ∧
      (t.router.mData = [2] ∧ t.queued = [1, 2]) := Lib.run_reaches (by decide)
  obtain ⟨t, hrun, hqueues⟩ := hreach
  exact ⟨t, hrun, hqueues, run_released sampleSystem_started busyEvents_tidy hrun⟩

/-! ## A reply that nobody releases -/

/-- A reply of one byte is written to the tun, and stays on the heap. -/
theorem run_leaks :
    sampleSystem.Started ∧
      ∃ t, Lib.run step sampleSystem
          [.associate (some 5) none sampleDirect, .udp 0 (.readable (.received [0x61])), .writable]
            = some t ∧
        t.router.memory.Live 0 ∧ 0 ∉ t.router.mData ∧ 0 ∉ t.queued := by
  refine ⟨sampleSystem_started, _, rfl, rfl, ?_, ?_⟩
  · decide
  · decide

end System

end NetCore
