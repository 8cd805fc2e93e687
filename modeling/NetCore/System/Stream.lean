import NetCore.Router.Stream
import NetCore.System.Ownership
import NetCore.System.Packets

/-!
# What the applications get

The sessions and the router together: as long as the tun takes whole packets, each `write` is one
packet that the application of some session accepts, and what is captured of them is of sessions that
are to be captured.
-/

namespace NetCore

open Lib (Outbox Parcel)

-- The packet of a segment; one that is being written is taken as it was handed over.
def BufferSegment.packet (segment : BufferSegment) : Bytes :=
  (if segment.isBuffering then segment.rewind else segment).readable

def Deliverable (clients : List Client) (ip : Bytes) (needCapture : Bool) : Prop :=
  ∃ c ∈ clients, c.Gets ip needCapture

-- The length has to fit the 16 bits of the header.
theorem Deliverable.length_le {clients : List Client} {ip : Bytes} {needCapture : Bool}
    (h : Deliverable clients ip needCapture) : ip.length ≤ Router.MTU := by
  obtain ⟨c, -, hgets⟩ := h
  have hlt := (getTTLEN ip).isLt
  rw [hgets.packet.ttlen] at hlt
  show ip.length ≤ 65535
  omega

namespace Router

variable {r r' : Router} {p : Nat} {segment : BufferSegment} {rest : List Nat}
  {clients clients' : List Client}

-- The segments that are left have the packets they had.
def Unaltered (r r' : Router) : Prop :=
  ∀ q y, r'.memory.cells q = some y →
    ∃ x, r.memory.cells q = some x ∧ y.packet = x.packet ∧ y.needCapture = x.needCapture

theorem Unaltered.of_cells (h : r'.memory.cells = r.memory.cells) : Unaltered r r' :=
  fun _ y hcell => ⟨y, h ▸ hcell, rfl, rfl⟩

theorem Unaltered.trans {r'' : Router} (h : Unaltered r r') (h' : Unaltered r' r'') :
    Unaltered r r'' := by
  intro q z hcell
  obtain ⟨y, hy, hpacket, hcapture⟩ := h' q z hcell
  obtain ⟨x, hx, hpacket', hcapture'⟩ := h q y hy
  exact ⟨x, hx, hpacket.trans hpacket', hcapture.trans hcapture'⟩

-- Only the segment at `p` changes.
theorem Unaltered.of_one (hcell : r.memory.cells p = some segment)
    (hothers : ∀ q, q ≠ p → r'.memory.cells q = r.memory.cells q)
    (hself : ∀ y, r'.memory.cells p = some y →
      y.packet = segment.packet ∧ y.needCapture = segment.needCapture) : Unaltered r r' := by
  intro q y hy
  by_cases hq : q = p
  · subst hq
    exact ⟨segment, hcell, hself y hy⟩
  · exact ⟨y, (hothers q hq).symm.trans hy, rfl, rfl⟩

theorem packet_of_buffering (h : segment.isBuffering = true) :
    segment.packet = segment.rewind.readable := by
  unfold BufferSegment.packet
  rw [if_pos h]

theorem packet_of_not_buffering (h : segment.isBuffering = false) :
    segment.packet = segment.readable := by
  unfold BufferSegment.packet
  rw [if_neg (by rw [h]; exact Bool.false_ne_true)]

theorem Unaltered.onSyncEvent (r : Router) (p : Nat) : Unaltered r (r.onSyncEvent p).2 := by
  rcases onSyncEvent_cases p r with ⟨-, heq⟩ | ⟨segment, hcell, -, hbuffering, -, heq⟩ | heq
  · rw [heq]
    exact .of_cells rfl
  · rw [heq]
    obtain ⟨-, hmemory, -⟩ := requestWrite_eq (r.accepted p segment)
    have hself : (r.accepted p segment).requestWrite.memory.cells p = some segment.hold := by
      rw [hmemory]
      exact Lib.Heap.modify_self hcell
    refine .of_one hcell (fun q hq => ?_) (fun y hy => ?_)
    · rw [hmemory]
      exact Lib.Heap.modify_of_ne hq
    · cases hself.symm.trans hy
      exact ⟨(packet_of_not_buffering hbuffering).symm, rfl⟩
  · rw [heq]
    exact .of_cells rfl

theorem Unaltered.safeRelease (r : Router) (p : Nat) : Unaltered r (r.safeRelease p) := by
  unfold Router.safeRelease
  cases hcell : r.memory.cells p with
  | none => exact .of_cells rfl
  | some segment =>
    show Unaltered r (r.onMemory (if segment.isBuffering then .modify p .abort else .free p))
    split
    · refine .of_one hcell (fun q hq => Lib.Heap.modify_of_ne hq) fun y hy => ?_
      cases (Lib.Heap.modify_self hcell).symm.trans hy
      refine ⟨?_, rfl⟩
      show (if segment.isBuffering then segment.abort.rewind else segment.abort).readable = _
      unfold BufferSegment.packet
      split <;> rfl
    · refine .of_one hcell (fun q hq => Lib.Heap.free_of_ne hq) fun y hy => ?_
      cases (Lib.Heap.free_self (Lib.Heap.live_of_cell hcell)).symm.trans hy

theorem Sound.round_unaltered (h : r.Sound) (hdata : r.mData = p :: rest)
    (hcell : r.memory.cells p = some segment) {out : Bool × Router}
    (hcase : RoundCase p segment rest r out) : Unaltered r out.2 := by
  have hkept := h.round hdata hcell hcase
  have hbuffering : segment.isBuffering = true :=
    ((h.fits p).buffering hcell).mpr (by rw [hdata]; exact List.mem_cons_self)
  cases hcase with
  | aborted habort =>
    have hflag : segment.releaseAfterBuffering = true := (h.fits p).aborted hcell habort
    have hself : ({ r with mData := rest }.letGo p segment).memory.cells p = none :=
      (cells_letGo (r := { r with mData := rest }) hcell).trans (if_pos hflag)
    refine .of_one hcell hkept.cells fun y hy => ?_
    cases hself.symm.trans hy
  | failed habort hanswer => exact .of_cells rfl
  | part n habort hanswer hpos hlt =>
    refine .of_one hcell hkept.cells fun y hy => ?_
    cases (advance_cells_self hcell n).symm.trans hy
    refine ⟨?_, rfl⟩
    -- the mark is where it was
    have hstill : (segment.consumed n).isBuffering = true := hbuffering
    rw [packet_of_buffering hstill, packet_of_buffering hbuffering, BufferSegment.rewind_consumed]
  | whole n habort hanswer hpos hle =>
    refine .of_one hcell hkept.cells fun y hy => ?_
    have hself := (cells_finish rest hcell segment.size).symm.trans hy
    split at hself
    · cases hself
    · cases hself
      exact ⟨(packet_of_buffering hbuffering).symm, rfl⟩

theorem Sound.writeLoop_unaltered (fuel : Nat) (h : r.Sound) :
    Unaltered r (Router.writeLoop fuel r) := by
  induction fuel generalizing r with
  | zero => exact .of_cells rfl
  | succ fuel ih =>
    cases hdata : r.mData with
    | nil =>
      rw [writeLoop_nil _ hdata]
      exact .of_cells rfl
    | cons p rest =>
      obtain ⟨segment, hcell, -, hsize⟩ := h.front hdata
      have hcase : RoundCase p segment rest r (r.writeRound p segment rest) := writeRound_case hsize
      have hround := h.round_unaltered hdata hcell hcase
      rw [writeLoop_cons fuel hdata hcell]
      split
      · exact hround.trans (ih (h.round hdata hcell hcase).sound)
      · exact hround

/-! ## The router with packets for its clients -/

-- What is on the heap and what was handed over is for the clients, and each `write` has taken a
-- whole packet.
structure Delivers (clients : List Client) (r : Router) : Prop where
  sound : r.Sound
  cells {p : Nat} {segment : BufferSegment} : r.memory.cells p = some segment →
    Deliverable clients segment.packet segment.needCapture
  stream : ∃ o, r.Streams o ∧ r.Packetwise o ∧ ∀ y ∈ o.handed, Deliverable clients y.1 y.2
  answers : TakesWhole r.writes

namespace Delivers

theorem unaltered (h : r.Delivers clients) (hunaltered : Unaltered r r') {q : Nat} {y : BufferSegment}
    (hcell : r'.memory.cells q = some y) : Deliverable clients y.packet y.needCapture := by
  obtain ⟨x, hx, hpacket, hcapture⟩ := hunaltered q y hcell
  rw [hpacket, hcapture]
  exact h.cells hx

theorem build (h : r.Delivers clients) (hbuffering : segment.isBuffering = false)
    (habort : segment.isAbort = false)
    (hsegment : Deliverable clients segment.readable segment.needCapture) :
    (r.build segment).Delivers clients where
  sound := h.sound.build hbuffering habort
  cells {q y} hcell := by
    by_cases hq : q = r.memory.next
    · subst hq
      cases Lib.Heap.alloc_self.symm.trans hcell
      rw [packet_of_not_buffering hbuffering]
      exact hsegment
    · exact h.cells ((Lib.Heap.alloc_of_ne hq).symm.trans hcell)
  stream := by
    obtain ⟨o, hstreams, hpacketwise, hhanded⟩ := h.stream
    exact ⟨o, hstreams.build h.sound segment, hpacketwise.congr rfl, hhanded⟩
  answers := h.answers

-- A packet that is handed over is on the heap.
theorem handing (h : r.Delivers clients) {y : Bytes × Bool} (hy : y ∈ r.handing (.writePackage p)) :
    Deliverable clients y.1 y.2 := by
  rcases onSyncEvent_cases p r with ⟨hnone, -⟩ | ⟨segment, hcell, -, hbuffering, -, heq⟩ | heq
  · simp [Router.handing, hnone] at hy
  · have hpacket := h.cells hcell
    rw [packet_of_not_buffering hbuffering] at hpacket
    simp only [Router.handing, hcell, heq, if_true, List.mem_singleton] at hy
    rw [hy]
    exact hpacket
  · cases hcell : r.memory.cells p <;> simp [Router.handing, hcell, heq] at hy

theorem onSyncEvent (h : r.Delivers clients) (p : Nat) : (r.onSyncEvent p).2.Delivers clients where
  sound := h.sound.onSyncEvent p
  cells := h.unaltered (.onSyncEvent r p)
  stream := by
    obtain ⟨o, hstreams, hpacketwise, hhanded⟩ := h.stream
    obtain ⟨o', hstreams', hhanded', hpacketwise', -⟩ := hstreams.onSyncEvent h.sound p
    refine ⟨o', hstreams', hpacketwise' hpacketwise, ?_⟩
    rw [hhanded']
    exact List.forall_mem_append.mpr ⟨hhanded, fun y hy => h.handing hy⟩
  answers := by
    rcases onSyncEvent_cases p r with ⟨-, heq⟩ | ⟨segment, -, -, -, -, heq⟩ | heq
    · rw [heq]
      exact h.answers
    · rw [heq]
      unfold requestWrite
      split <;> exact h.answers
    · rw [heq]
      exact h.answers

-- A packet is built, handed over and forgotten.
theorem post (h : r.Delivers clients) (hbuffering : segment.isBuffering = false)
    (habort : segment.isAbort = false)
    (hsegment : Deliverable clients segment.readable segment.needCapture) :
    (r.post segment).Delivers clients :=
  (h.build hbuffering habort hsegment).onSyncEvent _

theorem safeRelease (h : r.Delivers clients) (p : Nat) : (r.safeRelease p).Delivers clients where
  sound := h.sound.safeRelease p
  cells := h.unaltered (.safeRelease r p)
  stream := by
    obtain ⟨o, hstreams, hpacketwise, hhanded⟩ := h.stream
    refine ⟨o, hstreams.safeRelease h.sound p, hpacketwise.congr ?_, hhanded⟩
    unfold Router.safeRelease
    split <;> rfl
  answers := by
    unfold Router.safeRelease
    split <;> exact h.answers

theorem onWritable (h : r.Delivers clients) : r.onWritable.Delivers clients := by
  obtain ⟨o, hstreams, hpacketwise, hhanded⟩ := h.stream
  obtain ⟨o', hstreams', hhanded', hkept, -⟩ := hstreams.onWritable h.sound
  obtain ⟨hpacketwise', hanswers⟩ :=
    hkept h.answers (fun y hy => (hhanded y hy).length_le) hpacketwise
  have hunaltered : Unaltered r r.onWritable :=
    (h.sound.writeLoop_unaltered r.writeFuel).trans (.of_cells rfl)
  refine ⟨h.sound.onWritable, h.unaltered hunaltered, ⟨o', hstreams', hpacketwise', ?_⟩, hanswers⟩
  rw [hhanded']
  exact hhanded

theorem congr (h : r.Delivers clients) (hdata : r'.mData = r.mData) (hmemory : r'.memory = r.memory)
    (htrace : r'.trace = r.trace) (hanswers : TakesWhole r'.writes) : r'.Delivers clients where
  sound := h.sound.congr hdata hmemory htrace
  cells := by
    rw [hmemory]
    exact h.cells
  stream := by
    obtain ⟨o, hstreams, hpacketwise, hhanded⟩ := h.stream
    exact ⟨o, hstreams.congr hdata (fun _ _ => by rw [hmemory]) htrace, hpacketwise.congr htrace,
      hhanded⟩
  answers := hanswers

-- What a TCP session has done in a step.
theorem replay (h : r.Delivers clients) {held : List Nat} {points : List TracePoint}
    (hpoints : ∀ point ∈ points, ∃ c ∈ clients, point.For c) :
    (replay points (held, r)).2.Delivers clients := by
  induction points generalizing r held with
  | nil => exact h
  | cons point points ih =>
    obtain ⟨⟨c, hc, hpoint⟩, hrest⟩ := List.forall_mem_cons.mp hpoints
    show (NetCore.replay points (point.onHeap (held, r))).2.Delivers clients
    cases point with
    | pushed d =>
      obtain ⟨hbuffering, habort, hgets⟩ := hpoint
      exact ih (h.build hbuffering habort ⟨c, hc, hgets⟩) hrest
    | writePackage d =>
      by_cases hrelease : d.releaseAfterBuffering = true
      · -- a packet without a place in the queue
        obtain ⟨habort, hgets⟩ := hpoint hrelease
        have hposted : (r.post d.toBufferSegment.giveBack).Delivers clients :=
          h.post rfl habort ⟨c, hc, hgets⟩
        have hheap : (TracePoint.writePackage d).onHeap (held, r) =
            (held, r.post d.toBufferSegment.giveBack) := if_pos hrelease
        rw [hheap]
        exact ih hposted hrest
      · cases held with
        | nil =>
          have hheap : (TracePoint.writePackage d).onHeap ([], r) = ([], r) := if_neg hrelease
          rw [hheap]
          exact ih h hrest
        | cons p held =>
          have hheap : (TracePoint.writePackage d).onHeap (p :: held, r) =
              (p :: held, (r.onSyncEvent p).2) := if_neg hrelease
          rw [hheap]
          exact ih (h.onSyncEvent p) hrest
    | released d =>
      cases held with
      | nil => exact ih h hrest
      | cons p held => exact ih (h.safeRelease p) hrest
    | _ => exact ih h hrest

theorem replayUDP (h : r.Delivers clients) {points : List UDPPoint}
    (hpoints : ∀ point ∈ points, ∃ c ∈ clients, point.For c) :
    (replayUDP points r).Delivers clients := by
  induction points generalizing r with
  | nil => exact h
  | cons point points ih =>
    obtain ⟨⟨c, hc, hpoint⟩, hrest⟩ := List.forall_mem_cons.mp hpoints
    show (NetCore.replayUDP points (point.onHeap r)).Delivers clients
    cases point with
    | writePackage segment => exact ih (h.post hpoint.1 hpoint.2.1 ⟨c, hc, hpoint.2.2⟩) hrest
    | _ => exact ih h hrest

end Delivers

theorem Started.delivers (h : Started r) (hanswers : TakesWhole r.writes) :
    r.Delivers clients where
  sound := h.sound
  cells hcell := by
    rw [h.nothing] at hcell
    cases hcell
  stream := by
    refine ⟨{}, h.streams, ⟨?_, by simp⟩, by simp [Outbox.handed, Outbox.parcels]⟩
    unfold writesMade
    rw [h.unwritten]
    rfl
  answers := hanswers

end Router

/-! ## Steps -/

def System.Event.clients {τ : Type} : System.Event τ → List Client
  | .connect srcPort destPort srcAddr destAddr ctrl tunnel now rand _ =>
      [(TCPSession.init srcPort destPort srcAddr destAddr ctrl tunnel now rand).client]
  | .associate _ _ session => [session.client]
  | _ => []

def System.Event.WholePackets {τ : Type} : System.Event τ → Prop
  | .environment writes => Router.TakesWhole writes
  | _ => True

namespace TCPSession

variable {τ : Type}

-- The client is one of those, and so far only its packets were built.
structure Serves (clients : List Client) (s : TCPSession τ) : Prop where
  client : s.client ∈ clients
  points : ∀ point ∈ s.trace, point.For s.client

variable {s s' : TCPSession τ} {clients clients' : List Client}

-- What the new points put on the heap is for the client.
theorem Addresses.serves (h : Addresses s s') (hpacks : s.Packs) (hclient : s.client ∈ clients) :
    s'.Serves clients ∧
      ∀ point ∈ s'.trace.drop s.trace.length, ∃ c ∈ clients, point.For c := by
  have hpacks' := h.packs hpacks
  have hclient' : s'.client ∈ clients := by
    rw [h.client]
    exact hclient
  refine ⟨⟨hclient', hpacks'.points⟩, fun point hpoint => ⟨s'.client, hclient', ?_⟩⟩
  exact hpacks'.points point (List.mem_of_mem_drop hpoint)

end TCPSession

namespace System

variable {τ : Type} {s s' : System τ} {clients clients' : List Client}

structure Delivers (clients : List Client) (s : System τ) : Prop where
  settled : s.Settled
  router : s.router.Delivers clients
  tcp : ∀ h ∈ s.mTCPSessions, h.session.Serves clients
  udp : ∀ flow ∈ s.mUDPSessions, flow.session.client ∈ clients

theorem Delivers.packs (h : s.Delivers clients) {g : TCPHolder τ} (hg : g ∈ s.mTCPSessions) :
    g.session.Packs :=
  have hagrees := h.settled.agrees g hg
  ⟨hagrees.opened.1, hagrees.kept, (h.tcp g hg).points⟩

theorem clearBackQueue_delivers {r : Router} {held : List Nat} (h : r.Delivers clients) :
    (held.foldl (fun r p => r.safeRelease p) r).Delivers clients := by
  induction held generalizing r with
  | nil => exact h
  | cons p held ih => exact ih (h.safeRelease p)

theorem Delivers.releaseTCP (h : s.Delivers clients) (i : Nat) :
    (s.releaseTCP i).router.Delivers clients ∧
      ∀ g ∈ (s.releaseTCP i).mTCPSessions, g.session.Serves clients := by
  unfold System.releaseTCP
  split
  · exact ⟨h.router, h.tcp⟩
  · exact ⟨clearBackQueue_delivers h.router, fun g hg => h.tcp g (List.mem_of_mem_eraseIdx hg)⟩

theorem clients_init {socket : Option Int} {proxy : Option Socks5Proxy} {session : UDPSession}
    {flow : UDPFlow} (hflow : flow ∈ UDPFlow.init socket proxy session) :
    flow.session.client = session.client := by
  unfold UDPFlow.init at hflow
  split at hflow
  · obtain ⟨p, -, rfl⟩ := Option.map_eq_some_iff.mp hflow
    rfl
  · obtain ⟨fd, -, rfl⟩ := Option.map_eq_some_iff.mp hflow
    rfl

theorem Delivers.stepUDP (h : s.Delivers clients) {i : Nat} {e : UDPFlow.Event}
    (hstep : s.stepUDP i e = some s') :
    s'.router.Delivers clients ∧ s'.mTCPSessions = s.mTCPSessions ∧
      ∀ flow ∈ s'.mUDPSessions, flow.session.client ∈ clients := by
  unfold System.stepUDP at hstep
  split at hstep
  next =>
    cases hstep
    exact ⟨h.router, rfl, h.udp⟩
  next flow hget =>
    obtain ⟨flow', hflow', rfl⟩ := Option.map_eq_some_iff.mp hstep
    have hclient := h.udp flow (List.mem_of_getElem? hget)
    obtain ⟨hsame, points, htrace, hpoints⟩ := UDPFlow.step_posts hflow'
    have hdrop : flow'.session.trace.drop flow.session.trace.length = points := by
      rw [htrace, List.drop_left]
    refine ⟨?_, rfl, fun g hg => ?_⟩
    · show (replayUDP (flow'.session.trace.drop flow.session.trace.length) s.router).Delivers clients
      rw [hdrop]
      exact h.router.replayUDP fun point hpoint => ⟨_, hclient, hpoints point hpoint⟩
    · rcases List.mem_or_eq_of_mem_set hg with hold | rfl
      · exact h.udp g hold
      · rw [hsame]
        exact hclient

variable [ITunnel τ]

theorem Delivers.stepTCP (h : s.Delivers clients) {i : Nat} {e : TCPSession.Event τ}
    (hstep : s.stepTCP i e = some s') :
    s'.router.Delivers clients ∧ s'.mUDPSessions = s.mUDPSessions ∧
      ∀ g ∈ s'.mTCPSessions, g.session.Serves clients := by
  unfold System.stepTCP at hstep
  split at hstep
  next =>
    cases hstep
    exact ⟨h.router, rfl, h.tcp⟩
  next g hget =>
    obtain ⟨⟨g', router'⟩, hg', rfl⟩ := Option.map_eq_some_iff.mp hstep
    obtain ⟨session, hsession, heq⟩ := Option.map_eq_some_iff.mp hg'
    have hmem := List.mem_of_getElem? hget
    obtain ⟨hserves, hpoints⟩ :=
      (TCPSession.step_addresses hsession).serves (h.packs hmem) (h.tcp g hmem).client
    cases heq
    refine ⟨h.router.replay hpoints, rfl, fun k hk => ?_⟩
    rcases List.mem_or_eq_of_mem_set hk with hold | rfl
    · exact h.tcp k hold
    · exact hserves

theorem Delivers.connect (h : s.Delivers clients) {session : TCPSession τ} (hfresh : session.Fresh)
    (hclient : session.client ∈ clients) {ip : Packet} (hstep : s.connect session ip = some s') :
    s'.router.Delivers clients ∧ s'.mUDPSessions = s.mUDPSessions ∧
      ∀ g ∈ s'.mTCPSessions, g.session.Serves clients := by
  unfold System.connect at hstep
  split at hstep
  next =>
    obtain ⟨⟨g', router'⟩, hg', rfl⟩ := Option.map_eq_some_iff.mp hstep
    obtain ⟨session', hsession, heq⟩ := Option.map_eq_some_iff.mp hg'
    obtain ⟨hserves, hpoints⟩ :=
      (TCPSession.step_addresses hsession).serves hfresh.packs hclient
    cases heq
    refine ⟨h.router.replay hpoints, rfl, fun k hk => ?_⟩
    rcases List.mem_append.mp hk with hold | hnew
    · exact h.tcp k hold
    · rw [List.mem_singleton.mp hnew]
      exact hserves
  next =>
    cases hstep
    exact ⟨h.router, rfl, h.tcp⟩

-- A step, once its clients are known.
theorem Delivers.step (h : s.Delivers clients) {e : Event τ} (hclients : e.clients ⊆ clients)
    (hwhole : e.WholePackets) (hstep : s.step e = some s') : s'.Delivers clients := by
  have hsettled := (step_keeps hstep).settled h.settled
  cases e with
  | connect srcPort destPort srcAddr destAddr ctrl tunnel now rand ip =>
    have hclient := hclients List.mem_cons_self
    obtain ⟨hrouter, hudp, htcp⟩ := h.connect (TCPSession.init_fresh ..) hclient hstep
    exact ⟨hsettled, hrouter, htcp, hudp ▸ h.udp⟩
  | tcp i e =>
    have hstep' : s.stepTCP i e = some s' := by
      cases e with
      | written j n => cases hstep
      | _ => exact hstep
    obtain ⟨hrouter, hudp, htcp⟩ := h.stepTCP hstep'
    exact ⟨hsettled, hrouter, htcp, hudp ▸ h.udp⟩
  | associate socket proxy session =>
    cases hstep
    refine ⟨hsettled, h.router, h.tcp, fun flow hflow => ?_⟩
    rcases List.mem_append.mp hflow with hold | hnew
    · exact h.udp flow hold
    · rw [clients_init (Option.mem_toList.mp hnew)]
      exact hclients List.mem_cons_self
  | udp i e =>
    obtain ⟨hrouter, htcp, hudp⟩ := h.stepUDP hstep
    exact ⟨hsettled, hrouter, htcp ▸ h.tcp, hudp⟩
  | releaseTCP i =>
    cases hstep
    obtain ⟨hrouter, htcp⟩ := h.releaseTCP i
    refine ⟨hsettled, hrouter, htcp, ?_⟩
    unfold System.releaseTCP
    split <;> exact h.udp
  | releaseUDP i =>
    cases hstep
    exact ⟨hsettled, h.router, h.tcp, fun flow hflow => h.udp flow (List.mem_of_mem_eraseIdx hflow)⟩
  | writable =>
    cases hstep
    refine ⟨hsettled, h.router.onWritable, fun g hg => ?_, h.udp⟩
    obtain ⟨k, hk, rfl⟩ := List.mem_map.mp hg
    exact ⟨(h.tcp k hk).client, (h.tcp k hk).points⟩
  | reactor call =>
    obtain ⟨router, hrouter, rfl⟩ := Option.map_eq_some_iff.mp hstep
    refine ⟨hsettled, ?_, h.tcp, h.udp⟩
    simp only [Router.step] at hrouter
    split at hrouter
    · cases hrouter
    · cases hrouter
      exact h.router.congr rfl rfl rfl h.router.answers
  | environment writes =>
    cases hstep
    exact ⟨hsettled, h.router.congr rfl rfl rfl hwhole, h.tcp, h.udp⟩

/-! ## Runs -/

omit [ITunnel τ] in
theorem Started.delivers (h : s.Started) (hwhole : Router.TakesWhole s.router.writes) :
    s.Delivers clients where
  settled := h.settled
  router := h.router.delivers hwhole
  tcp := by simp [h.tcp]
  udp := by simp [h.udp]

/-- As long as the tun takes whole packets, each `write` of a run is a packet that the application of
    one of its sessions accepts.  What the router captures of them is captured as it was written, in
    the same order, and only of sessions that are to be captured. -/
theorem run_delivers {es : List (Event τ)} {t : System τ} (hstart : s.Started)
    (hwrites : Router.TakesWhole s.router.writes) (hwhole : ∀ e ∈ es, e.WholePackets)
    (hrun : Lib.run step s es = some t) :
    (∀ ip ∈ t.router.writesMade, ∃ c ∈ es.flatMap Event.clients, PacketFor c.flow ip) ∧
      t.router.capturedPackets.Sublist t.router.writesMade ∧
      ∀ ip ∈ t.router.capturedPackets, ∃ c ∈ es.flatMap Event.clients,
        PacketFor c.flow ip ∧ (c.mCtrlType &&& ctrlCAPTURE != 0) = true := by
  have halong : Lib.Along step (fun _ e => e ∈ es) s es := .of_forall (fun _ he _ => he) s
  have hdelivers : t.Delivers (es.flatMap Event.clients) := by
    refine halong.invariant _ (fun s e t h he hstep => ?_) (hstart.delivers hwrites) hrun
    have hclients : e.clients ⊆ es.flatMap Event.clients :=
      fun c hc => List.mem_flatMap.mpr ⟨e, he, hc⟩
    exact h.step hclients (hwhole e he) hstep
  obtain ⟨o, hstreams, hpacketwise, hhanded⟩ := hdelivers.router.stream
  -- a packet that has left was handed over
  have hcompleted (x : Parcel U8 Bool) (hx : x ∈ o.completed) :
      Deliverable (es.flatMap Event.clients) x.items x.label := by
    refine hhanded (x.items, x.label) (List.mem_map.mpr ⟨x, ?_, rfl⟩)
    exact List.mem_append_left _ (List.mem_of_mem_filter hx)
  rw [hpacketwise.writes, hstreams.captured]
  refine ⟨fun ip hip => ?_, List.filter_sublist.map _, fun ip hip => ?_⟩
  · obtain ⟨x, hx, rfl⟩ := List.mem_map.mp hip
    obtain ⟨c, hc, hgets⟩ := hcompleted x hx
    exact ⟨c, hc, hgets.packet⟩
  · obtain ⟨x, hx, rfl⟩ := List.mem_map.mp hip
    obtain ⟨hmem, hlabel⟩ := List.mem_filter.mp hx
    obtain ⟨c, hc, hgets⟩ := hcompleted x hmem
    exact ⟨c, hc, hgets.packet, hgets.capture hlabel⟩

omit [ITunnel τ] in
theorem run_delivers_sample :
    ∃ t, Lib.run step sampleSystem sampleEvents = some t ∧ t.router.writesMade ≠ [] ∧
      ∀ ip ∈ t.router.writesMade, ∃ c ∈ sampleEvents.flatMap Event.clients, PacketFor c.flow ip := by
  have hreach : ∃ t, Lib.run step sampleSystem sampleEvents = some t ∧ t.router.writesMade ≠ [] :=
    Lib.run_reaches (by decide)
  obtain ⟨t, hrun, hwritten⟩ := hreach
  have hanswers : Router.TakesWhole sampleSystem.router.writes := by
    intro k n hanswer
    cases hanswer
    exact .inr (Nat.le_refl _)
  refine ⟨t, hrun, hwritten, (run_delivers sampleSystem_started hanswers ?_ hrun).1⟩
  exact List.forall_mem_cons.mpr ⟨trivial, List.forall_mem_cons.mpr ⟨trivial,
    List.forall_mem_singleton.mpr trivial⟩⟩

end System

end NetCore
