import NetCore.ITunnel.Gate
import NetCore.Lib.Run
import NetCore.Socks5Proxy.Handshake
import NetCore.Socks5Proxy.Message
import NetCore.Socks5Proxy.Stock
import NetCore.TCPSession.Proxied

/-!
# The write event of a proxied session

What a proxy drains depends on its state: `mSocks5` before it passes payload on, then `mOutQueue` and
behind it the session's `mForwardQueue`.  Whoever fills one of them asks for the write event.
`sendQueue` gives it up when its first `send` fails, with everything still queued, and nobody asks for
it again.
-/

namespace NetCore

/-- What `sendQueue` is called with on a write event; `S_INIT` queues the greeting instead. -/
def Socks5Proxy.drainedQueue (p : Socks5Proxy) : List Segment :=
  match p.mS5State with
  | .init => []
  | .trans => p.mOutQueue
  | _ => p.mSocks5

/-- What the state drains is not empty; `forward` is the forward queue of the session. -/
def Socks5Proxy.Pending (p : Socks5Proxy) (forward : List TCPDatagram) : Prop :=
  match p.mS5State with
  | .trans => p.mOutQueue ≠ [] ∨ forward ≠ []
  | _ => p.mSocks5 ≠ []

namespace ProxiedSession

def Fed (w : ProxiedSession) : Prop :=
  w.proxy.mAlive = true → w.proxy.Pending w.mClient.mForwardQueue →
    w.proxy.reactor.containEvent w.proxy.mSocket evWRITE = 1

/-- The first `send` of a write event that finds something to send takes something. -/
def Takes (w : ProxiedSession) : Event → Prop
  | .writable =>
      w.proxy.mAlive = true → w.proxy.drainedQueue ≠ [] → ∃ n, w.proxy.sends 0 = .accepted n
  | _ => True

end ProxiedSession

open EpollReactor (WriteOn)
open Socks5Proxy (Open SameStock Quiet Stocked Queued KeepsOutlet)

theorem quiet_relation : TCPSession.TunnelRelation Quiet where
  refl := Quiet.refl
  trans := Quiet.trans
  keepAlive := Quiet.refl
  resume _ := Socks5Proxy.quiet_whileTrans (EpollReactor.keepsWrite_addEvent _ _ _ _)
  pause _ := Socks5Proxy.quiet_whileTrans (EpollReactor.keepsWrite_delRead _)
  destroy _ := Quiet.dead rfl

namespace TCPSession

/-! ## What a session keeps for its proxy -/

-- The payloads `enqueueIfNeed` queues, and what is left of them.
def Payloads (queue : List TCPDatagram) : Prop := ∀ d ∈ queue, 0 < d.size ∧ d.size ≤ 65535

-- The sizes of what is queued, and their counters.
structure Settled (s : TCPSession Socks5Proxy) : Prop where
  opened : Open s.mTunnel
  stocked : Stocked s.mTunnel
  early : s.mTunnel.mS5State ≠ .trans → s.mTunnel.mOutQueue = []
  handshake : queuedBytes s.mTunnel.mSocks5 ≤ MAX_PARCEL_SIZE * s.mTunnel.mS5State.handshakeSent
  payloads : Payloads s.mForwardQueue
  counted : s.mForwardQueueDataSize = BitVec.ofNat 32 (BufferQueue.bytes s.mForwardQueue).length

-- What is pending waits for an event that is asked for.
def Asks (s : TCPSession Socks5Proxy) : Prop :=
  s.mTunnel.Pending s.mForwardQueue → WriteOn s.mTunnel.reactor s.mTunnel.mSocket

-- What a call may do to a session whose proxy outlives it.
def Tends (s s' : TCPSession Socks5Proxy) : Prop :=
  s'.mTunnel.mAlive = true → s.mTunnel.mAlive = true ∧
    (s.Settled → s'.Settled ∧ (s.Asks → s'.Asks))

variable {s t u : TCPSession Socks5Proxy} {p p' : Socks5Proxy}

theorem Tends.refl (s : TCPSession Socks5Proxy) : Tends s s := fun h => ⟨h, fun hs => ⟨hs, id⟩⟩

theorem Tends.trans (h : Tends s t) (h' : Tends t u) : Tends s u := by
  intro halive
  obtain ⟨halive', hkeeps'⟩ := h' halive
  obtain ⟨halive'', hkeeps⟩ := h halive'
  refine ⟨halive'', fun hs => ?_⟩
  obtain ⟨ht, hasks⟩ := hkeeps hs
  obtain ⟨hu, hasks'⟩ := hkeeps' ht
  exact ⟨hu, fun h => hasks' (hasks h)⟩

theorem Tends.dead (h : t.mTunnel.mAlive = false) : Tends s t := fun halive => by
  rw [h] at halive
  cases halive

-- What is settled afterwards, whatever it was before.
theorem Tends.of_settled (h : t.mTunnel.mAlive = true → s.mTunnel.mAlive = true)
    (hs : s.Settled → t.Settled ∧ t.Asks) : Tends s t := fun halive =>
  ⟨h halive, fun hsettled => ⟨(hs hsettled).1, fun _ => (hs hsettled).2⟩⟩

end TCPSession

-- What is pending depends on the state and the queues only.
theorem Socks5Proxy.SameStock.pending {p p' : Socks5Proxy} (h : SameStock p p')
    (forward : List TCPDatagram) : p'.Pending forward ↔ p.Pending forward := by
  unfold Pending
  rw [h.state, h.socks5, h.outQueue]

namespace TCPSession

variable {s t : TCPSession Socks5Proxy}

-- The sizes are those of the queues.
theorem Settled.of_same (hs : s.Settled) (hopened : Open t.mTunnel)
    (hsame : SameStock s.mTunnel t.mTunnel) (hpayloads : Payloads t.mForwardQueue)
    (hcounted : t.mForwardQueueDataSize =
      BitVec.ofNat 32 (BufferQueue.bytes t.mForwardQueue).length) : t.Settled := by
  refine ⟨hopened, hsame.stocked hs.stocked, ?_, ?_, hpayloads, hcounted⟩
  · rw [hsame.state, hsame.outQueue]
    exact hs.early
  · rw [hsame.state, hsame.socks5]
    exact hs.handshake

-- A call that leaves the forward queue and what the proxy has queued alone.
theorem tends_of_quiet (h : ForwardFrame Quiet s t) : Tends s t := by
  intro halive
  obtain ⟨hsame, hkeeps⟩ := h.tunnel halive
  refine ⟨hsame.alive.symm.trans halive, fun hs => ⟨?_, fun hasks => ?_⟩⟩
  · refine hs.of_same (hkeeps.open_ hs.opened) hsame ?_ ?_
    · rw [h.forwardQueue]
      exact hs.payloads
    · rw [h.forwardQueue, h.forwardQueueDataSize]
      exact hs.counted
  · unfold Asks
    rw [h.forwardQueue, hsame.pending]
    exact fun hp => hkeeps.write hs.opened (hasks hp)

/-! ## Packets from the application -/

theorem pending_iff_of_ne {p : Socks5Proxy} (h : p.mS5State ≠ .trans) (forward : List TCPDatagram) :
    p.Pending forward ↔ p.mSocks5 ≠ [] := by
  unfold Socks5Proxy.Pending
  split
  next htrans => exact absurd htrans h
  next => exact Iff.rfl

theorem pending_iff_of_trans {p : Socks5Proxy} (h : p.mS5State = .trans)
    (forward : List TCPDatagram) : p.Pending forward ↔ p.mOutQueue ≠ [] ∨ forward ≠ [] := by
  unfold Socks5Proxy.Pending
  rw [h]

-- `enqueueIfNeed` asks for the write event unless the counter has come round to 0, and then the
-- queue was not empty before.
theorem uploaded_requests {ip : Packet} (hqueues : s.Queues ip) (hs : s.Settled) :
    (s.uploaded ip).mTunnel = s.mTunnel.requestSendData ∨
      (s.mForwardQueue ≠ [] ∧ (s.uploaded ip).mTunnel = s.mTunnel) := by
  have htunnel : (s.uploaded ip).mTunnel =
      if 0 < s.mForwardQueueDataSize + BitVec.ofNat 32 (s.filledDatagram ip).size then
        s.mTunnel.requestSendData else s.mTunnel := rfl
  rw [filledDatagram_size] at htunnel
  by_cases hsize : 0 < s.mForwardQueueDataSize + BitVec.ofNat 32 ip.payload.length
  · rw [if_pos hsize] at htunnel
    exact .inl htunnel
  · rw [if_neg hsize] at htunnel
    refine .inr ⟨fun hempty => hsize ?_, htunnel⟩
    have hfits := ip.fits
    have hpos := List.length_pos_iff.mpr hqueues.1
    rw [hs.counted, hempty, BufferQueue.bytes_nil, List.length_nil]
    bv_omega

theorem uploaded_settled {ip : Packet} (hqueues : s.Queues ip) (hs : s.Settled)
    (hquiet : Quiet s.mTunnel (s.uploaded ip).mTunnel)
    (halive : (s.uploaded ip).mTunnel.mAlive = true) : (s.uploaded ip).Settled := by
  obtain ⟨hsame, hkeeps⟩ := hquiet halive
  have hperm : (s.uploaded ip).mForwardQueue.Perm (s.filledDatagram ip :: s.mForwardQueue) :=
    List.perm_insertIdx _ _ (BufferQueue.findNotSmaller_le _ _ _)
  have hlen := BufferQueue.length_bytes_of_perm hperm
  rw [BufferQueue.bytes_cons, List.length_append, filledDatagram_readable] at hlen
  have hfits := ip.fits
  have hpos := List.length_pos_iff.mpr hqueues.1
  refine hs.of_same (hkeeps.open_ hs.opened) hsame (fun d hd => ?_) ?_
  · rcases List.mem_cons.mp (hperm.mem_iff.mp hd) with rfl | hmem
    · rw [filledDatagram_size]
      omega
    · exact hs.payloads d hmem
  · show s.mForwardQueueDataSize + BitVec.ofNat 32 (s.filledDatagram ip).size = _
    rw [filledDatagram_size, hlen, hs.counted, BitVec.ofNat_add, BitVec.add_comm]

theorem tends_uploaded {ip : Packet} (hqueues : s.Queues ip) : Tends s (s.uploaded ip) := by
  have hquiet : Quiet s.mTunnel (s.uploaded ip).mTunnel := by
    show Quiet s.mTunnel (if _ then s.mTunnel.requestSendData else s.mTunnel)
    split
    · exact Socks5Proxy.quiet_whileTrans (EpollReactor.keepsWrite_addEvent _ _ _ _)
    · exact Quiet.refl _
  intro halive
  obtain ⟨hsame, hkeeps⟩ := hquiet halive
  refine ⟨hsame.alive.symm.trans halive, fun hs => ⟨uploaded_settled hqueues hs hquiet halive, fun hasks hp => ?_⟩⟩
  by_cases hstate : s.mTunnel.mS5State = .trans
  · rcases uploaded_requests hqueues hs with htunnel | ⟨hne, htunnel⟩
    · rw [htunnel]
      exact Socks5Proxy.writeOn_requestSendData hs.opened hstate
    · rw [htunnel]
      exact hasks ((pending_iff_of_trans hstate _).mpr (.inr hne))
  · have hbefore := (pending_iff_of_ne (hkeeps.state ▸ hstate) _).mp hp
    rw [hsame.socks5] at hbefore
    exact hkeeps.write hs.opened (hasks ((pending_iff_of_ne hstate _).mpr hbefore))

theorem tends_accept {ip : Packet} (h : accept ip s = some t) : Tends s t := by
  rcases quiet_relation.accept h with hframe | ⟨u, hsu, hqueues, hut⟩
  · exact tends_of_quiet hframe
  · exact (tends_of_quiet hsu).trans ((tends_uploaded hqueues).trans (tends_of_quiet hut))

/-! ## The drain loop over a proxy -/

-- A proxy takes nothing it has no room for, and a parcel's worth of anything else.
theorem sendData_proxy (p : Socks5Proxy) {data : Bytes} (hdata : data ≠ []) (more : Bool) :
    (p.sendData data more = .sent 0 p ∧
      (p.mAlive = true → p.getAvailableBufferSize.toNat < data.length)) ∨
    (p.mAlive = true ∧ data.length ≤ p.getAvailableBufferSize.toNat ∧ ∃ segment p',
      p.sendData data more = .sent (min data.length MAX_ENCRYPT_SIZE) p' ∧
        Queued .out segment p p') := by
  unfold Socks5Proxy.sendData
  by_cases halive : p.mAlive = true
  · rw [if_neg (by rw [halive]; decide)]
    by_cases hroom : p.getAvailableBufferSize.toNat < data.length
    · rw [if_pos hroom]
      exact .inl ⟨rfl, fun _ => hroom⟩
    · rw [if_neg hroom]
      obtain ⟨hcount, segment, hqueued, -, -⟩ := p.encryptAndQueue_queued .out hdata
      rw [hcount]
      exact .inr ⟨halive, by omega, segment, _, rfl, hqueued⟩
  · rw [if_pos (by simpa using halive)]
    exact .inl ⟨rfl, fun h => absurd h halive⟩

theorem toNat_available {p : Socks5Proxy} (h : p.mAlive = true) :
    p.getAvailableBufferSize.toNat = MAX_SOCKS5_PROXY_SEND_BUFFER - p.mBufferedSize.toNat := by
  have hmax : MAX_SOCKS5_PROXY_SEND_BUFFER = 262144 := rfl
  unfold Socks5Proxy.getAvailableBufferSize
  rw [hmax]
  simp only
  rw [if_neg (by rw [h]; decide)]
  split
  next hlt =>
    have hlt' : 262144 < p.mBufferedSize.toNat := by bv_omega
    show 0 = _
    omega
  next hle => bv_omega

structure Drained (p : Socks5Proxy) (queue : List TCPDatagram) (r : DrainResult Socks5Proxy) :
    Prop where
  failed : r.failed = none
  outlet : KeepsOutlet p r.tunnel
  alive : r.tunnel.mAlive = p.mAlive
  socks5 : r.tunnel.mSocks5 = p.mSocks5
  stocked : Stocked p → Stocked r.tunnel
  payloads : Payloads r.queue
  le : r.taken.length ≤
    MAX_ENCRYPT_SIZE * (MAX_SOCKS5_PROXY_SEND_BUFFER - p.mBufferedSize.toNat)
  moved : (r.taken = [] ∧ r.tunnel = p) ∨
    (r.tunnel.mOutQueue ≠ [] ∧ (Open p → WriteOn r.tunnel.reactor r.tunnel.mSocket))

theorem Drained.stop {p : Socks5Proxy} {queue : List TCPDatagram} (h : Payloads queue) :
    Drained p queue ⟨queue, p, [], none⟩ :=
  ⟨rfl, .refl p, rfl, rfl, id, h, Nat.zero_le _, .inl ⟨rfl, rfl⟩⟩

theorem leftOver_payloads {d : TCPDatagram} {n : Nat} {queue : List TCPDatagram}
    (h : Payloads (d :: queue)) (hn : n ≤ d.size) : Payloads (leftOver d n queue) := by
  obtain ⟨⟨hpos, hle⟩, hrest⟩ := List.forall_mem_cons.mp h
  have hsize : (d.withSegment (d.consume n)).size = d.size - n := Segment.size_consume hn
  unfold leftOver
  simp only
  split
  · exact hrest
  · exact List.forall_mem_cons.mpr ⟨by omega, hrest⟩

-- A segment goes into the proxy, the rest of the loop runs on what is left.
theorem Drained.cons {p p' : Socks5Proxy} {d : TCPDatagram} {queue : List TCPDatagram}
    {segment : Segment} {r : DrainResult Socks5Proxy} (hqueued : Queued .out segment p p')
    (hroom : d.size ≤ MAX_SOCKS5_PROXY_SEND_BUFFER - p.mBufferedSize.toNat) (hpos : 0 < d.size)
    (h : Drained p' (leftOver d (min d.size MAX_ENCRYPT_SIZE) queue) r) :
    Drained p (d :: queue)
      { r with taken := d.readable.take (min d.size MAX_ENCRYPT_SIZE) ++ r.taken } where
  failed := h.failed
  outlet := hqueued.outlet.trans h.outlet
  alive := h.alive.trans hqueued.alive
  socks5 := h.socks5.trans hqueued.socks5
  stocked hstocked := h.stocked (hqueued.stocked hstocked)
  payloads := h.payloads
  le := by
    have hmax : MAX_ENCRYPT_SIZE = 4096 := rfl
    have hbuffer : MAX_SOCKS5_PROXY_SEND_BUFFER = 262144 := rfl
    have hparcel : MAX_PARCEL_SIZE = 8192 := rfl
    have hle := h.le
    have hsegment := hqueued.pos
    have hsegment' := hqueued.le
    -- a parcel of the room is used up, and no more than a message is taken
    have hcount : p'.mBufferedSize.toNat = p.mBufferedSize.toNat + segment.size := by
      rw [hqueued.counted, BitVec.toNat_add, BitVec.toNat_ofNat]
      omega
    show (d.readable.take (min d.size MAX_ENCRYPT_SIZE) ++ r.taken).length ≤ _
    rw [List.length_append, List.length_take, Segment.length_readable]
    rw [hmax, hbuffer] at hle ⊢
    omega
  moved := by
    have hout : p'.mOutQueue ≠ [] := by
      rw [hqueued.outQueue]
      exact List.append_ne_nil_of_right_ne_nil _ (List.cons_ne_nil _ _)
    rcases h.moved with ⟨-, heq⟩ | ⟨hne, hwrites⟩
    · refine .inr ⟨?_, fun hopen => ?_⟩
      · rw [heq]
        exact hout
      · rw [heq]
        exact hqueued.writes hopen
    · exact .inr ⟨hne, fun hopen => hwrites (hqueued.outlet.open_ hopen)⟩

theorem drainLoop_drained (fuel : Nat) {queue : List TCPDatagram} (h : Payloads queue)
    (p : Socks5Proxy) : Drained p queue (drainLoop fuel queue p) := by
  induction fuel generalizing queue p with
  | zero => exact .stop h
  | succ fuel ih =>
    cases queue with
    | nil => exact .stop h
    | cons d queue =>
      obtain ⟨hpos, hle⟩ := h d List.mem_cons_self
      have hdata : d.readable ≠ [] := by
        rw [← List.length_pos_iff, Segment.length_readable]
        exact hpos
      rw [drainLoop_cons]
      rcases sendData_proxy p hdata (!d.hasFlag PSH) with
        ⟨hsend, -⟩ | ⟨halive, hroom, segment, p', hsend, hqueued⟩
      · rw [show ITunnel.sendData p d.readable (!d.hasFlag PSH) = _ from hsend]
        exact .stop h
      · rw [show ITunnel.sendData p d.readable (!d.hasFlag PSH) = _ from hsend]
        rw [toNat_available halive, Segment.length_readable] at hroom
        have hmax : MAX_ENCRYPT_SIZE = 4096 := rfl
        rw [Segment.length_readable]
        simp only
        rw [if_neg (by omega)]
        exact .cons hqueued hroom hpos (ih (leftOver_payloads h (Nat.min_le_left _ _)) p')

-- A proxy with nothing to send has room for a payload.
theorem drain_takes (hs : s.Settled) (hstate : s.mTunnel.mS5State = .trans)
    (hout : s.mTunnel.mOutQueue = []) (hne : s.mForwardQueue ≠ []) :
    (drain s.mForwardQueue s.mTunnel).taken ≠ [] := by
  obtain ⟨d, queue, hqueue⟩ := List.exists_cons_of_ne_nil hne
  obtain ⟨hpos, hle⟩ := hs.payloads d (hqueue ▸ List.mem_cons_self)
  have hdata : d.readable ≠ [] := by
    rw [← List.length_pos_iff, Segment.length_readable]
    exact hpos
  have hroom : d.readable.length ≤ s.mTunnel.getAvailableBufferSize.toNat := by
    have hhandshake := hs.handshake
    have hcounted := hs.stocked.counted
    have hparcel : MAX_PARCEL_SIZE = 8192 := rfl
    have hbuffer : MAX_SOCKS5_PROXY_SEND_BUFFER = 262144 := rfl
    have hsent : S5State.trans.handshakeSent = 3 := rfl
    rw [hstate, hparcel, hsent] at hhandshake
    rw [hout, queuedBytes_nil, Nat.add_zero] at hcounted
    rw [toNat_available hs.opened.alive, hcounted, hbuffer, BitVec.toNat_ofNat,
      Segment.length_readable]
    omega
  rw [drain, hqueue, drainLoop_cons]
  rcases sendData_proxy s.mTunnel hdata (!d.hasFlag PSH) with
    ⟨-, hfull⟩ | ⟨-, -, segment, p', hsend, -⟩
  · have hlt := hfull hs.opened.alive
    omega
  · have hmax : MAX_ENCRYPT_SIZE = 4096 := rfl
    rw [show ITunnel.sendData s.mTunnel d.readable (!d.hasFlag PSH) = _ from hsend]
    rw [Segment.length_readable]
    simp only
    rw [if_neg (by omega)]
    refine List.append_ne_nil_of_left_ne_nil ?_ _
    rw [Ne, List.take_eq_nil_iff]
    exact fun h => h.elim (by omega) hdata

-- A session asked for data leaves nothing that waits for an event nobody asks for, and returns a
-- positive count if it had something.
theorem onTunnelWritable_settled (hs : s.Settled) (hstate : s.mTunnel.mS5State = .trans)
    (hout : s.mTunnel.mOutQueue = []) :
    s.onTunnelWritable.Settled ∧ s.onTunnelWritable.Asks ∧
      s.onTunnelWritable.mTunnel.mS5State = .trans ∧
      ((s.mForwardQueue = [] ∧ s.onTunnelWritable.mForwardQueue = [] ∧
          s.onTunnelWritable.mTunnel.mOutQueue = []) ∨
        0 < (BitVec.ofNat 32 (drain s.mForwardQueue s.mTunnel).taken.length).toInt) := by
  unfold onTunnelWritable
  by_cases hempty : s.mForwardQueue = []
  · rw [if_pos hempty]
    have hsame := Socks5Proxy.whileTrans_stock (fun r => (r.delEvent s.mTunnel.mSocket evWRITE).2)
      s.mTunnel
    have hstate' := hsame.state.trans hstate
    have hout' := hsame.outQueue.trans hout
    refine ⟨?_, fun hp => ?_, hstate', .inl ⟨hempty, hempty, hout'⟩⟩
    · exact hs.of_same (Socks5Proxy.open_pauseSendData hs.opened) hsame hs.payloads hs.counted
    · exact absurd ((pending_iff_of_trans hstate' _).mp hp) (by simp [hempty, hout'])
  · have htakes := drain_takes hs hstate hout hempty
    have hdrained : Drained s.mTunnel s.mForwardQueue (drain s.mForwardQueue s.mTunnel) :=
      drainLoop_drained _ hs.payloads s.mTunnel
    have hbytes := congrArg List.length (drain_bytes s.mForwardQueue s.mTunnel)
    rw [if_neg hempty]
    simp only [hdrained.failed]
    unfold drained
    generalize drain s.mForwardQueue s.mTunnel = r at htakes hdrained hbytes ⊢
    obtain ⟨hout', hwrites⟩ := hdrained.moved.resolve_left fun h => htakes h.1
    have hpos := List.length_pos_iff.mpr htakes
    rw [countSent, if_pos hpos]
    have hstate' := hdrained.outlet.state.trans hstate
    refine ⟨⟨hdrained.outlet.open_ hs.opened, hdrained.stocked hs.stocked, ?_, ?_,
      hdrained.payloads, ?_⟩, fun _ => hwrites hs.opened, hstate', .inr ?_⟩
    · exact fun hne => absurd hstate' hne
    · have hhandshake := hs.handshake
      rw [← hdrained.socks5, ← hdrained.outlet.state] at hhandshake
      exact hhandshake
    · show s.mForwardQueueDataSize - BitVec.ofNat 32 r.taken.length =
        BitVec.ofNat 32 (BufferQueue.bytes r.queue).length
      rw [hs.counted, ← hbytes, List.length_append, BitVec.ofNat_add, BitVec.add_comm,
        BitVec.add_sub_cancel]
    · have hle := hdrained.le
      have hmax : MAX_ENCRYPT_SIZE = 4096 := rfl
      have hbuffer : MAX_SOCKS5_PROXY_SEND_BUFFER = 262144 := rfl
      rw [hmax, hbuffer] at hle
      have hcount : (BitVec.ofNat 32 r.taken.length).toNat = r.taken.length := by
        rw [BitVec.toNat_ofNat]
        omega
      rw [BitVec.toInt_eq_toNat_of_lt (by omega), hcount]
      omega

end TCPSession

namespace TCPSession

variable {s : TCPSession Socks5Proxy}

/-! ## `sendQueue` -/

def withProxy (p : Socks5Proxy) (s : TCPSession Socks5Proxy) : TCPSession Socks5Proxy :=
  { s with mTunnel := p }

theorem sendOut_settled (hs : s.Settled) (hstate : s.mTunnel.mS5State = .trans) :
    (s.withProxy s.mTunnel.sendOut).Settled := by
  obtain ⟨hopen, hkept, -⟩ := Socks5Proxy.open_sendOut hs.opened
  obtain ⟨hstocked, hsocks, -⟩ := Socks5Proxy.sendOut_stocked hs.stocked
  have hstate' := hkept.trans hstate
  refine ⟨hopen, hstocked, fun hne => absurd hstate' hne, ?_, hs.payloads, hs.counted⟩
  have hhandshake := hs.handshake
  rw [← hsocks, ← hkept] at hhandshake
  exact hhandshake

-- A queue of which nothing is taken is as long as before, and nobody asks for the event any more.
theorem sendOut_asks_iff (hs : s.Settled) (hstate : s.mTunnel.mS5State = .trans) (hasks : s.Asks)
    (hne : s.mTunnel.mOutQueue ≠ []) :
    (s.withProxy s.mTunnel.sendOut).Asks ↔ ∃ n, s.mTunnel.sends 0 = .accepted n := by
  obtain ⟨-, hkept, hwrite⟩ := Socks5Proxy.open_sendOut hs.opened
  obtain ⟨hstocked, -, hsent⟩ := Socks5Proxy.sendOut_stocked hs.stocked
  have hbefore := hasks ((pending_iff_of_trans hstate _).mpr (.inl hne))
  rw [← hs.stocked.outQueue.not_refused_iff hne]
  constructor
  · intro hasks' hrefused
    have hleft : s.mTunnel.sendOut.mOutQueue ≠ [] := by
      rw [hstocked.outQueue.ne_nil_iff, hsent.refused hrefused]
      exact hs.stocked.outQueue.ne_nil_iff.mp hne
    have hwrites := hasks' ((pending_iff_of_trans (hkept.trans hstate) _).mpr (.inl hleft))
    exact (hwrite.mp hwrites).2 hrefused
  · exact fun htaken _ => hwrite.mpr ⟨hbefore, htaken⟩

theorem sendSocks5_settled (hs : s.Settled) (hstate : s.mTunnel.mS5State ≠ .trans) :
    (s.withProxy s.mTunnel.sendSocks5).Settled := by
  have hopen := (Socks5Proxy.open_sendSocks5 hs.opened).1
  have hkept := s.mTunnel.mS5State_sendSocks5
  obtain ⟨hstocked, hout, hsent⟩ := Socks5Proxy.sendSocks5_stocked hs.stocked
  refine ⟨hopen, hstocked, fun _ => hout.trans (hs.early hstate), ?_, hs.payloads, hs.counted⟩
  have hhandshake := hs.handshake
  rw [← hkept] at hhandshake
  exact Nat.le_trans hsent.le hhandshake

theorem sendSocks5_asks_iff (hs : s.Settled) (hstate : s.mTunnel.mS5State ≠ .trans) (hasks : s.Asks)
    (hne : s.mTunnel.mSocks5 ≠ []) :
    (s.withProxy s.mTunnel.sendSocks5).Asks ↔ ∃ n, s.mTunnel.sends 0 = .accepted n := by
  have hwrite := (Socks5Proxy.open_sendSocks5 hs.opened).2
  have hkept := s.mTunnel.mS5State_sendSocks5
  obtain ⟨hstocked, -, hsent⟩ := Socks5Proxy.sendSocks5_stocked hs.stocked
  have hbefore := hasks ((pending_iff_of_ne hstate _).mpr hne)
  rw [← hs.stocked.socks5.not_refused_iff hne]
  constructor
  · intro hasks' hrefused
    have hleft : s.mTunnel.sendSocks5.mSocks5 ≠ [] := by
      rw [hstocked.socks5.ne_nil_iff, hsent.refused hrefused]
      exact hs.stocked.socks5.ne_nil_iff.mp hne
    have hstate' : s.mTunnel.sendSocks5.mS5State ≠ .trans := by
      rw [hkept]
      exact hstate
    exact (hwrite.mp (hasks' ((pending_iff_of_ne hstate' _).mpr hleft))).2 hrefused
  · exact fun htaken _ => hwrite.mpr ⟨hbefore, htaken⟩

end TCPSession

/-! ## The proxy -/

namespace ProxiedSession

open TCPSession (Tends tends_of_quiet)
open Socks5Proxy (Prepared)

variable {w w' : ProxiedSession}

theorem tends_onProxy {f : Socks5Proxy → Socks5Proxy} (h : Quiet w.proxy (f w.proxy)) :
    Tends w.joined (joined (w.onProxy f)) := tends_of_quiet ⟨rfl, rfl, h⟩

-- The end of a proxy.
theorem switchEnd_dead {state : S5State} (hend : state = .ended ∨ state = .failed)
    (hne : w.proxy.mS5State ≠ state) : (w.switchS5State state).proxy.mAlive = false := by
  unfold Served.switchS5State
  rw [if_neg hne]
  rcases hend with rfl | rfl <;> rfl

theorem tends_switchEnd {state : S5State} (hend : state = .ended ∨ state = .failed)
    (w : ProxiedSession) : Tends w.joined (joined (w.switchS5State state)) := by
  by_cases hsame : w.proxy.mS5State = state
  · unfold Served.switchS5State
    rw [if_pos hsame]
    exact .refl _
  · exact .dead (switchEnd_dead hend hsame)

-- The proxy begins to pass payload on and asks its session at once.
theorem tends_switchTrans (w : ProxiedSession) : Tends w.joined (joined (w.switchS5State .trans)) := by
  unfold Served.switchS5State
  by_cases hsame : w.proxy.mS5State = .trans
  · rw [if_pos hsame]
    exact .refl _
  · rw [if_neg hsame]
    let s : TCPSession Socks5Proxy := joined (w.onProxy fun p =>
      .emit (.switched p.mS5State .trans) { p with mS5State := .trans })
    have hentered (hs : w.joined.Settled) : s.Settled := by
      refine ⟨⟨hs.opened.alive, hs.opened.reactor, hs.opened.listens⟩, ⟨hs.stocked.socks5,
        hs.stocked.outQueue, hs.stocked.counted⟩, fun hne => absurd rfl hne, ?_, hs.payloads,
        hs.counted⟩
      have hhandshake : queuedBytes w.proxy.mSocks5 ≤
        MAX_PARCEL_SIZE * w.proxy.mS5State.handshakeSent := hs.handshake
      have hparcel : MAX_PARCEL_SIZE = 8192 := rfl
      have hmost := S5State.handshakeSent_le w.proxy.mS5State
      show queuedBytes w.proxy.mSocks5 ≤ MAX_PARCEL_SIZE * 3
      rw [hparcel] at hhandshake ⊢
      omega
    have hcalled : Tends w.joined s.onTunnelWritable := by
      refine .of_settled (fun halive => ?_) fun hs => ?_
      · cases hdead : w.proxy.mAlive with
        | true => exact hdead
        | false =>
          have hdead' : s.mTunnel.mAlive = false := hdead
          rw [Socks5Proxy.dead_calls hdead' s.onTunnelWritable_calls] at halive
          cases halive
      · obtain ⟨hsettled, hasks, -⟩ :=
          TCPSession.onTunnelWritable_settled (hentered hs) rfl (hs.early hsame)
        exact ⟨hsettled, hasks⟩
    exact hcalled

-- The handshake goes on, with one more message queued at most.
theorem tends_enter {w₁ : ProxiedSession} {state : S5State} (hprepared : Prepared w.proxy w₁.proxy)
    (hclient : w₁.mClient = w.mClient) (hbefore : w.proxy.mS5State ≠ .trans)
    (hstate : state = .greet ∨ state = .verify ∨ state = .connect)
    (hmore : w.proxy.mS5State.handshakeSent + 1 ≤ state.handshakeSent) :
    Tends w.joined (joined (w₁.switchS5State state)) := by
  have hkept := hprepared.outlet.state
  have hnew : w₁.proxy.mS5State ≠ state := by
    rw [hkept]
    rintro rfl
    omega
  have hswitch : Served.switchS5State state w₁ = Served.onProxy (fun p =>
      .emit (.switched p.mS5State state) { p with mS5State := state }) w₁ := by
    unfold Served.switchS5State
    rw [if_neg hnew]
    rcases hstate with rfl | rfl | rfl <;> rfl
  have hne : state ≠ .trans := by rcases hstate with rfl | rfl | rfl <;> decide
  rw [hswitch]
  intro halive
  refine ⟨hprepared.alive.symm.trans halive, fun hs => ⟨?_, fun hasks hp => ?_⟩⟩
  · obtain ⟨halive', hreactor, hlistens⟩ := hprepared.outlet.open_ hs.opened
    obtain ⟨hsocks, hout, hcounted⟩ := hprepared.stocked hs.stocked
    refine ⟨⟨halive', hreactor, hlistens⟩, ⟨hsocks, hout, hcounted⟩, fun _ => ?_, ?_, ?_, ?_⟩
    · exact hprepared.outQueue.trans (hs.early hbefore)
    · have hhandshake : queuedBytes w.proxy.mSocks5 ≤
        MAX_PARCEL_SIZE * w.proxy.mS5State.handshakeSent := hs.handshake
      have hparcel : MAX_PARCEL_SIZE = 8192 := rfl
      have hle := hprepared.le
      show queuedBytes w₁.proxy.mSocks5 ≤ MAX_PARCEL_SIZE * state.handshakeSent
      rw [hparcel] at hhandshake hle ⊢
      omega
    · show TCPSession.Payloads w₁.mClient.mForwardQueue
      rw [hclient]
      exact hs.payloads
    · show w₁.mClient.mForwardQueueDataSize =
        BitVec.ofNat 32 (BufferQueue.bytes w₁.mClient.mForwardQueue).length
      rw [hclient]
      exact hs.counted
  · have hpending := (TCPSession.pending_iff_of_ne hne _).mp hp
    exact hprepared.writes hs.opened
      (fun hbefore' => hasks ((TCPSession.pending_iff_of_ne hbefore _).mpr hbefore')) hpending

theorem prepared_sendS5 (kind : S5Message) (data : Bytes) (w : ProxiedSession) :
    Prepared w.proxy (w.sendS5 kind data).2.proxy := Socks5Proxy.prepared_encryptAndQueue kind data _

-- Where a session and its proxy lie in the joined one.
theorem joined_mTunnel (w : ProxiedSession) : w.joined.mTunnel = w.proxy := rfl

-- The greeting is never empty, so it is always queued.
theorem sendS5Greet_queued (w : ProxiedSession) :
    (∃ segment, w.sendS5Greet.2.proxy.mSocks5 = w.proxy.mSocks5 ++ [segment]) ∧
      w.sendS5Greet.2.proxy.sends = w.proxy.sends ∧
      w.sendS5Greet.2.proxy.mAlive = w.proxy.mAlive ∧
      w.sendS5Greet.2.mClient = w.mClient := by
  have hmethods : (Served.getS5VerifyMethods w.proxy.settings 4).length ≤ 4 := List.length_take_le _ _
  have hne := Served.greet_ne_nil _ hmethods
  unfold Served.sendS5Greet Served.sendS5
  simp only
  generalize Served.message 64 _ = data at hne ⊢
  obtain ⟨-, segment, hqueued, -, -⟩ := w.proxy.encryptAndQueue_queued (.socks5 .greet) hne
  exact ⟨⟨segment, hqueued.socks5⟩, w.proxy.sends_encryptAndQueue _ _, hqueued.alive, trivial⟩

theorem sendS5Greet_prepared (w : ProxiedSession) : Prepared w.proxy w.sendS5Greet.2.proxy := by
  unfold Served.sendS5Greet
  exact prepared_sendS5 .greet _ w

theorem sendS5Account_prepared (w : ProxiedSession) :
    Prepared w.proxy w.sendS5Account.2.proxy ∧ w.sendS5Account.2.mClient = w.mClient := by
  unfold Served.sendS5Account
  split
  · exact ⟨prepared_sendS5 _ _ w, rfl⟩
  · exact ⟨.of_quiet ⟨rfl, rfl, rfl, rfl, rfl⟩ (.refl _), rfl⟩

theorem tends_connect (hbefore : w.proxy.mS5State = .greet ∨ w.proxy.mS5State = .verify) :
    Tends w.joined (joined (w.sendS5Connect.2.switchS5State .connect)) := by
  have hprepared : Prepared w.proxy w.sendS5Connect.2.proxy := prepared_sendS5 .connect _ w
  refine tends_enter hprepared rfl ?_ (.inr (.inr rfl)) ?_
  · rcases hbefore with h | h <;> rw [h] <;> decide
  · rcases hbefore with h | h <;> rw [h] <;> decide

theorem tends_passBack (data : Bytes) (w : ProxiedSession) :
    Tends w.joined (joined (w.passBack data)) := by
  have hcounted : Tends w.joined (joined (w.onProxy fun p =>
      .emit (.dataBack data)
        { p with mPayloadDataBack := p.mPayloadDataBack + BitVec.ofNat 32 data.length })) :=
    tends_onProxy (.of_eq ⟨rfl, rfl, rfl, rfl, rfl⟩ rfl rfl rfl)
  exact hcounted.trans (tends_of_quiet (quiet_relation.onTunnelDataBack data _))

theorem tends_noteConnected (w : ProxiedSession) : Tends w.joined (joined w.noteConnected) := by
  unfold Served.noteConnected
  split
  · exact .refl _
  · exact tends_onProxy (f := fun p => { p with mConnected := true })
      (.of_eq ⟨rfl, rfl, rfl, rfl, rfl⟩ rfl rfl rfl)

-- The account is asked for.
theorem tends_account {state : S5State} (hbefore : w.proxy.mS5State = .greet)
    (hstate : state = .verify ∨ state = .failed) :
    Tends w.joined (joined (w.sendS5Account.2.switchS5State state)) := by
  obtain ⟨hprepared, hclient⟩ := sendS5Account_prepared w
  rcases hstate with rfl | rfl
  · refine tends_enter hprepared hclient ?_ (.inr (.inl rfl)) ?_
    · rw [hbefore]
      decide
    · rw [hbefore]
      decide
  · refine .dead (switchEnd_dead (.inr rfl) ?_)
    rw [hprepared.outlet.state, hbefore]
    decide

theorem tends_reads : ReadRelation fun w w' : ProxiedSession => Tends w.joined w'.joined where
  refl _ := .refl _
  trans := Tends.trans
  handled _ _ := tends_onProxy (.of_eq ⟨rfl, rfl, rfl, rfl, rfl⟩ rfl rfl rfl)
  ends w hend := tends_switchEnd hend w
  connect := tends_connect
  account := tends_account
  established {w} _ := tends_switchTrans w
  passBack data w _ := tends_passBack data w
  cipher _ _ := tends_onProxy (.of_eq ⟨rfl, rfl, rfl, rfl, rfl⟩ rfl rfl rfl)
  buffer _ _ := tends_onProxy (.of_eq ⟨rfl, rfl, rfl, rfl, rfl⟩ rfl rfl rfl)
  noteConnected := tends_noteConnected

theorem tends_onReadable {outcome : Served.ReadOutcome} (h : w.onReadable outcome = some w') :
    Tends w.joined w'.joined := tends_reads.onReadable h

/-! ### The write event -/

-- The call with which an idle proxy asks its session for data.
def asked (w : ProxiedSession) : TCPSession Socks5Proxy :=
  let s := w.joined.onTunnelWritable
  let sent := BitVec.ofNat 32 (TCPSession.drain w.mClient.mForwardQueue w.proxy).taken.length
  if sent.toInt ≤ 0 then s.withProxy s.mTunnel.closeWrite else s

theorem onWritable_idle (hstate : w.noteConnected.proxy.mS5State = .trans)
    (hout : w.noteConnected.proxy.mOutQueue = []) :
    joined w.onWritable = asked w.noteConnected := by
  unfold Served.onWritable asked
  simp only [hstate, hout, ne_eq, not_true_eq_false, if_false]
  split
  next hnothing => exact (if_pos hnothing).symm
  next hsent => exact (if_neg hsent).symm

theorem asked_alive (halive : w.asked.mTunnel.mAlive = true) : w.proxy.mAlive = true := by
  cases hdead : w.proxy.mAlive with
  | true => rfl
  | false =>
    have hafter := Socks5Proxy.dead_calls hdead w.joined.onTunnelWritable_calls
    unfold asked at halive
    simp only at halive
    split at halive
    · have hclosed := (Socks5Proxy.closeWrite_stock w.joined.onTunnelWritable.mTunnel).alive
      have hstill := halive.symm.trans (hclosed.trans hafter)
      cases hstill
    · rw [hafter] at halive
      cases halive

theorem asked_settled (hs : w.joined.Settled) (hstate : w.proxy.mS5State = .trans)
    (hout : w.proxy.mOutQueue = []) : w.asked.Settled ∧ w.asked.Asks := by
  obtain ⟨hsettled, hasks, hkept, hmoved⟩ := TCPSession.onTunnelWritable_settled hs hstate hout
  unfold asked
  simp only
  split
  next hnothing =>
    -- a count that is not positive comes from an empty queue
    rcases hmoved with ⟨-, hempty, hout'⟩ | hpos
    · have hsame := Socks5Proxy.closeWrite_stock w.joined.onTunnelWritable.mTunnel
      refine ⟨hsettled.of_same (Socks5Proxy.open_closeWrite hsettled.opened) hsame
        hsettled.payloads hsettled.counted, fun hp => ?_⟩
      have hpending := (TCPSession.pending_iff_of_trans (hsame.state.trans hkept) _).mp hp
      rcases hpending with hne | hne
      · exact absurd (hsame.outQueue.trans hout') hne
      · exact absurd hempty hne
    · exact absurd hpos (Int.not_lt.mpr hnothing)
  next => exact ⟨hsettled, hasks⟩

theorem noteConnected_eq (w : ProxiedSession) :
    ∃ connected, w.noteConnected = ⟨w.mClient, { w.proxy with mConnected := connected }⟩ := by
  unfold Served.noteConnected
  split
  · exact ⟨w.proxy.mConnected, rfl⟩
  · exact ⟨true, rfl⟩

-- The calls of `onWritable`.
theorem onWritable_cases (w : ProxiedSession) :
    (w.proxy.mS5State = .trans ∧ w.proxy.mOutQueue ≠ [] ∧
      w.onWritable = w.noteConnected.onProxy .sendOut) ∨
    (w.proxy.mS5State = .trans ∧ w.proxy.mOutQueue = [] ∧
      joined w.onWritable = asked w.noteConnected) ∨
    (w.proxy.mS5State = .init ∧
      w.onWritable = w.noteConnected.sendS5Greet.2.switchS5State .greet) ∨
    (w.proxy.mS5State ≠ .trans ∧ w.proxy.mS5State ≠ .init ∧ w.proxy.mSocks5 = [] ∧
      w.onWritable = w.noteConnected.onProxy .closeWrite) ∨
    (w.proxy.mS5State ≠ .trans ∧ w.proxy.mS5State ≠ .init ∧ w.proxy.mSocks5 ≠ [] ∧
      w.onWritable = w.noteConnected.onProxy .sendSocks5) := by
  obtain ⟨connected, hnoted⟩ := noteConnected_eq w
  have hstate : w.noteConnected.proxy.mS5State = w.proxy.mS5State := by rw [hnoted]
  have hout : w.noteConnected.proxy.mOutQueue = w.proxy.mOutQueue := by rw [hnoted]
  have hsocks : w.noteConnected.proxy.mSocks5 = w.proxy.mSocks5 := by rw [hnoted]
  by_cases htrans : w.proxy.mS5State = .trans
  · by_cases hempty : w.proxy.mOutQueue = []
    · exact .inr (.inl ⟨htrans, hempty, onWritable_idle (hstate.trans htrans) (hout.trans hempty)⟩)
    · refine .inl ⟨htrans, hempty, ?_⟩
      unfold Served.onWritable
      simp only [hstate, htrans]
      exact if_pos (hout ▸ hempty)
  · by_cases hinit : w.proxy.mS5State = .init
    · refine .inr (.inr (.inl ⟨hinit, ?_⟩))
      unfold Served.onWritable
      simp only [hstate, hinit]
    · have hwritable : w.onWritable =
          if w.noteConnected.proxy.mSocks5 = [] then w.noteConnected.onProxy .closeWrite
          else w.noteConnected.onProxy .sendSocks5 := by
        unfold Served.onWritable
        simp only
        rw [hstate]
        split
        next h => exact absurd h htrans
        next h => exact absurd h hinit
        next => rfl
      rw [hsocks] at hwritable
      by_cases hempty : w.proxy.mSocks5 = []
      · rw [if_pos hempty] at hwritable
        exact .inr (.inr (.inr (.inl ⟨htrans, hinit, hempty, hwritable⟩)))
      · rw [if_neg hempty] at hwritable
        exact .inr (.inr (.inr (.inr ⟨htrans, hinit, hempty, hwritable⟩)))

theorem switchS5State_greet (w : ProxiedSession) :
    (w.switchS5State .greet).proxy.mAlive = w.proxy.mAlive ∧
      (w.switchS5State .greet).proxy.mS5State = .greet ∧
      (w.switchS5State .greet).proxy.mSocks5 = w.proxy.mSocks5 ∧
      (w.switchS5State .greet).proxy.sends = w.proxy.sends := by
  unfold Served.switchS5State
  split
  next h => exact ⟨rfl, h, rfl, rfl⟩
  next => exact ⟨rfl, rfl, rfl, rfl⟩

theorem drainedQueue_handshake {p : Socks5Proxy} (htrans : p.mS5State ≠ .trans)
    (hinit : p.mS5State ≠ .init) : p.drainedQueue = p.mSocks5 := by
  unfold Socks5Proxy.drainedQueue
  split
  next h => exact absurd h hinit
  next h => exact absurd h htrans
  next => rfl

-- What a write event comes to.
theorem onWritable_iff (hs : w.joined.Settled) :
    (joined w.onWritable).Settled ∧
      (w.joined.Asks → ((joined w.onWritable).Asks ↔ w.Takes .writable)) := by
  obtain ⟨connected, hnoted⟩ := noteConnected_eq w
  obtain ⟨-, hkeeps⟩ := tends_noteConnected w (by rw [hnoted]; exact hs.opened.alive)
  obtain ⟨hs', hasks'⟩ := hkeeps hs
  have hstate : (joined w.noteConnected).mTunnel.mS5State = w.proxy.mS5State := by rw [hnoted]; rfl
  have hsends : (joined w.noteConnected).mTunnel.sends = w.proxy.sends := by rw [hnoted]; rfl
  have hout : (joined w.noteConnected).mTunnel.mOutQueue = w.proxy.mOutQueue := by rw [hnoted]; rfl
  have hsocks : (joined w.noteConnected).mTunnel.mSocks5 = w.proxy.mSocks5 := by rw [hnoted]; rfl
  -- what `sendQueue` finds decides, if it is called
  have hcalled {queue : List Segment} (hqueue : w.proxy.drainedQueue = queue) (hne : queue ≠ []) :
      w.Takes .writable ↔ ∃ n, w.proxy.sends 0 = .accepted n := by
    constructor
    · exact fun htakes => htakes hs.opened.alive (hqueue ▸ hne)
    · exact fun htaken _ _ => htaken
  have hnothing (hqueue : w.proxy.drainedQueue = []) : w.Takes .writable :=
    fun _ hne => absurd hqueue hne
  rcases onWritable_cases w with ⟨htrans, hne, heq⟩ | ⟨htrans, hempty, heq⟩ | ⟨hinit, heq⟩ |
    ⟨htrans, hinit, hempty, heq⟩ | ⟨htrans, hinit, hne, heq⟩
  · rw [heq]
    refine ⟨TCPSession.sendOut_settled hs' (hstate.trans htrans), fun hasks => ?_⟩
    have hiff := TCPSession.sendOut_asks_iff hs' (hstate.trans htrans) (hasks' hasks) (hout ▸ hne)
    rw [hsends] at hiff
    refine hiff.trans (hcalled ?_ hne).symm
    unfold Socks5Proxy.drainedQueue
    rw [htrans]
  · obtain ⟨hsettled, hafter⟩ := asked_settled hs' (hstate.trans htrans) (hout.trans hempty)
    rw [heq]
    refine ⟨hsettled, fun _ => iff_of_true hafter (hnothing ?_)⟩
    unfold Socks5Proxy.drainedQueue
    rw [htrans]
    exact hempty
  · have hstarts : w.noteConnected.proxy.mS5State = .init := hstate.trans hinit
    obtain ⟨-, -, hgreets, hclient⟩ := sendS5Greet_queued w.noteConnected
    have hgreeted : Tends (joined w.noteConnected) (joined w.onWritable) := by
      rw [heq]
      refine tends_enter (sendS5Greet_prepared _) hclient ?_ (.inl rfl) ?_
      · rw [hstarts]
        decide
      · rw [hstarts]
        decide
    have halive : (joined w.onWritable).mTunnel.mAlive = true := by
      rw [heq, joined_mTunnel, (switchS5State_greet _).1, hgreets]
      exact hs'.opened.alive
    obtain ⟨hsettled, hafter⟩ := (hgreeted halive).2 hs'
    refine ⟨hsettled, fun hasks => iff_of_true (hafter (hasks' hasks)) (hnothing ?_)⟩
    unfold Socks5Proxy.drainedQueue
    rw [hinit]
  · have hclosed := Socks5Proxy.closeWrite_stock (joined w.noteConnected).mTunnel
    have hne := hclosed.state.trans hstate
    rw [heq]
    refine ⟨hs'.of_same (Socks5Proxy.open_closeWrite hs'.opened) hclosed hs'.payloads hs'.counted,
      fun _ => iff_of_true (fun hp => ?_) (hnothing ?_)⟩
    · have hpending := (TCPSession.pending_iff_of_ne (hne ▸ htrans) _).mp hp
      exact absurd (hclosed.socks5.trans (hsocks.trans hempty)) hpending
    · rw [drainedQueue_handshake htrans hinit]
      exact hempty
  · have htrans' : (joined w.noteConnected).mTunnel.mS5State ≠ .trans := hstate ▸ htrans
    rw [heq]
    refine ⟨TCPSession.sendSocks5_settled hs' htrans', fun hasks => ?_⟩
    have hiff := TCPSession.sendSocks5_asks_iff hs' htrans' (hasks' hasks) (hsocks ▸ hne)
    rw [hsends] at hiff
    exact hiff.trans (hcalled (drainedQueue_handshake htrans hinit) hne).symm

theorem onWritable_alive (halive : w.onWritable.proxy.mAlive = true) : w.proxy.mAlive = true := by
  obtain ⟨connected, hnoted⟩ := noteConnected_eq w
  have hsame : w.noteConnected.proxy.mAlive = w.proxy.mAlive := by rw [hnoted]
  rcases onWritable_cases w with ⟨-, -, heq⟩ | ⟨-, -, heq⟩ | ⟨-, heq⟩ | ⟨-, -, -, heq⟩ |
    ⟨-, -, -, heq⟩
  · rw [heq] at halive
    exact hsame.symm.trans ((Socks5Proxy.mAlive_sendOut _).symm.trans halive)
  · have hafter : (joined w.onWritable).mTunnel.mAlive = true := halive
    rw [heq] at hafter
    exact hsame.symm.trans (asked_alive hafter)
  · rw [heq, (switchS5State_greet _).1, (sendS5Greet_queued _).2.2.1] at halive
    exact hsame.symm.trans halive
  · rw [heq] at halive
    exact hsame.symm.trans ((Socks5Proxy.closeWrite_stock _).alive.symm.trans halive)
  · rw [heq] at halive
    exact hsame.symm.trans ((Socks5Proxy.mAlive_sendSocks5 _).symm.trans halive)

/-! ## Runs -/

-- What holds for as long as the proxy lives.
def Sound (w : ProxiedSession) : Prop := w.proxy.mAlive = true → w.joined.Settled

theorem fed_iff (h : w.joined.Settled) : w.Fed ↔ w.joined.Asks := by
  unfold Fed
  exact ⟨fun hfed => hfed h.opened.alive, fun hasks _ => hasks⟩

-- What the others do with the reactor.
theorem quiet_reactor {call : EpollReactor.Call} {p : Socks5Proxy} (hother : call.target ≠ p.mSocket) :
    Quiet p { p with reactor := call.run p.reactor } := by
  refine fun _ => ⟨⟨rfl, rfl, rfl, rfl, rfl⟩, rfl, fun hopen => ?_, fun hopen hwrite => ?_⟩
  · obtain ⟨hfd, events, hregistered, herror⟩ := hopen.listens
    exact ⟨hopen.alive, hopen.reactor, hfd, events, hregistered.call hother, herror⟩
  · obtain ⟨hfd, events, hregistered, herror⟩ := hopen.listens
    unfold WriteOn at hwrite ⊢
    rw [hregistered.containWrite_iff] at hwrite
    exact (hregistered.call hother).containWrite_iff.mpr hwrite

-- Every event but the write event.
theorem step_tends {e : Event} (hstep : w.step e = some w') (hother : e ≠ .writable) :
    Tends w.joined w'.joined := by
  cases e with
  | accept ip =>
    obtain ⟨s, hs, rfl⟩ := Option.map_eq_some_iff.mp hstep
    exact TCPSession.tends_accept hs
  | readable outcome => exact tends_onReadable hstep
  | writable => exact absurd rfl hother
  | exception error =>
    cases hstep
    exact tends_switchEnd (.inl rfl) w
  | written i n =>
    cases hstep
    exact tends_of_quiet (quiet_relation.frame_of_eq rfl rfl rfl)
  | reactor call =>
    unfold step at hstep
    simp only at hstep
    split at hstep
    · cases hstep
    next hne =>
      cases hstep
      exact tends_onProxy (quiet_reactor hne)
  | environment now rand settings cipher =>
    cases hstep
    exact tends_of_quiet ⟨rfl, rfl, .of_eq ⟨rfl, rfl, rfl, rfl, rfl⟩ rfl rfl rfl⟩

-- What a step does to the flow, and whether it strands something.
theorem step_fed (h : w.Sound) {e : Event} (hstep : w.step e = some w') :
    w'.Sound ∧ (w.Fed → (w'.Fed ↔ w.Takes e)) := by
  by_cases hwritable : e = .writable
  · subst hwritable
    cases hstep
    refine ⟨fun halive => (onWritable_iff (h (onWritable_alive halive))).1, fun hfed => ?_⟩
    cases hlives : w.proxy.mAlive with
    | true =>
      obtain ⟨hsettled, hiff⟩ := onWritable_iff (h hlives)
      exact (fed_iff hsettled).trans (hiff ((fed_iff (h hlives)).mp hfed))
    | false =>
      -- a proxy that is gone has nothing to send
      refine iff_of_true (fun halive => ?_) (fun halive => ?_)
      · rw [onWritable_alive halive] at hlives
        cases hlives
      · rw [hlives] at halive
        cases halive
  · have htends := step_tends hstep hwritable
    refine ⟨fun halive => ?_, fun hfed => ?_⟩
    · obtain ⟨halive', hkeeps⟩ := htends halive
      exact (hkeeps (h halive')).1
    · have htakes : w.Takes e := by cases e <;> first | exact absurd rfl hwritable | trivial
      refine iff_of_true (fun halive => ?_) htakes
      obtain ⟨halive', hkeeps⟩ := htends halive
      exact (hkeeps (h halive')).2 (hfed halive')

structure Established (p : Socks5Proxy) : Prop where
  opened : Open p
  state : p.mS5State = .init
  socks5 : p.mSocks5 = []
  outQueue : p.mOutQueue = []
  bufferedSize : p.mBufferedSize = 0

/-- A session as `init` leaves it, with a proxy just established. -/
structure Born (w : ProxiedSession) : Prop where
  established : Established w.proxy
  forwardQueue : w.mClient.mForwardQueue = []
  forwardQueueDataSize : w.mClient.mForwardQueueDataSize = 0

theorem Born.settled (h : Born w) : w.joined.Settled := by
  obtain ⟨⟨hopened, hstate, hsocks, hout, hsize⟩, hqueue, hcount⟩ := h
  refine ⟨hopened, ⟨?_, ?_, ?_⟩, fun _ => hout, ?_, ?_, ?_⟩
  · show Filled w.proxy.mSocks5
    rw [hsocks]
    exact List.forall_mem_nil _
  · show Filled w.proxy.mOutQueue
    rw [hout]
    exact List.forall_mem_nil _
  · show w.proxy.mBufferedSize =
      BitVec.ofNat 32 (queuedBytes w.proxy.mSocks5 + queuedBytes w.proxy.mOutQueue)
    rw [hsize, hsocks, hout]
    rfl
  · show queuedBytes w.proxy.mSocks5 ≤ MAX_PARCEL_SIZE * w.proxy.mS5State.handshakeSent
    rw [hsocks]
    exact Nat.zero_le _
  · show TCPSession.Payloads w.mClient.mForwardQueue
    rw [hqueue]
    exact List.forall_mem_nil _
  · show w.mClient.mForwardQueueDataSize =
      BitVec.ofNat 32 (BufferQueue.bytes w.mClient.mForwardQueue).length
    rw [hqueue, hcount]
    rfl

theorem Born.fed (h : Born w) : w.Fed := by
  have hne : w.proxy.mS5State ≠ .trans := by
    rw [h.established.state]
    decide
  intro _ hp
  exact absurd h.established.socks5 ((TCPSession.pending_iff_of_ne hne _).mp hp)

/-- After every step of a run what is pending waits for an event that is asked for, if and only if no
    write event of the run finds something to send and has its first `send` fail. -/
theorem run_fed_iff_takes {es : List Event} (hborn : Born w) :
    Lib.Along step (fun w e => ∀ t, w.step e = some t → t.Fed) w es ↔
      Lib.Along step Takes w es := by
  refine Lib.Along.leaves_iff Sound Fed (fun _ _ _ h hstep => (step_fed h hstep).1) ?_
    (fun _ => hborn.settled) hborn.fed
  intro v e h hfed
  cases hstep : v.step e with
  | none =>
    refine iff_of_true (fun t ht => by cases ht) ?_
    cases e <;> trivial
  | some t =>
    have hiff := (step_fed h hstep).2 hfed
    constructor
    · exact fun hall => hiff.mp (hall t rfl)
    · intro htakes t' ht'
      cases ht'
      exact hiff.mpr htakes

/-! ## A greeting left behind -/

-- A proxy just established, with the answers of the kernel to its `send` calls.
def sampleProxied (sends : Nat → SendOutcome) : ProxiedSession :=
  ⟨TCPSession.init 1000 80 1 2 ctrlPROXY () 0 0,
    { Served.sampleProxy .init with
      reactor := ((Served.sampleProxy .init).reactor.addEvent 3 evALL 1 0).2
      sends := sends }⟩

theorem sampleProxied_born (sends : Nat → SendOutcome) : Born (sampleProxied sends) := by
  have hadded : (Served.sampleProxy .init).reactor.addEvent 3 evALL 1 0 =
      (0, ((Served.sampleProxy .init).reactor.addEvent 3 evALL 1 0).2) := rfl
  obtain ⟨hfd, hregistered⟩ := EpollReactor.registered_of_addEvent rfl hadded
  exact ⟨⟨⟨rfl, rfl, hfd, evALL, hregistered, by decide⟩, rfl, rfl, rfl, rfl⟩, rfl, rfl⟩

theorem run_fed_iff_takes_sample :
    Lib.Along step (fun w e => ∀ t, w.step e = some t → t.Fed)
        (sampleProxied fun _ => .accepted 1) [.writable] ↔
      Lib.Along step Takes (sampleProxied fun _ => .accepted 1) [.writable] :=
  run_fed_iff_takes (sampleProxied_born _)

-- The first write event queues the greeting.
theorem onWritable_greets (hconnected : w.proxy.mConnected = true) (hinit : w.proxy.mS5State = .init) :
    w.onWritable.proxy.mAlive = w.proxy.mAlive ∧ w.onWritable.proxy.mS5State = .greet ∧
      w.onWritable.proxy.mSocks5 ≠ [] ∧ w.onWritable.proxy.sends = w.proxy.sends := by
  have hwritable : w.onWritable = w.sendS5Greet.2.switchS5State .greet := by
    unfold Served.onWritable Served.noteConnected
    rw [if_pos hconnected]
    simp only
    rw [hinit]
  obtain ⟨⟨segment, hqueue⟩, hsends, halive, -⟩ := sendS5Greet_queued w
  obtain ⟨halive', hgreet, hqueue', hsends'⟩ := switchS5State_greet w.sendS5Greet.2
  rw [hwritable]
  refine ⟨halive'.trans halive, hgreet, ?_, hsends'.trans hsends⟩
  rw [hqueue', hqueue]
  exact List.append_ne_nil_of_right_ne_nil _ (List.cons_ne_nil _ _)

/-- The socket takes nothing of the greeting: the write event is given up, and the greeting stays. -/
theorem greeting_stranded :
    ∃ w es w', Born w ∧ Lib.run step w es = some w' ∧ ¬ w'.Fed := by
  have hborn := sampleProxied_born fun _ => .error EAGAIN
  have hconnected : (sampleProxied fun _ => .error EAGAIN).proxy.mConnected = true := rfl
  have hfails : (sampleProxied fun _ => .error EAGAIN).proxy.sends = fun _ => .error EAGAIN := rfl
  generalize sampleProxied (fun _ => .error EAGAIN) = w at hborn hconnected hfails
  obtain ⟨halive, hstate, hne, hsends⟩ := onWritable_greets hconnected hborn.established.state
  have hnothing : w.proxy.drainedQueue = [] := by
    unfold Socks5Proxy.drainedQueue
    rw [hborn.established.state]
  have hfirst : step w .writable = some w.onWritable := rfl
  obtain ⟨hsound, hfed⟩ := step_fed (fun _ => hborn.settled) hfirst
  have hgreeted : Fed w.onWritable := (hfed hborn.fed).mpr fun _ hsome => absurd hnothing hsome
  generalize w.onWritable = v at halive hstate hne hsends hfirst hsound hgreeted
  have hsecond : step v .writable = some v.onWritable := rfl
  refine ⟨w, [.writable, .writable], v.onWritable, hborn, ?_, fun hlast => ?_⟩
  · rw [Lib.run_cons _ hfirst, Lib.run_cons _ hsecond, Lib.run_nil]
  · have htakes := ((step_fed hsound hsecond).2 hgreeted).mp hlast
    have hdrained : v.proxy.drainedQueue = v.proxy.mSocks5 := by
      refine drainedQueue_handshake ?_ ?_
      · rw [hstate]
        decide
      · rw [hstate]
        decide
    obtain ⟨n, hn⟩ := htakes (halive.trans hborn.established.opened.alive) (by rw [hdrained]; exact hne)
    rw [hsends, hfails] at hn
    cases hn

end ProxiedSession

end NetCore
