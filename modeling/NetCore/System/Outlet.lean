import NetCore.EpollReactor.Tracks
import NetCore.System.Direct
import NetCore.TCPSession.Interest

/-!
# The socket of a session and the reactor

As long as the socket is open the kernel watches it, for the write event too while something is queued,
and a write event sends the whole queue or closes the socket.  Closing takes the descriptor out of the
table and out of the kernel; after that the session leaves the reactor alone.
-/

namespace NetCore

open EpollReactor (Forgets)
open TCPSession (Payloads ForwardFrame drainLoop drain leftOver TunnelRelation)

namespace EpollReactor

theorem within_or {events more : U32} (h : events &&& ~~~evALL = 0) (hmore : more &&& ~~~evALL = 0) :
    (events ||| more) &&& ~~~evALL = 0 := by
  have hdistrib : (events ||| more) &&& ~~~evALL = (events &&& ~~~evALL) ||| (more &&& ~~~evALL) := by
    ext i hi
    simp only [BitVec.getElem_and, BitVec.getElem_or]
    cases events[i] <;> simp
  rw [hdistrib, h, hmore, BitVec.or_self]

theorem within_and_not {events : U32} (more : U32) (h : events &&& ~~~evALL = 0) :
    (events &&& ~~~more) &&& ~~~evALL = 0 := by
  rw [BitVec.and_assoc, BitVec.and_comm (~~~more), ← BitVec.and_assoc, h]
  exact BitVec.zero_and

end EpollReactor

namespace TCPTunnel

variable {fd : Int} {events : U32} {t t' t'' : TCPTunnel}

/-- The open socket is watched for these events, errors among them. -/
structure Attached (fd : Int) (events : U32) (t : TCPTunnel) : Prop where
  socket : t.mSocket = fd
  valid : 0 ≤ fd
  reacts : t.hasReactor
  tracks : t.reactor.Tracks fd events
  error : events &&& evERROR = evERROR
  within : events &&& ~~~evALL = 0

/-- `send` takes at least a byte or fails. -/
def Accepting (t : TCPTunnel) : Prop := ∀ k, t.sends k ≠ .accepted 0

theorem withReactor_closed (h : t.mSocket < 0) (f : EpollReactor → EpollReactor) :
    t.withReactor f = t := if_neg fun hopen => by omega

theorem Attached.withReactor (h : t.Attached fd events) (f : EpollReactor → EpollReactor) :
    t.withReactor f = { t with reactor := f t.reactor } := by
  refine if_pos ⟨?_, h.reacts⟩
  rw [h.socket]
  exact h.valid

theorem Attached.addEvent (h : t.Attached fd events) {more : U32} (hmore : more &&& ~~~evALL = 0) :
    (t.withReactor fun r => (r.addEvent t.mSocket more t.handler 0).2).Attached fd
      (events ||| more) := by
  have htracks := h.tracks.addEvent (by have := h.valid; omega) more t.handler 0
  rw [h.withReactor, h.socket]
  exact ⟨rfl, h.valid, h.reacts, htracks, EpollReactor.kept_or more h.error,
    EpollReactor.within_or h.within hmore⟩

theorem Attached.delEvent (h : t.Attached fd events) {more : U32} (herror : evERROR &&& more = 0) :
    (t.withReactor fun r => (r.delEvent t.mSocket more).2).Attached fd (events &&& ~~~more) := by
  have hkept := EpollReactor.kept_and_not h.error herror
  have htracks := h.tracks.delEvent (EpollReactor.ne_zero_of_kept hkept (by decide))
  rw [h.withReactor, h.socket]
  exact ⟨rfl, h.valid, h.reacts, htracks, hkept, EpollReactor.within_and_not more h.within⟩

theorem destroyTunnel_closed (t : TCPTunnel) : t.destroyTunnel.mSocket < 0 := by
  show (-1 : Int) < 0
  omega

theorem Attached.destroy (h : t.Attached fd events) : t.destroyTunnel.reactor.Forgets fd := by
  show (t.withReactor fun r => (r.delEvent t.mSocket evALL).2).reactor.Forgets fd
  rw [h.withReactor, h.socket]
  exact h.tracks.delEvent_last h.within

theorem Accepting.destroy (h : t.Accepting) : t.destroyTunnel.Accepting := by
  show ∀ k, (t.withReactor _).sends k ≠ .accepted 0
  unfold TCPTunnel.withReactor
  split <;> exact h

-- What a call does that is not about sending.
structure Tends (fd : Int) (t t' : TCPTunnel) : Prop where
  closed : t.mSocket < 0 → t'.mSocket < 0 ∧ t'.reactor = t.reactor
  attached : ∀ events, t.Attached fd events → (t'.mSocket < 0 ∧ t'.reactor.Forgets fd) ∨
    ∃ events', t'.Attached fd events' ∧ (events &&& evWRITE = evWRITE → events' &&& evWRITE = evWRITE)
  accepting : t.Accepting → t'.Accepting

theorem Tends.refl (t : TCPTunnel) : Tends fd t t :=
  ⟨fun h => ⟨h, rfl⟩, fun events h => .inr ⟨events, h, id⟩, id⟩

theorem Tends.trans (h : Tends fd t t') (h' : Tends fd t' t'') : Tends fd t t'' where
  closed hclosed := by
    obtain ⟨hclosed', hsame⟩ := h.closed hclosed
    obtain ⟨hclosed'', hsame'⟩ := h'.closed hclosed'
    exact ⟨hclosed'', hsame'.trans hsame⟩
  attached events hattached := by
    rcases h.attached events hattached with ⟨hclosed, hforgets⟩ | ⟨events', hattached', hwrite⟩
    · obtain ⟨hclosed', hsame⟩ := h'.closed hclosed
      exact .inl ⟨hclosed', hsame ▸ hforgets⟩
    · rcases h'.attached events' hattached' with hgone | ⟨events'', hattached'', hwrite'⟩
      · exact .inl hgone
      · exact .inr ⟨events'', hattached'', fun hon => hwrite' (hwrite hon)⟩
  accepting ha := h'.accepting (h.accepting ha)

-- A call through `withReactor` that leaves the socket attached.
theorem tends_withReactor {f : EpollReactor → EpollReactor}
    (h : ∀ events, t.Attached fd events → ∃ events', (t.withReactor f).Attached fd events' ∧
      (events &&& evWRITE = evWRITE → events' &&& evWRITE = evWRITE)) :
    Tends fd t (t.withReactor f) where
  closed hclosed := by
    rw [withReactor_closed hclosed]
    exact ⟨hclosed, rfl⟩
  attached events hattached := .inr (h events hattached)
  accepting ha := by
    unfold TCPTunnel.withReactor
    split <;> exact ha

theorem tends_addEvent {more : U32} (hmore : more &&& ~~~evALL = 0) (t : TCPTunnel) :
    Tends fd t (t.withReactor fun r => (r.addEvent t.mSocket more t.handler 0).2) :=
  tends_withReactor fun _ h => ⟨_, h.addEvent hmore, EpollReactor.kept_or more⟩

-- Nothing the registration is about.
theorem tends_of_same (hsocket : t'.mSocket = t.mSocket) (hreacts : t'.hasReactor = t.hasReactor)
    (hreactor : t'.reactor = t.reactor) (hsends : t'.sends = t.sends) : Tends fd t t' where
  closed hclosed := ⟨by rw [hsocket]; exact hclosed, hreactor⟩
  attached events h := by
    refine .inr ⟨events, ⟨hsocket.trans h.socket, h.valid, ?_, ?_, h.error, h.within⟩, id⟩
    · rw [hreacts]
      exact h.reacts
    · rw [hreactor]
      exact h.tracks
  accepting h := by
    unfold Accepting
    rw [hsends]
    exact h

theorem tends_relation : TunnelRelation (Tends fd) where
  refl := .refl
  trans := .trans
  keepAlive := .refl
  resume t := tends_addEvent (by decide) t
  pause t := tends_withReactor fun _ h =>
    ⟨_, h.delEvent (by decide), fun hwrite => EpollReactor.kept_and_not hwrite (by decide)⟩
  destroy t := by
    refine ⟨fun hclosed => ⟨t.destroyTunnel_closed, ?_⟩,
      fun _ h => .inl ⟨t.destroyTunnel_closed, h.destroy⟩, .destroy⟩
    show (t.withReactor _).reactor = t.reactor
    rw [withReactor_closed hclosed]

-- A `send` takes something and leaves the rest as it is, or closes the socket.
theorem Attached.sendData (h : t.Attached fd events) (ha : t.Accepting) {data : Bytes}
    (hdata : data ≠ []) (more : Bool) :
    (∃ n t', t.sendData data more = .sent n t' ∧ n ≠ 0 ∧ t'.Attached fd events ∧ t'.Accepting) ∨
    ∃ reason t', t.sendData data more = .failed reason t' ∧ t'.mSocket < 0 ∧
      t'.reactor.Forgets fd ∧ t'.Accepting := by
  have hpos := List.length_pos_iff.mpr hdata
  have hlater : ∀ k, t.sends (k + 1) ≠ .accepted 0 := fun k => ha (k + 1)
  unfold TCPTunnel.sendData send
  rw [if_pos (by rw [h.socket]; exact h.valid)]
  cases hsend : t.sends 0 with
  | accepted n =>
    have hn : n ≠ 0 := fun hzero => ha 0 (by rw [hsend, hzero])
    refine .inl ⟨min n data.length, _, rfl, by omega, ?_, hlater⟩
    exact ⟨h.socket, h.valid, h.reacts, h.tracks, h.error, h.within⟩
  | error errno =>
    have hlast : Attached fd events { t with sends := fun k => t.sends (k + 1) } :=
      ⟨h.socket, h.valid, h.reacts, h.tracks, h.error, h.within⟩
    have haccepting : Accepting { t with sends := fun k => t.sends (k + 1) } := hlater
    exact .inr ⟨_, _, rfl, destroyTunnel_closed _, hlast.destroy, haccepting.destroy⟩

-- The loop of `onTunnelWritable` comes to the end of the queue or closes the socket.
theorem drainLoop_attached (fuel : Nat) {queue : List TCPDatagram} (hpayloads : Payloads queue)
    (hfuel : (BufferQueue.bytes queue).length < fuel) (h : t.Attached fd events)
    (ha : t.Accepting) :
    (drainLoop fuel queue t).tunnel.Accepting ∧ Payloads (drainLoop fuel queue t).queue ∧
      (((drainLoop fuel queue t).failed = none ∧ (drainLoop fuel queue t).queue = [] ∧
        (drainLoop fuel queue t).tunnel.Attached fd events) ∨
      ((drainLoop fuel queue t).failed ≠ none ∧ (drainLoop fuel queue t).tunnel.mSocket < 0 ∧
        (drainLoop fuel queue t).tunnel.reactor.Forgets fd)) := by
  induction fuel generalizing queue t with
  | zero => omega
  | succ fuel ih =>
    cases queue with
    | nil => exact ⟨ha, hpayloads, .inl ⟨rfl, rfl, h⟩⟩
    | cons d queue =>
      obtain ⟨hpos, -⟩ := hpayloads d List.mem_cons_self
      have hdata : d.readable ≠ [] := by
        rw [← List.length_pos_iff, Segment.length_readable]
        exact hpos
      rw [TCPSession.drainLoop_cons]
      rcases h.sendData ha hdata (!d.hasFlag PSH) with
        ⟨n, t', hsend, hn, h', ha'⟩ | ⟨reason, t', hsend, hclosed, hforgets, ha'⟩
      · have hle := TCPTunnel.sendData_le hsend
        rw [Segment.length_readable] at hle
        have hlen := congrArg List.length (TCPSession.leftOver_bytes queue hle)
        rw [List.length_append, List.length_take, Segment.length_readable] at hlen
        rw [show ITunnel.sendData t d.readable (!d.hasFlag PSH) = _ from hsend]
        dsimp only
        rw [if_neg hn]
        -- something has been taken, so the fuel is still enough
        exact ih (TCPSession.leftOver_payloads hpayloads hle) (by omega) h' ha'
      · rw [show ITunnel.sendData t d.readable (!d.hasFlag PSH) = _ from hsend]
        exact ⟨ha', hpayloads, .inr ⟨Option.some_ne_none reason, hclosed, hforgets⟩⟩

end TCPTunnel

namespace DirectSession

variable {fd : Int} {s t u : DirectSession}

-- What holds of a session whose tunnel has been established with `fd`.
structure Outlet (fd : Int) (s : DirectSession) : Prop where
  accepting : s.mTunnel.Accepting
  payloads : Payloads s.mForwardQueue
  counted : s.mForwardQueueDataSize = BitVec.ofNat 32 (BufferQueue.bytes s.mForwardQueue).length
  attached : s.mTunnel.mSocket < 0 ∨ ∃ events, s.mTunnel.Attached fd events ∧
    (s.mForwardQueue ≠ [] → events &&& evWRITE = evWRITE)

structure Minds (fd : Int) (s t : DirectSession) : Prop where
  outlet : t.Outlet fd
  released : 0 ≤ s.mTunnel.mSocket → t.mTunnel.mSocket < 0 → t.mTunnel.reactor.Forgets fd
  silent : s.mTunnel.mSocket < 0 →
    t.mTunnel.mSocket < 0 ∧ t.mTunnel.reactor = s.mTunnel.reactor

theorem Minds.trans (h : Minds fd s t) (h' : Minds fd t u) : Minds fd s u where
  outlet := h'.outlet
  released hopen hclosed := by
    by_cases ht : t.mTunnel.mSocket < 0
    · rw [(h'.silent ht).2]
      exact h.released hopen ht
    · exact h'.released (by omega) hclosed
  silent hclosed := by
    obtain ⟨ht, hsame⟩ := h.silent hclosed
    obtain ⟨hu, hsame'⟩ := h'.silent ht
    exact ⟨hu, hsame'.trans hsame⟩

-- A call that is not about sending.
theorem Outlet.minds (hs : s.Outlet fd) (htends : s.mTunnel.Tends fd t.mTunnel)
    (hqueue : t.mForwardQueue = s.mForwardQueue)
    (hsize : t.mForwardQueueDataSize = s.mForwardQueueDataSize) : Minds fd s t := by
  refine ⟨⟨htends.accepting hs.accepting, ?_, ?_, ?_⟩, fun hopen hclosed => ?_, htends.closed⟩
  · rw [hqueue]
    exact hs.payloads
  · rw [hqueue, hsize]
    exact hs.counted
  · rcases hs.attached with hclosed | ⟨events, hattached, hwrite⟩
    · exact .inl (htends.closed hclosed).1
    · rcases htends.attached events hattached with ⟨hclosed, -⟩ | ⟨events', hattached', hkeeps⟩
      · exact .inl hclosed
      · refine .inr ⟨events', hattached', ?_⟩
        rw [hqueue]
        exact fun hne => hkeeps (hwrite hne)
  · rcases hs.attached with hclosed' | ⟨events, hattached, -⟩
    · omega
    · rcases htends.attached events hattached with ⟨-, hforgets⟩ | ⟨events', hattached', -⟩
      · exact hforgets
      · have hsocket := hattached'.socket
        have hvalid := hattached'.valid
        omega

theorem Outlet.framed (hs : s.Outlet fd) (h : ForwardFrame (TCPTunnel.Tends fd) s t) :
    Minds fd s t :=
  hs.minds h.tunnel h.forwardQueue h.forwardQueueDataSize

/-! ## Packets -/

-- `enqueueIfNeed` asks for the write event unless the counter has come round to 0, and then the
-- queue was not empty before.
theorem Outlet.uploaded {ip : Packet} (hs : s.Outlet fd) (hqueues : s.Queues ip) :
    Minds fd s (s.uploaded ip) := by
  have htunnel : (s.uploaded ip).mTunnel =
      if 0 < s.mForwardQueueDataSize + BitVec.ofNat 32 (s.filledDatagram ip).size then
        s.mTunnel.requestSendData else s.mTunnel := rfl
  have htends : s.mTunnel.Tends fd (s.uploaded ip).mTunnel := by
    rw [htunnel]
    split
    · exact TCPTunnel.tends_addEvent (by decide) s.mTunnel
    · exact .refl _
  have hperm : (s.uploaded ip).mForwardQueue.Perm (s.filledDatagram ip :: s.mForwardQueue) :=
    List.perm_insertIdx _ _ (BufferQueue.findNotSmaller_le _ _ _)
  have hlen := BufferQueue.length_bytes_of_perm hperm
  rw [BufferQueue.bytes_cons, List.length_append, TCPSession.filledDatagram_readable] at hlen
  have hfits := ip.fits
  have hpos := List.length_pos_iff.mpr hqueues.1
  refine ⟨⟨htends.accepting hs.accepting, fun d hd => ?_, ?_, ?_⟩, fun hopen hclosed => ?_,
    htends.closed⟩
  · rcases List.mem_cons.mp (hperm.mem_iff.mp hd) with rfl | hmem
    · rw [TCPSession.filledDatagram_size]
      omega
    · exact hs.payloads d hmem
  · show s.mForwardQueueDataSize + BitVec.ofNat 32 (s.filledDatagram ip).size = _
    rw [TCPSession.filledDatagram_size, hlen, hs.counted, BitVec.ofNat_add, BitVec.add_comm]
  · rcases hs.attached with hclosed | ⟨events, hattached, hwrite⟩
    · exact .inl (htends.closed hclosed).1
    · rw [htunnel]
      split
      · have hasked : s.mTunnel.requestSendData.Attached fd (events ||| evWRITE) :=
          hattached.addEvent (by decide)
        exact .inr ⟨_, hasked, fun _ => EpollReactor.or_and_self events evWRITE⟩
      next hzero =>
        refine .inr ⟨events, hattached, fun _ => hwrite fun hempty => hzero ?_⟩
        rw [TCPSession.filledDatagram_size, hs.counted, hempty, BufferQueue.bytes_nil, List.length_nil]
        bv_omega
  · have hsocket : (s.uploaded ip).mTunnel.mSocket = s.mTunnel.mSocket := by
      rw [htunnel]
      split
      · exact TCPTunnel.mSocket_withReactor _ _
      · rfl
    omega

theorem Outlet.accept {ip : Packet} (hs : s.Outlet fd) (h : TCPSession.accept ip s = some t) :
    Minds fd s t := by
  rcases TCPTunnel.tends_relation.accept h with hframe | ⟨u, hsu, hqueues, hut⟩
  · exact hs.framed hframe
  · have hu := hs.framed hsu
    have hqueued := hu.outlet.uploaded hqueues
    exact (hu.trans hqueued).trans (hqueued.outlet.framed hut)

/-! ## The write event -/

-- `countSent` brings the counter up to date, and pauses when nothing has been sent.
theorem countSent_counted {n m : Nat} (h : s.mForwardQueueDataSize = BitVec.ofNat 32 (n + m)) :
    (TCPSession.countSent n s).mForwardQueueDataSize = BitVec.ofNat 32 m := by
  have hcancel : BitVec.ofNat 32 (n + m) - BitVec.ofNat 32 n = BitVec.ofNat 32 m := by
    rw [BitVec.ofNat_add, BitVec.add_comm, BitVec.add_sub_cancel]
  unfold TCPSession.countSent
  split
  · show s.mForwardQueueDataSize - BitVec.ofNat 32 n = _
    rw [h, hcancel]
  next hn =>
    show s.mForwardQueueDataSize = _
    rw [h, show n = 0 by omega, Nat.zero_add]

theorem countSent_mForwardQueue (n : Nat) (s : DirectSession) :
    (TCPSession.countSent n s).mForwardQueue = s.mForwardQueue := by
  unfold TCPSession.countSent
  split <;> rfl

theorem countSent_mTunnel (n : Nat) (s : DirectSession) :
    (TCPSession.countSent n s).mTunnel = s.mTunnel ∨
      (TCPSession.countSent n s).mTunnel = s.mTunnel.pauseSendData := by
  unfold TCPSession.countSent
  split
  · exact .inl rfl
  · exact .inr rfl

theorem pauseSendData_accepting {t : TCPTunnel} (h : t.Accepting) : t.pauseSendData.Accepting := by
  unfold TCPTunnel.pauseSendData TCPTunnel.withReactor
  split <;> exact h

-- With nothing queued any registration will do.
theorem Minds.of_empty {events : U32} (hopen : 0 ≤ s.mTunnel.mSocket)
    (hattached : t.mTunnel.Attached fd events) (haccepting : t.mTunnel.Accepting)
    (hempty : t.mForwardQueue = []) (hsize : t.mForwardQueueDataSize = 0) : Minds fd s t := by
  refine ⟨⟨haccepting, ?_, ?_, ?_⟩, fun _ hclosed => ?_, fun hclosed => ?_⟩
  · rw [hempty]
    exact List.forall_mem_nil _
  · rw [hempty, hsize]
    rfl
  · exact .inr ⟨events, hattached, fun hne => absurd hempty hne⟩
  · have hsocket := hattached.socket
    have hvalid := hattached.valid
    omega
  · omega

-- The loop has come to the end of the queue.
theorem countSent_done {n : Nat} {events : U32} (hopen : 0 ≤ s.mTunnel.mSocket)
    (hattached : t.mTunnel.Attached fd events) (haccepting : t.mTunnel.Accepting)
    (hempty : t.mForwardQueue = [])
    (hcount : t.mForwardQueueDataSize =
      BitVec.ofNat 32 (n + (BufferQueue.bytes t.mForwardQueue).length)) :
    Minds fd s (TCPSession.countSent n t) := by
  have hdone : (TCPSession.countSent n t).mForwardQueue = [] := by
    rw [countSent_mForwardQueue]
    exact hempty
  have hsize : (TCPSession.countSent n t).mForwardQueueDataSize = 0 := by
    rw [countSent_counted hcount, hempty]
    rfl
  have hpaused : t.mTunnel.pauseSendData.Attached fd (events &&& ~~~evWRITE) :=
    hattached.delEvent (by decide)
  rcases countSent_mTunnel n t with htunnel | htunnel
  · exact .of_empty hopen (by rw [htunnel]; exact hattached) (by rw [htunnel]; exact haccepting)
      hdone hsize
  · exact .of_empty hopen (by rw [htunnel]; exact hpaused)
      (by rw [htunnel]; exact pauseSendData_accepting haccepting) hdone hsize

-- A `send` of the loop has failed and closed the socket.
theorem countSent_failed {n : Nat} (reason : U8) (hopen : 0 ≤ s.mTunnel.mSocket)
    (hclosed : t.mTunnel.mSocket < 0) (hforgets : t.mTunnel.reactor.Forgets fd)
    (haccepting : t.mTunnel.Accepting) (hpayloads : Payloads t.mForwardQueue)
    (hcount : t.mForwardQueueDataSize =
      BitVec.ofNat 32 (n + (BufferQueue.bytes t.mForwardQueue).length)) :
    Minds fd s (TCPSession.countSent n (TCPSession.onTunnelDisconnected reason t)) ∧
      (TCPSession.countSent n (TCPSession.onTunnelDisconnected reason t)).mTunnel.mSocket < 0 := by
  have hrelation : TunnelRelation (TCPTunnel.Tends fd) := TCPTunnel.tends_relation
  have hframe := hrelation.onTunnelDisconnected reason t
  obtain ⟨hgone, hsame⟩ := hframe.tunnel.closed hclosed
  have hcounted := hframe.forwardQueueDataSize.trans hcount
  rw [← hframe.forwardQueue] at hcounted
  -- on a closed socket the pause does nothing
  have htunnel : (TCPSession.countSent n (TCPSession.onTunnelDisconnected reason t)).mTunnel =
      (TCPSession.onTunnelDisconnected reason t).mTunnel := by
    rcases countSent_mTunnel n (TCPSession.onTunnelDisconnected reason t) with h | h
    · exact h
    · exact h.trans (TCPTunnel.withReactor_closed hgone _)
  refine ⟨⟨⟨?_, ?_, ?_, ?_⟩, fun _ _ => ?_, fun h => ?_⟩, ?_⟩
  · rw [htunnel]
    exact hframe.tunnel.accepting haccepting
  · rw [countSent_mForwardQueue, hframe.forwardQueue]
    exact hpayloads
  · rw [countSent_mForwardQueue]
    exact countSent_counted hcounted
  · rw [htunnel]
    exact .inl hgone
  · rw [htunnel, hsame]
    exact hforgets
  · omega
  · rw [htunnel]
    exact hgone

-- A write event sends all there is, or the socket is closed and forgotten.
theorem Outlet.onWritable (hs : s.Outlet fd) (hopen : 0 ≤ s.mTunnel.mSocket) :
    Minds fd s (TCPSession.onTunnelWritable s) ∧
      (0 ≤ (TCPSession.onTunnelWritable s).mTunnel.mSocket →
        (TCPSession.onTunnelWritable s).mForwardQueue = []) := by
  obtain ⟨events, hattached, -⟩ := hs.attached.resolve_left (by omega)
  by_cases hempty : s.mForwardQueue = []
  · have heq : TCPSession.onTunnelWritable s = s.onTunnel .pauseSendData := if_pos hempty
    have hpaused : s.mTunnel.pauseSendData.Attached fd (events &&& ~~~evWRITE) :=
      hattached.delEvent (by decide)
    have hsize : s.mForwardQueueDataSize = 0 := by
      rw [hs.counted, hempty]
      rfl
    rw [heq]
    exact ⟨.of_empty hopen hpaused (pauseSendData_accepting hs.accepting) hempty hsize,
      fun _ => hempty⟩
  · obtain ⟨haccepting, hpayloads, hdrained⟩ :=
      TCPTunnel.drainLoop_attached ((BufferQueue.bytes s.mForwardQueue).length + 1) hs.payloads
        (Nat.lt_succ_self _) hattached hs.accepting
    have hcount : s.drained.mForwardQueueDataSize =
        BitVec.ofNat 32 ((drain s.mForwardQueue s.mTunnel).taken.length +
          (BufferQueue.bytes s.drained.mForwardQueue).length) := by
      have hbytes := congrArg List.length (TCPSession.drain_bytes s.mForwardQueue s.mTunnel)
      rw [List.length_append] at hbytes
      show s.mForwardQueueDataSize = _
      rw [hs.counted]
      exact congrArg (BitVec.ofNat 32) hbytes.symm
    rcases hdrained with ⟨hnone, hqueue, hattached'⟩ | ⟨hfailed, hclosed, hforgets⟩
    · have hnone : (drain s.mForwardQueue s.mTunnel).failed = none := hnone
      have heq : TCPSession.onTunnelWritable s =
          TCPSession.countSent (drain s.mForwardQueue s.mTunnel).taken.length s.drained := by
        unfold TCPSession.onTunnelWritable
        rw [if_neg hempty]
        simp only [hnone]
      rw [heq, countSent_mForwardQueue]
      have hdone : s.drained.mForwardQueue = [] := hqueue
      exact ⟨countSent_done hopen hattached' haccepting hdone hcount, fun _ => hdone⟩
    · obtain ⟨reason, hreason⟩ := Option.ne_none_iff_exists'.mp hfailed
      have hreason : (drain s.mForwardQueue s.mTunnel).failed = some reason := hreason
      have heq : TCPSession.onTunnelWritable s =
          TCPSession.countSent (drain s.mForwardQueue s.mTunnel).taken.length
            (TCPSession.onTunnelDisconnected reason s.drained) := by
        unfold TCPSession.onTunnelWritable
        rw [if_neg hempty]
        simp only [hreason]
      obtain ⟨hminds, hgone⟩ :=
        countSent_failed reason hopen hclosed hforgets haccepting hpayloads hcount
      rw [heq]
      exact ⟨hminds, fun h => by omega⟩

/-! ## Events -/

theorem Outlet.onTunnel {f : TCPTunnel → TCPTunnel} (hs : s.Outlet fd)
    (htends : s.mTunnel.Tends fd (f s.mTunnel)) : Minds fd s (s.onTunnel f) :=
  hs.minds htends rfl rfl

theorem Outlet.disconnected (hs : s.Outlet fd) (reason : U8) :
    Minds fd s (TCPSession.onTunnelDisconnected reason s) :=
  hs.framed (TCPTunnel.tends_relation.onTunnelDisconnected reason s)

theorem Outlet.closes (hs : s.Outlet fd) (reason : U8) :
    Minds fd s (TCPSession.onTunnelDisconnected reason (s.onTunnel .destroyTunnel)) := by
  have hdestroyed := hs.onTunnel (TCPTunnel.tends_relation.destroy s.mTunnel)
  exact hdestroyed.trans (hdestroyed.outlet.disconnected reason)

theorem Outlet.noteConnected (hs : s.Outlet fd) : Minds fd s s.noteConnected :=
  hs.onTunnel (TCPTunnel.tends_of_same rfl rfl rfl rfl)

theorem Outlet.onReadable (hs : s.Outlet fd) (outcome : Served.ReadOutcome) :
    Minds fd s (s.onReadable outcome) := by
  have hsame : Minds fd s s := hs.minds (.refl _) rfl rfl
  cases outcome with
  | error errno =>
    rw [DirectSession.onReadable]
    split
    · exact hs.closes _
    · exact hsame
  | received data =>
    rw [DirectSession.onReadable]
    split
    · exact hs.closes 0
    · have hnoted := hs.noteConnected
      have hback := hnoted.outlet.framed
        (TCPTunnel.tends_relation.onTunnelDataBack data s.noteConnected)
      exact (hnoted.trans hback).trans
        (hback.outlet.onTunnel (TCPTunnel.tends_of_same rfl rfl rfl rfl))

/-- What an event does to the session and to the registration of its socket. -/
structure Tended (fd : Int) (s : DirectSession) (e : Event) (t : DirectSession) : Prop where
  watched : 0 ≤ t.mTunnel.mSocket → ∃ events, t.mTunnel.Attached fd events ∧
    (t.mForwardQueue ≠ [] → events &&& evWRITE = evWRITE)
  emptied : e = .writable → 0 ≤ t.mTunnel.mSocket → t.mForwardQueue = []
  released : 0 ≤ s.mTunnel.mSocket → t.mTunnel.mSocket < 0 → t.mTunnel.reactor.Forgets fd
  silent : s.mTunnel.mSocket < 0 → (∀ call, e ≠ .reactor call) →
    t.mTunnel.mSocket < 0 ∧ t.mTunnel.reactor = s.mTunnel.reactor

theorem Minds.tended {e : Event} (h : Minds fd s t)
    (hemptied : e = .writable → 0 ≤ t.mTunnel.mSocket → t.mForwardQueue = []) :
    t.Outlet fd ∧ Tended fd s e t :=
  ⟨h.outlet, fun hopen => h.outlet.attached.resolve_left (by omega), hemptied, h.released,
    fun hclosed _ => h.silent hclosed⟩

theorem Minds.other {e : Event} (h : Minds fd s t) (hother : e ≠ .writable) :
    t.Outlet fd ∧ Tended fd s e t := h.tended fun heq => absurd heq hother

-- What the others do with the reactor.
theorem Outlet.reactor {call : EpollReactor.Call} (hs : s.Outlet fd)
    (hother : call.target ≠ s.mTunnel.mSocket) (t : DirectSession)
    (ht : t = s.onTunnel fun t => { t with reactor := call.run t.reactor }) :
    t.Outlet fd ∧ Tended fd s (.reactor call) t := by
  subst ht
  have hattached : s.mTunnel.mSocket < 0 ∨ ∃ events,
      TCPTunnel.Attached fd events { s.mTunnel with reactor := call.run s.mTunnel.reactor } ∧
        (s.mForwardQueue ≠ [] → events &&& evWRITE = evWRITE) := by
    refine hs.attached.imp_right fun ⟨events, h, hwrite⟩ => ⟨events, ?_, hwrite⟩
    have htracks := h.tracks.call (h.socket ▸ hother)
    exact ⟨h.socket, h.valid, h.reacts, htracks, h.error, h.within⟩
  have hcalled : Event.reactor call ≠ .writable := by simp
  refine ⟨⟨hs.accepting, hs.payloads, hs.counted, hattached⟩, ?_, fun h => absurd h hcalled,
    fun hopen hclosed => ?_, fun _ hnone => absurd rfl (hnone call)⟩
  · exact fun hopen => hattached.resolve_left (by
      have hopen : 0 ≤ s.mTunnel.mSocket := hopen
      omega)
  · have hclosed : s.mTunnel.mSocket < 0 := hclosed
    omega

theorem step_tended {e : Event} (hs : s.Outlet fd) (hstep : s.step e = some t) :
    t.Outlet fd ∧ Tended fd s e t := by
  cases e with
  | accept ip => exact (hs.accept hstep).other (by simp)
  | readable outcome =>
    have hreads : t = s.onReadable outcome := by
      cases outcome with
      | error errno => exact (of_whileOpen hstep).2
      | received data =>
        rw [step] at hstep
        split at hstep
        · exact (of_whileOpen hstep).2
        · cases hstep
    rw [hreads]
    exact (hs.onReadable outcome).other (by simp)
  | writable =>
    obtain ⟨hopen, rfl⟩ := of_whileOpen hstep
    have hnoted := hs.noteConnected
    obtain ⟨hminds, hdone⟩ := hnoted.outlet.onWritable hopen
    exact (hnoted.trans hminds).tended fun _ => hdone
  | exception error =>
    obtain ⟨-, rfl⟩ := of_whileOpen hstep
    have htold := hs.disconnected (BitVec.ofInt 8 error)
    exact (htold.trans (htold.outlet.onTunnel (TCPTunnel.tends_relation.destroy _))).other (by simp)
  | check =>
    obtain ⟨-, rfl⟩ := of_whileOpen hstep
    rw [onPeriodicallyCheck]
    split
    · exact (hs.closes 0).other (by simp)
    · exact (hs.minds (.refl _) rfl rfl).other (by simp)
  | written i n =>
    have hminds : Minds fd s t := by
      cases hstep
      exact hs.minds (.refl _) rfl rfl
    exact hminds.other (by simp)
  | reactor call =>
    rw [step] at hstep
    split at hstep
    · cases hstep
    next hother => exact hs.reactor hother t (Option.some.inj hstep).symm
  | environment now rand sockBufferSize =>
    have hminds : Minds fd s t := by
      cases hstep
      exact hs.minds (TCPTunnel.tends_of_same rfl rfl rfl rfl) rfl rfl
    exact hminds.other (by simp)

/-! ## Runs -/

variable {a : TCPTunnel.Answers} {tunnel tunnel' : TCPTunnel} {hasRemote : Bool}

/-- A tunnel with a reactor that does not know the new socket and refuses nothing on it. -/
structure Ready (a : TCPTunnel.Answers) (tunnel : TCPTunnel) : Prop where
  reacts : tunnel.hasReactor
  opened : ¬ tunnel.reactor.mEpollFD < 0
  fresh : tunnel.reactor.Forgets a.socket
  grants : ∀ op, tunnel.reactor.refuses op a.socket = false
  accepting : tunnel.Accepting

-- `establish` registers the new socket for all events.
theorem establish_attached (hready : Ready a tunnel)
    (hestablish : tunnel.establish hasRemote a = (0, tunnel')) :
    tunnel'.Attached a.socket evALL ∧ tunnel'.Accepting := by
  unfold TCPTunnel.establish at hestablish
  split at hestablish
  · cases hestablish
  · split at hestablish
    · cases hestablish
    · dsimp only at hestablish
      split at hestablish
      · cases hestablish
      next hsocket =>
        split at hestablish
        · cases hestablish
        · split at hestablish
          · cases hestablish
          · split at hestablish
            · cases hestablish
            · cases hestablish
              have htracks := hready.fresh.addEvent hsocket hready.opened hready.grants evALL
                tunnel.handler 0
              refine ⟨⟨rfl, by omega, hready.reacts, htracks, by decide, by decide⟩, ?_⟩
              exact hready.accepting

theorem init_outlet (hready : Ready a tunnel)
    (hestablish : tunnel.establish hasRemote a = (0, tunnel')) (srcPort destPort : U16)
    (srcAddr destAddr ctrl : U32) (now : Nat) (rand : U32) :
    Outlet a.socket (TCPSession.init srcPort destPort srcAddr destAddr ctrl tunnel' now rand) := by
  obtain ⟨hattached, haccepting⟩ := establish_attached hready hestablish
  exact ⟨haccepting, List.forall_mem_nil _, rfl, .inr ⟨evALL, hattached, fun _ => by decide⟩⟩

/-- From `init` on the kernel watches the open socket, for the write event whenever something is
    queued; a write event sends everything or closes the socket; and what is closed is forgotten. -/
theorem run_tended (hready : Ready a tunnel)
    (hestablish : tunnel.establish hasRemote a = (0, tunnel')) (srcPort destPort : U16)
    (srcAddr destAddr ctrl : U32) (now : Nat) (rand : U32) (es : List Event) :
    Lib.Along step (fun s e => ∀ t, s.step e = some t → Tended a.socket s e t)
      (TCPSession.init srcPort destPort srcAddr destAddr ctrl tunnel' now rand) es := by
  have halways : Lib.Along step (fun _ _ => True)
      (TCPSession.init srcPort destPort srcAddr destAddr ctrl tunnel' now rand) es :=
    .of_forall (fun _ _ _ => trivial) _
  have hstep (s : DirectSession) (e : Event) (t : DirectSession) (h : s.Outlet a.socket) (_ : True)
      (hstep : step s e = some t) : t.Outlet a.socket ∧ Tended a.socket s e t := step_tended h hstep
  exact Lib.Along.steps (Outlet a.socket) hstep
    (init_outlet hready hestablish srcPort destPort srcAddr destAddr ctrl now rand) halways

def sampleUnconnected : TCPTunnel where
  mAlive := false
  mConnected := false
  mLastTime := 0
  mSocket := -1
  hasReactor := true
  reactor :=
    { mEpollFD := 3, mFd2Events := ∅, mDelEventStubs := [], interest := ∅,
      refuses := fun _ _ => false }
  handler := 1
  now := 0
  sends := fun _ => .accepted 2
  sockBufferSize := 65536

def sampleAnswers : TCPTunnel.Answers := ⟨5, true, true, true⟩

theorem sampleUnconnected_ready : Ready sampleAnswers sampleUnconnected :=
  ⟨rfl, by decide, ⟨rfl, rfl⟩, fun _ => rfl, fun _ h => by cases h⟩

def sampleEstablished : TCPTunnel := (sampleUnconnected.establish true sampleAnswers).2

theorem establish_sample : sampleUnconnected.establish true sampleAnswers = (0, sampleEstablished) := by
  rfl

/-- Three bytes go out in two `send`s, then the server closes. -/
theorem run_tended_sample :
    Lib.Along step (fun s e => ∀ t, s.step e = some t → Tended 5 s e t)
      (TCPSession.init 40000 80 1 2 0 sampleEstablished 0 1000)
      [.accept TCPSession.sampleSYN,
        .accept (TCPSession.samplePacket 101 1001 ACK [1, 2, 3] (by decide)), .writable,
        .readable (.received [])] :=
  run_tended sampleUnconnected_ready establish_sample 40000 80 1 2 0 0 1000 _

end DirectSession
end NetCore
