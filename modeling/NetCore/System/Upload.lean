import NetCore.Socks5Proxy.Queues
import NetCore.System.Download
import NetCore.TCPSession.Upload

/-!
# From the packets of the application to the parcels of the proxy

What the session takes off its forward queue goes into the proxy's queue in parcels, and `sendQueue`
writes the front of that queue.  So the payload written, what is queued in the proxy and what is
queued in the session are one stream, which is what the application has been told to have arrived.
-/

namespace NetCore
namespace Socks5Proxy

variable {p p' p'' : Socks5Proxy} {x y : Bytes}

def outBytes (p : Socks5Proxy) : Bytes := p.mOutQueue.flatMap Segment.readable

-- The bytes `x` go behind the queue, in parcels, and nothing is written.
structure Inserts (x : Bytes) (p p' : Socks5Proxy) : Prop where
  written : p'.written = p.written
  parcels : ∃ parcels : List Sealed, p'.outBytes = p.outBytes ++ Sealed.stream parcels ∧
    Sealed.messages parcels = x

theorem Inserts.of_eq (hwritten : p'.written = p.written) (hout : p'.mOutQueue = p.mOutQueue) :
    Inserts [] p p' := by
  refine ⟨hwritten, [], ?_, rfl⟩
  unfold outBytes
  rw [hout]
  exact (List.append_nil _).symm

theorem Inserts.refl (p : Socks5Proxy) : Inserts [] p p := .of_eq rfl rfl

theorem Inserts.trans (h : Inserts x p p') (h' : Inserts y p' p'') : Inserts (x ++ y) p p'' := by
  obtain ⟨hwritten, parcels, hout, rfl⟩ := h
  obtain ⟨hwritten', parcels', hout', rfl⟩ := h'
  refine ⟨hwritten'.trans hwritten, parcels ++ parcels', ?_, Sealed.messages_append _ _⟩
  rw [hout', hout, Sealed.stream_append, List.append_assoc]

-- The queue and what has been written are all the same.
theorem inserts_of_trace (htrace : p'.trace = p.trace) (hout : p'.mOutQueue = p.mOutQueue) :
    Inserts [] p p' := by
  refine .of_eq ?_ hout
  unfold written
  rw [htrace]

theorem inserts_withReactor (f : EpollReactor → EpollReactor) (p : Socks5Proxy) :
    Inserts [] p (p.withReactor f) :=
  inserts_of_trace (trace_withReactor f p) (withReactor_stock f p).outQueue

theorem inserts_whileTrans (f : EpollReactor → EpollReactor) (p : Socks5Proxy) :
    Inserts [] p (p.whileTrans f) := by
  unfold whileTrans
  split
  · exact inserts_withReactor f p
  · exact .refl p

theorem inserts_destroyTunnel (p : Socks5Proxy) : Inserts [] p p.destroyTunnel := by
  have hclosed : Inserts [] p (if 0 ≤ p.mSocket then
      p.withReactor fun r => (r.delEvent p.mSocket evALL).2 else p) := by
    split
    · exact inserts_withReactor _ p
    · exact .refl p
  exact hclosed.trans (inserts_of_trace rfl rfl)

-- Whatever `sendData` takes is the message of one parcel.
theorem inserts_sendData {data : Bytes} {more : Bool} {n : Nat} (h : p.sendData data more = .sent n p') :
    Inserts (data.take n) p p' := by
  unfold sendData at h
  split at h
  · cases h
    exact .refl p
  · split at h
    · cases h
      exact .refl p
    · cases h
      by_cases hdata : data = []
      · rw [hdata, encryptAndQueue_nil, List.take_nil]
        exact inserts_of_trace rfl rfl
      · obtain ⟨hcount, segment, hqueued, hparcel, htrace⟩ := p.encryptAndQueue_queued .out hdata
        have htaken : data.take (p.encryptAndQueue .out data).1 = data.take MAX_ENCRYPT_SIZE := by
          rw [hcount, Nat.min_comm, ← List.take_eq_take_min]
        rw [htaken]
        refine ⟨?_, [⟨_, _, hparcel, List.length_take_le _ _⟩], ?_, List.append_nil _⟩
        · unfold written
          rw [htrace, List.flatMap_append]
          exact List.append_nil _
        · unfold outBytes
          rw [hqueued.outQueue]
          exact List.flatMap_append

end Socks5Proxy

namespace TCPSession

open Socks5Proxy (Inserts)

variable {s t u : TCPSession Socks5Proxy}

theorem inserts_relation : TunnelRelation (Inserts []) where
  refl := Inserts.refl
  trans h h' := h.trans h'
  keepAlive := Inserts.refl
  resume p := Socks5Proxy.inserts_whileTrans _ p
  pause p := Socks5Proxy.inserts_whileTrans _ p
  destroy := Socks5Proxy.inserts_destroyTunnel

-- The drain loop puts into the queue what it takes.
theorem inserts_drainLoop (fuel : Nat) (queue : List TCPDatagram) (p : Socks5Proxy) :
    Inserts (drainLoop fuel queue p).taken p (drainLoop fuel queue p).tunnel := by
  induction fuel generalizing queue p with
  | zero => exact .refl p
  | succ fuel ih =>
    cases queue with
    | nil => exact .refl p
    | cons segment queue =>
      rw [drainLoop_cons]
      cases hsend : ITunnel.sendData p segment.readable (!segment.hasFlag PSH) with
      | failed reason p' => exact absurd hsend Socks5Proxy.sendData_ne_failed
      | sent n p' =>
        have hsent := Socks5Proxy.inserts_sendData hsend
        simp only
        split
        next hzero =>
          rw [hzero, List.take_zero] at hsent
          exact hsent
        next => exact hsent.trans (ih _ _)

-- What leaves the forward queue goes behind the queue of the proxy, and nothing is accepted.
structure HandsOn (s t : TCPSession Socks5Proxy) : Prop where
  opened : s.Opened → t.Opened
  remoteNext : t.mRemoteNext = s.mRemoteNext
  moved : ∃ x, Inserts x s.mTunnel t.mTunnel ∧
    BufferQueue.bytes s.mForwardQueue = x ++ BufferQueue.bytes t.mForwardQueue

theorem HandsOn.trans (h : HandsOn s t) (h' : HandsOn t u) : HandsOn s u := by
  obtain ⟨hopened, hnext, x, hinserts, hbytes⟩ := h
  obtain ⟨hopened', hnext', y, hinserts', hbytes'⟩ := h'
  refine ⟨fun h => hopened' (hopened h), hnext'.trans hnext, x ++ y, hinserts.trans hinserts', ?_⟩
  rw [hbytes, hbytes', List.append_assoc]

-- The forward queue stays as it is.
theorem HandsOn.of_same (hopened : s.Opened → t.Opened) (hsame : SameUpload s t)
    (hinserts : Inserts [] s.mTunnel t.mTunnel) : HandsOn s t := by
  refine ⟨hopened, hsame.remoteNext, [], hinserts, ?_⟩
  rw [hsame.forwardQueue, List.nil_append]

theorem HandsOn.of_step {e : Event Socks5Proxy} (hstep : s.step e = some t) (hsame : SameUpload s t)
    (hinserts : Inserts [] s.mTunnel t.mTunnel) : HandsOn s t :=
  .of_same (fun hopened => step_opened hopened hstep) hsame hinserts

-- The proxy by itself.
theorem handsOn_proxy {p : Socks5Proxy} (s : TCPSession Socks5Proxy) (h : Inserts [] s.mTunnel p) :
    HandsOn s { s with mTunnel := p } :=
  .of_step (e := .environment p s.now s.rand) rfl ⟨rfl, rfl, rfl, rfl⟩ h

theorem HandsOn.refl (s : TCPSession Socks5Proxy) : HandsOn s s := handsOn_proxy s (.refl _)

theorem handsOn_disconnected (reason : U8) (s : TCPSession Socks5Proxy) :
    HandsOn s (s.onTunnelDisconnected reason) :=
  .of_step (e := .tunnelDisconnected reason) rfl (onTunnelDisconnected_upload reason s)
    (inserts_relation.onTunnelDisconnected reason s).tunnel

theorem handsOn_dataBack (data : Bytes) (s : TCPSession Socks5Proxy) :
    HandsOn s (s.onTunnelDataBack data) :=
  .of_step (e := .tunnelDataBack data) rfl (onTunnelDataBack_upload data s)
    (inserts_relation.onTunnelDataBack data s).tunnel

theorem opened_inert (h : Inert s t) (hopened : s.Opened) : t.Opened := by
  obtain ⟨hsound, hstate⟩ := hopened
  refine ⟨?_, ?_⟩
  · unfold BackSound
    rw [h.backQueue]
    exact hsound
  · rw [h.state]
    exact hstate

theorem handsOn_writable (s : TCPSession Socks5Proxy) : HandsOn s s.onTunnelWritable := by
  have hdrained : HandsOn s s.drained :=
    ⟨opened_inert (drained_inert s), rfl, _, inserts_drainLoop _ s.mForwardQueue s.mTunnel,
      (drain_bytes s.mForwardQueue s.mTunnel).symm⟩
  have hcounted (n : Nat) (t : TCPSession Socks5Proxy) : HandsOn t (t.countSent n) := by
    refine .of_same (opened_inert (countSent_inert n t)) (countSent_upload n t) ?_
    unfold countSent
    split
    · exact .refl _
    · exact Socks5Proxy.inserts_whileTrans _ _
  unfold onTunnelWritable
  split
  · exact handsOn_proxy s (Socks5Proxy.inserts_whileTrans _ _)
  · simp only
    split
    · exact (hdrained.trans (handsOn_disconnected _ _)).trans (hcounted _ _)
    · exact hdrained.trans (hcounted _ _)

end TCPSession

namespace ProxiedSession

open Socks5Proxy (Inserts)
open TCPSession (HandsOn handsOn_proxy)

variable {w w' : ProxiedSession}

theorem handsOn_onProxy {f : Socks5Proxy → Socks5Proxy} (w : ProxiedSession)
    (h : Inserts [] w.proxy (f w.proxy)) : HandsOn w.joined (joined (w.onProxy f)) :=
  handsOn_proxy w.joined h

-- A point of the trace that tells of no write.
theorem inserts_emit {point : ProxyPoint} {p p' : Socks5Proxy} (htaken : point.taken = [])
    (htrace : p'.trace = p.trace) (hout : p'.mOutQueue = p.mOutQueue) :
    Inserts [] p (p'.emit point) := by
  refine .of_eq ?_ hout
  unfold Socks5Proxy.written Socks5Proxy.emit
  rw [List.flatMap_append, List.flatMap_singleton, htaken, List.append_nil, htrace]

theorem handsOn_switchS5State (state : S5State) (w : ProxiedSession) :
    HandsOn w.joined (joined (w.switchS5State state)) := by
  have hentered (state : S5State) (w : ProxiedSession) : HandsOn w.joined
      (joined (w.onProxy fun p => .emit (.switched p.mS5State state) { p with mS5State := state })) :=
    handsOn_onProxy w (inserts_emit rfl rfl rfl)
  have hended (w : ProxiedSession) : HandsOn w.joined (joined
      ((w.callBack (ITunnelClient.onTunnelDisconnected 0)).onProxy .destroyTunnel)) := by
    have hcalled : HandsOn w.joined (joined (w.callBack (ITunnelClient.onTunnelDisconnected 0))) :=
      TCPSession.handsOn_disconnected 0 w.joined
    exact hcalled.trans (handsOn_onProxy _ (Socks5Proxy.inserts_destroyTunnel _))
  unfold Served.switchS5State
  split
  · exact .refl _
  · cases state with
    | trans => exact (hentered _ w).trans (TCPSession.handsOn_writable _)
    | failed => exact (hentered _ w).trans (hended _)
    | ended => exact (hentered _ w).trans (hended _)
    | _ => exact hentered _ w

-- A message of the handshake goes into the other queue.
theorem handsOn_sendS5 (kind : S5Message) (data : Bytes) (w : ProxiedSession) :
    HandsOn w.joined (joined (w.sendS5 kind data).2) := by
  refine handsOn_onProxy (f := fun p => (p.encryptAndQueue (.socks5 kind) data).2) w ?_
  by_cases hdata : data = []
  · rw [hdata, Socks5Proxy.encryptAndQueue_nil]
    exact Socks5Proxy.inserts_of_trace rfl rfl
  · obtain ⟨-, segment, hqueued, -, htrace⟩ :=
      w.proxy.encryptAndQueue_queued (.socks5 kind) hdata
    refine .of_eq ?_ hqueued.outQueue
    unfold Socks5Proxy.written
    rw [htrace, List.flatMap_append]
    exact List.append_nil _

theorem handsOn_noteConnected (w : ProxiedSession) :
    HandsOn w.joined (joined w.noteConnected) := by
  obtain ⟨connected, hnoted⟩ := noteConnected_eq w
  rw [hnoted]
  exact handsOn_proxy w.joined (Socks5Proxy.inserts_of_trace rfl rfl)

theorem handsOn_reads : ReadRelation fun w w' : ProxiedSession => HandsOn w.joined w'.joined where
  refl w := .refl (joined w)
  trans := HandsOn.trans
  handled data w := handsOn_onProxy w (inserts_emit rfl rfl rfl)
  ends w _ := handsOn_switchS5State _ w
  connect {w} _ := (handsOn_sendS5 .connect _ w).trans (handsOn_switchS5State _ _)
  account {w state} _ _ := by
    refine HandsOn.trans ?_ (handsOn_switchS5State state _)
    unfold Served.sendS5Account
    split
    · exact handsOn_sendS5 .account _ w
    · exact .refl _
  established {w} _ := handsOn_switchS5State .trans w
  passBack data w _ := by
    have hcounted : HandsOn (joined w) (joined (w.onProxy fun p => .emit (.dataBack data)
        { p with mPayloadDataBack := p.mPayloadDataBack + BitVec.ofNat 32 data.length })) :=
      handsOn_onProxy w (inserts_emit rfl rfl rfl)
    exact hcounted.trans (TCPSession.handsOn_dataBack data _)
  cipher c w := handsOn_onProxy w (Socks5Proxy.inserts_of_trace rfl rfl)
  buffer b w := handsOn_onProxy w (Socks5Proxy.inserts_of_trace rfl rfl)
  noteConnected := handsOn_noteConnected

def payload (w : ProxiedSession) (e : Event) : Bytes :=
  match w.step e with
  | none => []
  | some w' =>
      if w.proxy.mS5State = .trans then w'.proxy.written.drop w.proxy.written.length else []

-- `sendQueue`: what is written comes off the queue whose turn it is.
structure Writes (w w' : ProxiedSession) : Prop where
  client : w'.mClient = w.mClient
  written : ∃ sent, w'.proxy.written = w.proxy.written ++ sent ∧
    w.proxy.outBytes =
      (if w.proxy.mS5State = .trans then sent else []) ++ w'.proxy.outBytes

theorem writes_of_sends {p : Socks5Proxy} (hclient : w'.mClient = w.mClient)
    (h : Socks5Proxy.Sends (.turn w.proxy.mS5State) p w'.proxy) (htrace : p.trace = w.proxy.trace)
    (hout : p.mOutQueue = w.proxy.mOutQueue) : Writes w w' := by
  obtain ⟨-, -, ⟨sent, htrace', hfront⟩, -, hother⟩ := h
  refine ⟨hclient, sent, ?_, ?_⟩
  · unfold Socks5Proxy.written
    rw [htrace', htrace, List.flatMap_append, List.flatMap_singleton]
    rfl
  · unfold Socks5Proxy.outBytes
    rw [← hout]
    split
    next htrans =>
      rw [SendQueue.turn, if_pos htrans] at hfront
      exact hfront.symm
    next hne =>
      have hkept := hother .out (by rw [SendQueue.turn, if_neg hne]; decide)
      rw [List.nil_append]
      exact congrArg (·.flatMap Segment.readable) hkept.symm

theorem onWritable_handsOn (w : ProxiedSession) :
    HandsOn w.joined (joined w.onWritable) ∨ Writes w w.onWritable := by
  have hnoted := handsOn_noteConnected w
  obtain ⟨connected, heq⟩ := noteConnected_eq w
  have hclient : w.noteConnected.mClient = w.mClient := by rw [heq]
  have htrace : w.noteConnected.proxy.trace = w.proxy.trace := by rw [heq]
  have hout : w.noteConnected.proxy.mOutQueue = w.proxy.mOutQueue := by rw [heq]
  have hclosed (w : ProxiedSession) : HandsOn w.joined (joined (w.onProxy .closeWrite)) :=
    handsOn_onProxy w (Socks5Proxy.inserts_withReactor _ _)
  rcases onWritable_cases w with ⟨hstate, -, heq⟩ | ⟨-, -, heq⟩ | ⟨-, heq⟩ | ⟨-, -, -, heq⟩ |
    ⟨hstate, -, -, heq⟩
  · right
    have hsends := Socks5Proxy.sendOut_sends w.noteConnected.proxy
    rw [heq]
    refine writes_of_sends hclient ?_ htrace hout
    rw [SendQueue.turn, if_pos hstate]
    exact hsends
  · left
    have hcalled : HandsOn w.joined (joined (called w.noteConnected)) :=
      hnoted.trans (TCPSession.handsOn_writable _)
    have hasked : w.onWritable = ofSession (asked w.noteConnected) := congrArg ofSession heq
    rw [hasked]
    rcases ofSession_asked w.noteConnected with hsame | hsame
    · rw [hsame]
      exact hcalled
    · rw [hsame]
      exact hcalled.trans (hclosed _)
  · left
    rw [heq]
    exact hnoted.trans ((handsOn_sendS5 .greet _ _).trans (handsOn_switchS5State .greet _))
  · left
    rw [heq]
    exact hnoted.trans (hclosed _)
  · right
    have hsends := Socks5Proxy.sendSocks5_sends w.noteConnected.proxy
    rw [heq]
    refine writes_of_sends hclient ?_ htrace hout
    rw [SendQueue.turn, if_neg hstate]
    exact hsends

/-! ## The stream -/

-- The payload written, the parcels that wait and the forward queue are the stream, as far as it has
-- been acknowledged.
structure Uploading (S sent : Bytes) (w : ProxiedSession) : Prop where
  opened : w.joined.Opened
  pos : 1 ≤ w.mClient.mRemoteNext.toNat
  stream : ∃ parcels : List Sealed, sent ++ w.proxy.outBytes = Sealed.stream parcels ∧
    Sealed.messages parcels ++ BufferQueue.bytes w.mClient.mForwardQueue =
      S.take (w.mClient.mRemoteNext.toNat - 1)

def Uploads (S : Bytes) (w : ProxiedSession) : Event → Prop
  | .accept ip => ip.Plain ∧ w.joined.Carries S ip ∧ w.joined.InOrder ip
  | _ => True

instance (S : Bytes) (w : ProxiedSession) : ∀ e, Decidable (w.Uploads S e)
  | .accept _ => inferInstanceAs (Decidable (_ ∧ _ ∧ _))
  | .readable _ | .writable | .exception _ | .written _ _ | .reactor _ | .environment _ _ _ _ =>
    inferInstanceAs (Decidable True)

variable {S sent : Bytes} {e : Event}

theorem Uploading.handsOn (h : Uploading S sent w) (hstep : w.step e = some w')
    (hands : HandsOn w.joined w'.joined) : Uploading S (sent ++ payload w e) w' := by
  obtain ⟨hopened, hnext, x, ⟨hwritten, parcels', hout, rfl⟩, hbytes⟩ := hands
  obtain ⟨parcels, hstream, hmessages⟩ := h.stream
  have hremote : w'.mClient.mRemoteNext = w.mClient.mRemoteNext := hnext
  have hnothing : payload w e = [] := by
    have hsame : w'.proxy.written = w.proxy.written := hwritten
    unfold payload
    rw [hstep]
    simp only
    rw [hsame, List.drop_length, ite_self]
  refine ⟨hopened h.opened, ?_, parcels ++ parcels', ?_, ?_⟩
  · rw [hremote]
    exact h.pos
  · have hqueue : w'.proxy.outBytes = w.proxy.outBytes ++ Sealed.stream parcels' := hout
    rw [hnothing, List.append_nil, hqueue, ← List.append_assoc, hstream, Sealed.stream_append]
  · rw [hremote, Sealed.messages_append, List.append_assoc, ← hmessages]
    exact congrArg (Sealed.messages parcels ++ ·) hbytes.symm

theorem Uploading.writes (h : Uploading S sent w) (hstep : w.step e = some w')
    (hwrites : Writes w w') : Uploading S (sent ++ payload w e) w' := by
  obtain ⟨hclient, x, hwritten, hout⟩ := hwrites
  obtain ⟨parcels, hstream, hmessages⟩ := h.stream
  have hpayload : payload w e = if w.proxy.mS5State = .trans then x else [] := by
    unfold payload
    rw [hstep]
    simp only
    rw [hwritten, List.drop_left]
  refine ⟨?_, ?_, parcels, ?_, ?_⟩
  · show (w'.mClient.withTunnel w'.proxy).Opened
    rw [hclient]
    exact h.opened
  · rw [hclient]
    exact h.pos
  · rw [hpayload, List.append_assoc, ← hout]
    exact hstream
  · rw [hclient]
    exact hmessages

-- A payload in order goes behind the forward queue.
theorem Uploading.queued {ip : Packet} {s : TCPSession Socks5Proxy} (h : Uploading S sent w)
    (hcarries : w.joined.Carries S ip) (hqueues : w.joined.Queues ip)
    (hnext : w.joined.relativeSeq ip = w.joined.mRemoteNext)
    (hbehind : ∀ t ∈ w.joined.mForwardQueue, 0 < (w.joined.forwardDatagram ip).compare t)
    (hsame : TCPSession.SameUpload (w.joined.uploaded ip) s) (hopened : s.Opened)
    (hinserts : Inserts [] w.proxy s.mTunnel) : Uploading S sent (ofSession s) := by
  obtain ⟨parcels, hstream, hmessages⟩ := h.stream
  obtain ⟨-, hfit, hpayload⟩ := hcarries hqueues.1
  rw [hnext] at hfit hpayload
  have hpos := h.pos
  have hremote : s.mRemoteNext.toNat = w.mClient.mRemoteNext.toNat + ip.payload.length := by
    rw [hsame.remoteNext]
    show (w.mClient.mRemoteNext + BitVec.ofNat 32 ip.payload.length).toNat = _
    have hfit' : w.mClient.mRemoteNext.toNat + ip.payload.length < 2 ^ 32 := hfit
    rw [BitVec.toNat_add, BitVec.toNat_ofNat, Nat.mod_eq_of_lt (show ip.payload.length < 2 ^ 32 by omega),
      Nat.mod_eq_of_lt hfit']
  have hbytes : BufferQueue.bytes s.mForwardQueue =
      BufferQueue.bytes w.mClient.mForwardQueue ++ ip.payload := by
    rw [hsame.forwardQueue]
    exact TCPSession.uploaded_bytes hbehind
  obtain ⟨-, parcels', hout, hnone⟩ := hinserts
  have hempty : parcels' = [] := Sealed.messages_eq_nil hnone
  subst hempty
  refine ⟨hopened, ?_, parcels, ?_, ?_⟩
  · show 1 ≤ s.mRemoteNext.toNat
    omega
  · rw [← hstream]
    exact congrArg (sent ++ ·) (hout.trans (List.append_nil _))
  · show Sealed.messages parcels ++ BufferQueue.bytes s.mForwardQueue =
      S.take (s.mRemoteNext.toNat - 1)
    have hpiece : ip.payload =
        (S.drop (w.mClient.mRemoteNext.toNat - 1)).take ip.payload.length := hpayload
    rw [hbytes, ← List.append_assoc, hmessages, hpiece, hremote, ← List.take_add]
    congr 1
    omega

-- A packet puts no parcel into the proxy's queue.
theorem accept_inserts {ip : Packet} {s t : TCPSession Socks5Proxy} (h : s.accept ip = some t) :
    Inserts [] s.mTunnel t.mTunnel := by
  rcases TCPSession.inserts_relation.accept h with hframe | ⟨u, hsu, -, hut⟩
  · exact hframe.tunnel
  · have hasked : Inserts [] u.mTunnel (u.uploaded ip).mTunnel := by
      show Inserts [] u.mTunnel (if _ then u.mTunnel.requestSendData else u.mTunnel)
      split
      · exact Socks5Proxy.inserts_whileTrans _ _
      · exact .refl _
    exact (hsu.tunnel.trans hasked).trans hut.tunnel

theorem payload_accept {ip : Packet} (hstep : w.step (.accept ip) = some w') :
    payload w (.accept ip) = [] := by
  obtain ⟨s, hs, rfl⟩ := Option.map_eq_some_iff.mp hstep
  have hsame : (ofSession s).proxy.written = w.proxy.written := (accept_inserts hs).written
  unfold payload
  rw [hstep]
  simp only
  rw [hsame, List.drop_length, ite_self]

theorem step_uploading (h : Uploading S sent w) (hevent : w.Uploads S e)
    (hstep : w.step e = some w') : Uploading S (sent ++ payload w e) w' := by
  cases e with
  | accept ip =>
    obtain ⟨hplain, hcarries, horder⟩ := hevent
    have hnone := payload_accept hstep
    obtain ⟨s, hs, rfl⟩ := Option.map_eq_some_iff.mp hstep
    have hopened : s.Opened := TCPSession.step_opened (e := .accept ip) h.opened hs
    have hinserts := accept_inserts hs
    rcases TCPSession.accept_upload h.opened.2 hplain hs with hsame | ⟨htakes, hqueues, hsame⟩
    · exact h.handsOn hstep (.of_same (fun _ => hopened) hsame hinserts)
    · obtain ⟨hnext, hbehind⟩ := horder htakes hqueues
      rw [hnone, List.append_nil]
      exact h.queued hcarries hqueues hnext hbehind hsame hopened hinserts
  | readable outcome => exact h.handsOn hstep (handsOn_reads.onReadable hstep)
  | writable =>
    cases hstep
    rcases onWritable_handsOn w with hands | hwrites
    · exact h.handsOn rfl hands
    · exact h.writes rfl hwrites
  | exception error =>
    cases hstep
    exact h.handsOn rfl (handsOn_switchS5State .ended w)
  | written i n =>
    cases hstep
    exact h.handsOn rfl (.of_step (e := .written i n) rfl ⟨rfl, rfl, rfl, rfl⟩ (.refl _))
  | reactor call =>
    have hcalled := hstep
    unfold step at hcalled
    simp only at hcalled
    split at hcalled
    · cases hcalled
    · cases hcalled
      exact h.handsOn hstep (handsOn_onProxy w (Socks5Proxy.inserts_of_trace rfl rfl))
  | environment now rand settings cipher =>
    cases hstep
    refine h.handsOn rfl (.of_step (e := .environment _ now rand) rfl ⟨rfl, rfl, rfl, rfl⟩ ?_)
    exact Socks5Proxy.inserts_of_trace rfl rfl

-- What can be read from the front of a stream of parcels.
theorem readParcels_prefix {parcels : List Sealed} {front : Bytes}
    (h : front <+: Sealed.stream parcels) :
    ∃ m rest, Cipher.readParcels front = .returned m rest ∧ m <+: Sealed.messages parcels := by
  obtain ⟨ys, zs, rfl, hle, hlt⟩ := Sealed.split parcels front.length
  have hfront : Sealed.stream ys ++
      (Sealed.stream zs).take (front.length - (Sealed.stream ys).length) = front := by
    have htake : (Sealed.stream (ys ++ zs)).take front.length = front :=
      (List.prefix_iff_eq_take.mp h).symm
    rw [Sealed.stream_append, List.take_append, List.take_of_length_le hle] at htake
    exact htake
  have hshort : ∀ z ∈ zs.head?, front.length - (Sealed.stream ys).length < z.wire.length :=
    fun z hz => Nat.sub_lt_left_of_lt_add hle (hlt z hz)
  have hread := @Sealed.readParcels_stream ys zs _ hshort
  rw [hfront] at hread
  refine ⟨Sealed.messages ys, _, hread, ?_⟩
  rw [Sealed.messages_append]
  exact List.prefix_append _ _

/-- From the application to the server of the proxy: as long as its payloads come in order, the
    payload written, the parcels that wait and the forward queue are the stream as far as it has been
    acknowledged, and whoever reads the parcels gets what the stream starts with. -/
theorem run_uploaded {es : List Event} (hborn : w.joined.Born) (hnew : w.proxy.mOutQueue = [])
    (hevents : Lib.Along step (Uploads S) w es) (hrun : Lib.run step w es = some w') :
    ∃ parcels : List Sealed,
      Lib.trail step payload w es ++ w'.proxy.outBytes = Sealed.stream parcels ∧
      Sealed.messages parcels ++ BufferQueue.bytes w'.mClient.mForwardQueue =
        S.take (w'.mClient.mRemoteNext.toNat - 1) ∧
      ∃ m rest, Cipher.readParcels (Lib.trail step payload w es) = .returned m rest ∧ m <+: S := by
  have hfirst := hborn.newborn
  have hremote : w.mClient.mRemoteNext = 1 := hfirst.remoteNext
  have hqueue : w.mClient.mForwardQueue = [] := hfirst.forwardQueue
  have hstart : Uploading S [] w := by
    refine ⟨hfirst.opened, ?_, [], ?_, ?_⟩
    · rw [hremote]
      decide
    · unfold Socks5Proxy.outBytes
      rw [hnew]
      rfl
    · rw [hqueue, hremote]
      rfl
  have hlast := Lib.Along.trail (Uploading S) (fun _ _ _ _ h hevent hstep => step_uploading h hevent hstep)
    hstart hevents hrun
  rw [List.nil_append] at hlast
  obtain ⟨parcels, hstream, hmessages⟩ := hlast.stream
  obtain ⟨m, rest, hread, hm⟩ := readParcels_prefix ⟨_, hstream⟩
  refine ⟨parcels, hstream, hmessages, m, rest, hread, hm.trans ?_⟩
  have hacked : Sealed.messages parcels <+: S.take (w'.mClient.mRemoteNext.toNat - 1) :=
    ⟨_, hmessages⟩
  exact hacked.trans (List.take_prefix _ _)

-- A packet whose payload is encrypted, and sent.
def sampleSending (ip : Packet) : List Event := [.accept ip, .writable, .writable]

/-- The packet acknowledges the SYN and has one byte. -/
theorem run_uploaded_sample :
    ∃ ip w', Lib.run step sampleBehind (sampleSending ip) = some w' ∧ ip.payload = [0x61] ∧
      ∃ parcels : List Sealed,
        Lib.trail step payload sampleBehind (sampleSending ip) ++ w'.proxy.outBytes =
          Sealed.stream parcels ∧
        Sealed.messages parcels ++ BufferQueue.bytes w'.mClient.mForwardQueue =
          ([0x61, 0x62] : Bytes).take (w'.mClient.mRemoteNext.toNat - 1) ∧
        ∃ m rest, Cipher.readParcels (Lib.trail step payload sampleBehind (sampleSending ip)) =
          .returned m rest ∧ m <+: [0x61, 0x62] := by
  have hreach : ∃ w', Lib.run step sampleBehind
        (sampleSending (TCPSession.samplePacket 101 1001 ACK [0x61] (by decide))) = some w' ∧
      w'.mClient.mRemoteNext = 2 ∧ w'.proxy.mOutQueue.length = 0 := Lib.run_reaches (by decide +kernel)
  obtain ⟨w', hrun, -⟩ := hreach
  exact ⟨_, w', hrun, rfl,
    run_uploaded sampleBehind_born (by decide +kernel) (by decide +kernel) hrun⟩

end ProxiedSession
end NetCore
