import NetCore.Router.Readable
import NetCore.System.Checksums
import NetCore.TCPSession.Lifetime
import NetCore.UDPSession.Lifetime
import NetCore.UDPSession.Packets

/-!
# Packets for the application

What a session hands over is for the application at the other end of its flow: whole, with valid
checksums, from the remote address and port to the local ones.  The capture gets it only if the
session is to be captured.
-/

namespace NetCore

def Flow.reversed (flow : Flow) : Flow :=
  { srcAddr := flow.destAddr
    destAddr := flow.srcAddr
    srcPort := flow.destPort
    destPort := flow.srcPort }

/-- A packet that the application of `flow` accepts as its own. -/
structure PacketFor (flow : Flow) (ip : Bytes) : Prop where
  checksums : ChecksumsValid ip
  ttlen : (getTTLEN ip).toNat = ip.length
  header : flowHeader ip = { ipVer := 4, flow := flow.reversed }

/-- Whom a session serves, and what is to be done with the traffic. -/
structure Client where
  flow : Flow
  mCtrlType : U32

-- The packet goes to the client, and to the capture only with the client's.
structure Client.Gets (c : Client) (ip : Bytes) (needCapture : Bool) : Prop where
  packet : PacketFor c.flow ip
  capture : needCapture = true → (c.mCtrlType &&& ctrlCAPTURE != 0) = true

def TCPSession.client {τ : Type} (s : TCPSession τ) : Client := ⟨s.toSession.flow, s.mCtrlType⟩

def UDPSession.client (s : UDPSession) : Client := ⟨s.toSession.flow, s.mCtrlType⟩

open PacketCapture (leWord32 leWord32_leBytes32)

theorem leWord16_leBytes16 (x : U16) (y : Bytes) : leWord16 (leBytes16 x ++ y) 0 = x := by
  show ((x >>> 8).setWidth 8 : U8) ++ (x.setWidth 8 : U8) = x
  apply BitVec.eq_of_getLsbD_eq
  intro i hi
  simp only [BitVec.getLsbD_append, BitVec.getLsbD_setWidth, BitVec.getLsbD_ushiftRight]
  grind

-- The addresses and the ports stand where `findSession` reads them.
theorem flowHeader_ipv4 (protocol : U8) (src dest : U32) (ttlen : Nat)
    (checksum srcPort destPort : U16) (rest : Bytes) :
    flowHeader (ipv4Header protocol src dest ttlen checksum ++
      (leBytes16 srcPort ++ (leBytes16 destPort ++ rest))) =
      { ipVer := 4
        flow := { srcAddr := src, destAddr := dest, srcPort := srcPort, destPort := destPort } } := by
  -- both words of the header are read where it has them
  have hversion : getIPVer (ipv4Header protocol src dest ttlen checksum ++
      (leBytes16 srcPort ++ (leBytes16 destPort ++ rest))) = 4 := by
    show (0x45#8 >>> 4 : U8) = 4
    decide
  have hsrc : leWord32 (leBytes32 src ++ leBytes32 dest) 0 = src := leWord32_leBytes32 src _
  have hdest : leWord32 (leBytes32 dest ++ []) 0 = dest := leWord32_leBytes32 dest _
  have hsrcPort := leWord16_leBytes16 srcPort (leBytes16 destPort ++ rest)
  have hdestPort := leWord16_leBytes16 destPort rest
  have hports : Flow.mk (leWord32 (leBytes32 src ++ leBytes32 dest) 0)
      (leWord32 (leBytes32 dest ++ []) 0)
      (leWord16 (leBytes16 srcPort ++ (leBytes16 destPort ++ rest)) 0)
      (leWord16 (leBytes16 destPort ++ rest) 0) = ⟨src, dest, srcPort, destPort⟩ := by
    rw [hsrc, hdest, hsrcPort, hdestPort]
  unfold flowHeader
  rw [hversion, getHeaderLen_ipv4]
  exact congrArg (FlowHeader.mk 4) hports

namespace TCPSession

variable {τ : Type}

theorem buildPackage_packetFor (s : TCPSession τ) (flag : U8) {data : Bytes}
    (h : data.length ≤ TCP_IP_PAYLOAD_SIZE) :
    PacketFor s.toSession.flow (s.buildPackage flag data).readable where
  checksums := s.buildPackage_checksums flag h
  ttlen := by
    rw [buildPackage, Segment.readable_ofBytes, getTTLEN_package s flag h, length_packageBytes]
  header := by
    rw [buildPackage, Segment.readable_ofBytes, packageBytes_eq]
    exact flowHeader_ipv4 ..

end TCPSession

/-! ## What a TCP session hands over -/

-- What goes to the heap with this point is for the client.
def TracePoint.For (c : Client) : TracePoint → Prop
  | .pushed d => d.isBuffering = false ∧ d.isAbort = false ∧ c.Gets d.readable d.needCapture
  -- a segment of the queue has been pushed before
  | .writePackage d =>
      d.releaseAfterBuffering = true → d.isAbort = false ∧ c.Gets d.readable d.needCapture
  | _ => True

namespace TCPSession

-- The session has built packets for its own application only.
structure Packs (s : TCPSession τ) : Prop where
  sound : s.BackSound
  kept : ∀ d ∈ s.mBackQueue, d.releaseAfterBuffering = false
  points : ∀ point ∈ s.trace, point.For s.client

-- The client stays, and so does what is built for it.
structure Addresses (s t : TCPSession τ) : Prop where
  client : t.client = s.client
  packs : s.Packs → t.Packs

variable {s t u : TCPSession τ}

theorem Addresses.refl (s : TCPSession τ) : Addresses s s := ⟨rfl, id⟩

theorem Addresses.trans (h : Addresses s t) (h' : Addresses t u) : Addresses s u :=
  ⟨h'.client.trans h.client, fun hpacks => h'.packs (h.packs hpacks)⟩

-- The queue is not touched, and no packet is built.
theorem Addresses.of_queue {kind : TracePoint → Bool} (hclient : t.client = s.client)
    (hqueue : t.mBackQueue = s.mBackQueue) (htrace : Records kind s t)
    (hkind : ∀ point, kind point → ∀ c, point.For c) : Addresses s t where
  client := hclient
  packs h := by
    obtain ⟨points, heq, hpoints⟩ := htrace
    refine ⟨?_, hqueue ▸ h.kept, ?_⟩
    · unfold BackSound
      rw [hqueue]
      exact h.sound
    · rw [heq, hclient]
      refine List.forall_mem_append.mpr ⟨h.points, fun point hpoint => ?_⟩
      exact hkind point (hpoints point hpoint) _

theorem Addresses.of_eq (hclient : t.client = s.client)
    (hqueue : t.mBackQueue = s.mBackQueue) (htrace : t.trace = s.trace) : Addresses s t :=
  have hrecords : Records TracePoint.inert s t := .of_eq htrace
  .of_queue hclient hqueue hrecords fun point hinert _ => by
    cases point <;> trivial

theorem addresses_inert (h : Inert s t) (hclient : t.client = s.client) : Addresses s t :=
  .of_queue hclient h.backQueue h.trace fun point hinert _ => by
    cases point <;> trivial

theorem addresses_popAcked (s : TCPSession τ) : Addresses s s.popAcked where
  client := by
    obtain ⟨_, _, _, heq, -⟩ := s.popAcked_eq
    rw [heq]
    rfl
  packs h := by
    obtain ⟨_, _, points, heq, hpoints⟩ := s.popAcked_eq
    have hsound := popAcked_sound h.sound
    rw [heq] at hsound ⊢
    refine ⟨hsound, fun d hd => h.kept d ((List.dropWhile_sublist _).mem hd), ?_⟩
    refine List.forall_mem_append.mpr ⟨h.points, fun point hpoint => ?_⟩
    obtain ⟨d, rfl⟩ := hpoints point hpoint
    trivial

theorem addresses_refused (flag : U8) (s : TCPSession τ) : Addresses s (s.emit [.refused flag]) := by
  have hrecords : Records TracePoint.refusing s (s.emit [.refused flag]) :=
    emit_records (by simp [TracePoint.refusing]) s
  refine .of_queue rfl rfl hrecords fun point hrefusing _ => ?_
  cases point <;> trivial

variable [ITunnel τ]

theorem client_switchState (state : TCPState) (s : TCPSession τ) :
    (s.switchState state).client = s.client := by
  unfold switchState
  split
  · rfl
  · dsimp only
    split <;> rfl

theorem addresses_switchState (state : TCPState) (s : TCPSession τ) :
    Addresses s (s.switchState state) := by
  refine .of_queue (client_switchState state s) (switchState_backQueue state s)
    (switchState_records state s) fun point hswitching _ => ?_
  cases point <;> trivial

omit [ITunnel τ] in
theorem writePackage_for {c : Client} {d : TCPDatagram} (habort : d.isAbort = false)
    (hd : c.Gets d.readable d.needCapture) : (TracePoint.writePackage (handedOver d)).For c :=
  fun _ => ⟨habort, hd⟩

-- The reset is built by the session itself, with its numbers back.
theorem rstSent_built (s : TCPSession τ) : ∃ u : TCPSession τ,
    u.client = s.client ∧
      s.rstSent.trace = s.trace ++ (packagePoints (handedOver u.rstSegment) u ++ [.reset]) := by
  refine ⟨{ s.updateWindowSize with mLocalSeq := s.mLocalNext }, rfl, ?_⟩
  rw [← List.append_assoc]
  rfl

theorem client_rstSent (s : TCPSession τ) : s.rstSent.client = s.client := rfl

-- The segment of a reset is built for the router alone.
theorem addresses_rstSent (s : TCPSession τ) : Addresses s s.rstSent where
  client := client_rstSent s
  packs h := by
    obtain ⟨u, hclient, htrace⟩ := s.rstSent_built
    have hbuilt : u.client.Gets u.rstSegment.readable u.rstSegment.needCapture :=
      ⟨buildPackage_packetFor u (RST ||| ACK) (Nat.zero_le _), fun hcapture => by cases hcapture⟩
    have hpoint := writePackage_for rfl hbuilt
    rw [hclient] at hpoint
    refine ⟨?_, ?_, ?_⟩
    · unfold BackSound
      rw [rstSent_mBackQueue]
      exact h.sound
    · rw [rstSent_mBackQueue]
      exact h.kept
    · rw [client_rstSent, htrace]
      refine List.forall_mem_append.mpr ⟨h.points, List.forall_mem_cons.mpr ⟨hpoint, ?_⟩⟩
      exact List.forall_mem_cons.mpr ⟨trivial, List.forall_mem_singleton.mpr trivial⟩

theorem addresses_resumeIfRoom (s : TCPSession τ) : Addresses s s.resumeIfRoom := by
  unfold resumeIfRoom
  split <;> exact .of_eq rfl rfl rfl

omit [ITunnel τ] in
-- The front of the queue is handed over where it is.
theorem addresses_sentFront {d : TCPDatagram} {rest : List TCPDatagram}
    (hqueue : s.mBackQueue = d :: rest) : Addresses s (s.sentFront d rest) where
  client := rfl
  packs h := by
    have hkept := h.kept
    rw [hqueue] at hkept
    obtain ⟨hfront, hrest⟩ := List.forall_mem_cons.mp hkept
    have hhanded : (handedOver d).releaseAfterBuffering = false := hfront
    refine ⟨sentFront_sound h.sound hqueue, List.forall_mem_cons.mpr ⟨hhanded, hrest⟩, ?_⟩
    refine List.forall_mem_append.mpr ⟨h.points, ?_⟩
    have hpoint : (TracePoint.writePackage (handedOver d)).For s.client := by
      intro hrelease
      rw [hhanded] at hrelease
      cases hrelease
    exact List.forall_mem_cons.mpr ⟨hpoint, List.forall_mem_singleton.mpr trivial⟩

theorem client_sendBackData (s : TCPSession τ) : s.sendBackData.client = s.client := by
  have hhand (s : TCPSession τ) (d : TCPDatagram) : (sendBackSegment d s).2.2.client = s.client := by
    unfold sendBackSegment
    split
    · rfl
    · dsimp only
      split <;> rfl
  have hreset (s : TCPSession τ) : s.resetConnection.client = s.client := by
    rw [resetConnection_eq, client_switchState, client_rstSent]
  have hresume (s : TCPSession τ) : s.resumeIfRoom.client = s.client := by
    unfold resumeIfRoom
    split <;> rfl
  exact sendBackData_relation (R := fun s t => t.client = s.client) (fun h h' => h'.trans h)
    (fun _ _ => rfl) hhand hreset hresume s

theorem addresses_sendBackData (s : TCPSession τ) : Addresses s s.sendBackData where
  client := client_sendBackData s
  packs h := by
    rcases sendBackData_cases h.sound with ⟨d, rest, -, -, heq⟩ | ⟨d, rest, hqueue, -, -, heq⟩ |
      ⟨-, heq⟩
    · rw [heq, resetConnection_eq]
      exact ((addresses_rstSent s).trans (addresses_switchState .closed _)).packs h
    · rw [heq]
      exact ((addresses_sentFront hqueue).trans (addresses_resumeIfRoom _)).packs h
    · rw [heq]
      exact (addresses_resumeIfRoom s).packs h

theorem addresses_enqueueBack (flag : U8) {data : Bytes} (hdata : data.length ≤ TCP_IP_PAYLOAD_SIZE)
    (s : TCPSession τ) : Addresses s (s.enqueueBack flag data) where
  client := rfl
  packs h := by
    have hbuilt := buildPackage_packetFor s.updateWindowSize flag hdata
    refine ⟨enqueueBack_sound h.sound flag hdata, ?_, ?_⟩
    · rw [enqueueBack_mBackQueue]
      exact List.forall_mem_append.mpr ⟨h.kept, List.forall_mem_singleton.mpr rfl⟩
    · rw [enqueueBack_trace]
      exact List.forall_mem_append.mpr
        ⟨h.points, List.forall_mem_singleton.mpr ⟨rfl, rfl, hbuilt, id⟩⟩

omit [ITunnel τ] in
theorem releaseAfterBuffering_routerWrote (n : Nat) (d : TCPDatagram) :
    (routerWrote n d).releaseAfterBuffering = d.releaseAfterBuffering := by
  unfold routerWrote
  split
  · dsimp only
    split <;> rfl
  · rfl

theorem addresses_relation : RunRelation (Addresses (τ := τ)) where
  refl := .refl
  trans := .trans
  pop := addresses_popAcked
  send := addresses_sendBackData
  number flag := addresses_enqueueBack flag (Nat.zero_le _)
  refuse := addresses_refused
  switch := addresses_switchState
  rst := addresses_rstSent
  finish _ := .of_eq rfl rfl rfl
  upload _ _ := .of_eq rfl rfl rfl
  count ip s := addresses_inert (countAccepted_inert ip s) (by
    obtain ⟨total, trace, heq⟩ := s.countAccepted_eq ip
    rw [heq]
    rfl)
  environment _ _ _ _ _ _ _ _ := .of_eq rfl rfl rfl
  written s i n := by
    refine ⟨rfl, fun h => ⟨modify_sound h.sound i n, ?_, h.points⟩⟩
    intro d hd
    obtain ⟨j, hj, rfl⟩ := List.mem_iff_getElem.mp hd
    rw [List.getElem_modify]
    split
    · exact (releaseAfterBuffering_routerWrote n _).trans (h.kept _ (List.getElem_mem _))
    · exact h.kept _ (List.getElem_mem _)
  options _ _ _ _ := .of_eq rfl rfl rfl
  bases _ _ := .of_eq rfl rfl rfl

-- A push of a chunk.
theorem addresses_push {data : Bytes} (hdata : data.length ≤ TCP_IP_PAYLOAD_SIZE)
    (s : TCPSession τ) : Addresses s (pushInBackQueue ACK data s).2 := by
  by_cases hle : s.mLocalNext ≤ s.mLocalSeq
  · rw [pushInBackQueue_of_le hle]
    exact addresses_relation.settle (addresses_enqueueBack ACK hdata s)
  · rw [pushInBackQueue_refused (by bv_omega)]
    exact addresses_refused ACK s

theorem addresses_relayLoop (fuel : Nat) (data : Bytes) (s : TCPSession τ) :
    Addresses s (relayLoop fuel data s).2 := by
  induction fuel generalizing data s with
  | zero => exact .refl s
  | succ fuel ih =>
    have hpush := addresses_push (List.length_take_le TCP_IP_PAYLOAD_SIZE data) s
    unfold relayLoop
    split
    · exact .refl s
    · split
      next heq =>
        rw [heq] at hpush
        exact hpush
      next heq =>
        rw [heq] at hpush
        exact hpush.trans (ih _ _)

theorem step_addresses {e : Event τ} (hstep : s.step e = some t) : Addresses s t := by
  have hrecv (i : Nat) (s : TCPSession τ) : Addresses s (s.countRecv i) := by
    refine addresses_inert (countRecv_inert i s) ?_
    unfold countRecv
    split <;> rfl
  have hsent (n : Nat) (s : TCPSession τ) : Addresses s (s.countSent n) := by
    refine addresses_inert (countSent_inert n s) ?_
    unfold countSent
    split <;> rfl
  have hpause (s : TCPSession τ) : Addresses s s.pauseIfFull := by
    refine addresses_inert (pauseIfFull_inert s) ?_
    unfold pauseIfFull
    split <;> rfl
  refine addresses_relation.step (fun data _ hdata => ?_) (fun _ => ?_) hstep
  · have hrelayed := addresses_relayLoop data.length data s
    rw [onTunnelDataBack, if_neg hdata]
    exact ((hrelayed.trans (hrecv _ _)).trans (hpause _)).trans (.of_eq rfl rfl rfl)
  · exact addresses_relation.onTunnelWritable (fun s => addresses_inert (drained_inert s) rfl) hsent
      (fun _ _ => .of_eq rfl rfl rfl) s

omit [ITunnel τ] in
-- A session before its first packet.
theorem Fresh.packs (h : s.Fresh) : s.Packs where
  sound := by
    unfold BackSound
    rw [h.backQueue]
    exact List.forall_mem_nil _
  kept := by
    rw [h.backQueue]
    exact List.forall_mem_nil _
  points := by
    rw [h.trace]
    exact List.forall_mem_nil _

end TCPSession


namespace UDPSession

theorem buildPacket_packetFor (s : UDPSession) {data : Bytes} (h : data.length ≤ MAX_IP_SIZE) :
    PacketFor s.toSession.flow (s.buildPacket data).readable where
  checksums := s.buildPacket_checksums h
  ttlen := by
    have hmax : MAX_IP_SIZE = 61440 := rfl
    have hlength : (s.packetBytes data).length = 28 + data.length := by
      simp [packetBytes, ipHeader, udpHeader]
      omega
    rw [buildPacket, Segment.readable_ofBytes, hlength, packetBytes_eq, getTTLEN_ipv4,
      BitVec.toNat_ofNat, Nat.mod_eq_of_lt (by omega)]
  header := by
    rw [buildPacket, Segment.readable_ofBytes, packetBytes_eq]
    exact flowHeader_ipv4 ..

end UDPSession

/-! ## What a UDP session hands over -/

def UDPPoint.For (c : Client) : UDPPoint → Prop
  | .writePackage segment =>
      segment.isBuffering = false ∧ segment.isAbort = false ∧
        c.Gets segment.readable segment.needCapture
  | _ => True

namespace UDPSession

variable {s s' s'' : UDPSession}

def Posts (s s' : UDPSession) : Prop := s'.client = s.client ∧ Adds (UDPPoint.For s.client) s s'

theorem Posts.of_eq (hclient : s'.client = s.client) (htrace : s'.trace = s.trace) : Posts s s' :=
  ⟨hclient, .of_eq htrace⟩

theorem Posts.refl (s : UDPSession) : Posts s s := .of_eq rfl rfl

theorem Posts.trans (h : Posts s s') (h' : Posts s' s'') : Posts s s'' := by
  refine ⟨h'.1.trans h.1, h.2.trans ?_⟩
  rw [← h.1]
  exact h'.2

theorem posts_emit {points : List UDPPoint}
    (h : ∀ point ∈ points, point.For s.client) : Posts s (s.emit points) :=
  ⟨rfl, .emit h⟩

theorem posts_total {total : U32} : Posts s { s with mTotalAccept := total } := .of_eq rfl rfl

theorem posts_parts : PartRelation Posts where
  refl := .refl
  trans h h' := h.trans h'
  reactor f s := by
    unfold withReactor
    split <;> exact .of_eq rfl rfl
  close s := by
    unfold close withReactor
    dsimp only
    split
    · split <;> exact .of_eq rfl rfl
    · exact .of_eq rfl rfl
  queue _ _ _ _ := .of_eq rfl rfl
  count ip s := by
    unfold countAccepted
    dsimp only
    split
    · exact (posts_total.trans (posts_emit (by simp [UDPPoint.For]))).trans
        (posts_emit (by simp [UDPPoint.For]))
    · exact posts_total.trans (posts_emit (by simp [UDPPoint.For]))
  sent n s := by
    unfold countSent
    split
    · exact ⟨rfl, _, rfl, by simp [UDPPoint.For]⟩
    · exact .refl s

theorem posts_replyLoop (length : U32) (fuel : Nat) (data : Bytes) (s : UDPSession) :
    Posts s (replyLoop length fuel data s) := by
  induction fuel generalizing data s with
  | zero => exact .refl s
  | succ fuel ih =>
    have hbuilt := s.buildPacket_packetFor (List.length_take_le MAX_IP_SIZE data)
    rw [replyLoop]
    split
    · exact .refl s
    · refine Posts.trans (posts_emit ?_) (ih _ _)
      refine List.forall_mem_cons.mpr ⟨trivial, List.forall_mem_singleton.mpr ⟨rfl, rfl, hbuilt, ?_⟩⟩
      exact fun hcapture => by cases hcapture

theorem posts_reply {data : Bytes} (h : data.length ≤ MAX_IP_SIZE) (s : UDPSession) :
    Posts s (s.reply data) := by
  have hbuilt := s.buildPacket_packetFor h
  exact ⟨rfl, _, rfl,
    List.forall_mem_cons.mpr ⟨⟨rfl, rfl, hbuilt, id⟩, List.forall_mem_singleton.mpr trivial⟩⟩

-- What a proxy does to a session.
theorem posts_relation : ClientRelation Posts where
  refl := .refl
  trans h h' := h.trans h'
  connected s := .refl s
  disconnected _ s _ := posts_parts.close s
  writable s p := posts_parts.onTunnelWritable s p
  dataBack data s p := by
    show Posts s (s.onTunnelDataBack data p).1
    have hnoted (s : UDPSession) : Posts s s.noteTime := .of_eq rfl rfl
    unfold onTunnelDataBack
    split
    · exact (posts_parts.close s).trans (hnoted _)
    · have hcounted (s : UDPSession) (length : U32) : Posts s (s.countBack length) :=
        ⟨rfl, _, rfl, List.forall_mem_cons.mpr ⟨trivial, List.forall_mem_singleton.mpr trivial⟩⟩
      exact ((posts_replyLoop _ _ _ s).trans (hcounted _ _)).trans (hnoted _)

theorem posts_accept {τ : Type} [ITunnel τ] (ip : Datagram) (tunnel : Option τ) (s : UDPSession) :
    Posts s (s.accept ip tunnel).1 := by
  cases halive : s.mAlive with
  | false =>
    rw [accept_closed ip tunnel halive]
    exact .refl s
  | true =>
    obtain ⟨t, ht, heq⟩ := posts_parts.accept ip tunnel halive
    rw [heq]
    exact ht.trans (.of_eq rfl rfl)

end UDPSession

namespace UDPFlow

open UDPSession

theorem stepDirect_posts (s : UDPSession) (e : Event) : Posts s (stepDirect s e) := by
  cases e with
  | accept ip => exact posts_accept ip _ s
  | readable outcome =>
    cases outcome with
    | received data =>
      have hreceived (t : UDPSession) (info : UDPConnInfo) :
          Posts t (t.emit [.dispatched .connTrafficRecv info]) :=
        posts_emit (by simp [UDPPoint.For])
      have hcounted (t : UDPSession) (total : U32) : Posts t { t with mTotalRecv := total } :=
        .of_eq rfl rfl
      exact ((hcounted _ _).trans (hreceived _ _)).trans
        (posts_reply (List.length_take_le MAX_IP_SIZE data) _)
    | error errno => exact posts_parts.close s
  | writable => exact posts_parts.onWritable s
  | exception error => exact posts_parts.close s
  | periodicCheck => exact posts_parts.onPeriodicallyCheck s
  | reactor call => exact .of_eq rfl rfl
  | environment now settings cipher => exact .of_eq rfl rfl

theorem stepProxied_posts {w w' : Served UDPSession} {e : Event} (h : stepProxied w e = some w') :
    Posts w.mClient w'.mClient := by
  cases e with
  | accept ip =>
    cases h
    have haccepted := posts_accept ip (some w.proxy) w.mClient
    unfold acceptProxied
    split
    next heq =>
      rw [heq] at haccepted
      exact haccepted
    next heq =>
      rw [heq] at haccepted
      exact haccepted
  | readable outcome => exact posts_relation.onReadable h
  | writable =>
    cases h
    exact posts_relation.onWritable w
  | exception error =>
    cases h
    exact posts_relation.switchS5State _ w
  | _ =>
    cases h
    exact .of_eq rfl rfl

-- What a step of a flow hands over is for the flow.
theorem step_posts {flow flow' : UDPFlow} {e : Event} (hstep : flow.step e = some flow') :
    Posts flow.session flow'.session := by
  cases flow with
  | direct s =>
    rw [(step_direct hstep).1]
    exact stepDirect_posts s e
  | proxied w =>
    obtain ⟨w', hw', rfl, -⟩ := step_proxied hstep
    exact stepProxied_posts hw'

end UDPFlow

end NetCore
