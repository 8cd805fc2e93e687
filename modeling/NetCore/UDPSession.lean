import NetCore.BufferQueue
import NetCore.Socks5Proxy
import NetCore.TCPSession

/-!
# `UDPSession`: the datagrams of one flow

A session sends through a socket of its own or, when the control mask of its application asks for
it, through a `Socks5Proxy`; `init` decides which, and `UDPFlow` is what it leaves.  Replies are built
into packets and handed to the router.  The log texts and the times only they use are left out.
-/

namespace NetCore

/-- A UDP/IPv4 packet read from the tun. -/
structure Datagram where
  payload : Bytes
  fits : 28 + payload.length ≤ 65535
deriving DecidableEq

/-- The fields of `ConnInfo` that vary over the life of a session. -/
structure UDPConnInfo where
  state : U8
  accept : U32
  back : U32
  sent : U32
  recv : U32
  size : U32
deriving DecidableEq

inductive UDPPoint where
  /-- The packet of a `WRITE_PACKAGE`. -/
  | writePackage (segment : BufferSegment)
  | dispatched (id : EventID) (info : UDPConnInfo)
  | captured (ip : Datagram)
deriving DecidableEq

structure UDPSession extends Session where
  mCtrlType : U32
  mAlive : Bool := false
  mSocket : Int := -1
  mOutBuffer : List Segment := []
  /-- `mReactor != NULL`; the reactor itself outlives the session. -/
  hasReactor : Bool := true
  /-- As the session knows it: a session without a socket of its own never changes it. -/
  reactor : EpollReactor
  /-- The address under which the reactor knows this session. -/
  handler : Nat
  /-- `time(NULL)`. -/
  now : Nat
  /-- The answers of the kernel to the `sendto` calls still to come. -/
  sends : Nat → SendOutcome
  /-- How many rounds the loop of `onTunnelWritable` is followed for. -/
  rounds : Nat
  /-- That loop has used up its rounds. -/
  spinning : Bool := false
  trace : List UDPPoint := []

namespace UDPSession

def MAX_IP_SIZE : Nat := 61440

def emit (points : List UDPPoint) (s : UDPSession) : UDPSession :=
  { s with trace := s.trace ++ points }

def withReactor (f : EpollReactor → EpollReactor) (s : UDPSession) : UDPSession :=
  if s.hasReactor then { s with reactor := f s.reactor } else s

def hasClosed (s : UDPSession) : Bool := !s.mAlive

def toConnInfo (s : UDPSession) (size : U32) : UDPConnInfo where
  state := if s.hasClosed then 0 else 1
  accept := s.mTotalAccept
  back := s.mTotalBack
  sent := s.mTotalSent
  recv := s.mTotalRecv
  size := size

def noteTime (s : UDPSession) : UDPSession := { s with mLastTime := s.now }

/-- `close`; `SAFE_CLOSE_SOCKET` drops the registration, then both handles. -/
def close (s : UDPSession) : UDPSession :=
  let s := if 0 ≤ s.mSocket then s.withReactor fun r => (r.delEvent s.mSocket evALL).2 else s
  { s with mAlive := false, mSocket := -1, hasReactor := false }

/-! ## Packets for the application -/

def ipHeader (s : UDPSession) (ttlen : Nat) (checksum : U16) : Bytes :=
  ipv4Header protoUDP s.mDestAddr s.mSrcAddr ttlen checksum

def ipPseudo (s : UDPSession) (len : Nat) : Bytes :=
  ipv4Pseudo protoUDP s.mDestAddr s.mSrcAddr len

def udpHeader (s : UDPSession) (len : Nat) (checksum : U16) : Bytes :=
  leBytes16 s.mDestPort ++ leBytes16 s.mSrcPort ++ beBytes16 (BitVec.ofNat 16 len) ++
    leBytes16 checksum

def udpChecksum (s : UDPSession) (data : Bytes) : U16 :=
  let len := 8 + data.length
  let sum := computeChecksum 0 (s.ipPseudo len)
  let sum := computeChecksum sum (s.udpHeader len 0)
  ~~~computeChecksum sum data

def packetBytes (s : UDPSession) (data : Bytes) : Bytes :=
  let ttlen := 28 + data.length
  s.ipHeader ttlen (~~~computeChecksum 0 (s.ipHeader ttlen 0)) ++
    s.udpHeader (8 + data.length) (s.udpChecksum data) ++ data

def buildPacket (s : UDPSession) (data : Bytes) : BufferSegment where
  toSegment := Segment.ofBytes (s.packetBytes data)

/-! ## Datagrams from the application -/

-- The part of `accept` before the payload is queued.
def countAccepted (ip : Datagram) (s : UDPSession) : UDPSession :=
  let len := BitVec.ofNat 32 ip.payload.length
  let s := { s with mTotalAccept := s.mTotalAccept + len }
  let s := if s.mCtrlType &&& ctrlCAPTURE != 0 then s.emit [.captured ip] else s
  s.emit [.dispatched .connTrafficAccept (s.toConnInfo len)]

/-- `accept` with its tunnel, `none` for `NULL`. -/
def accept {τ : Type} [ITunnel τ] (ip : Datagram) (mTunnel : Option τ) (s : UDPSession) :
    UDPSession × Option τ :=
  if s.mAlive = false then (s, mTunnel)
  else
    let s := s.countAccepted ip
    let segment := Segment.new ip.payload.length
    if segment.writable ip.payload.length = ip.payload.length then
      let s := { s with mOutBuffer := s.mOutBuffer ++ [segment.write ip.payload] }
      -- `init` has tested the bit, here the whole mask is compared
      if s.mCtrlType = ctrlPROXY ∧ mTunnel.isSome then
        (s.noteTime, mTunnel.map ITunnel.requestSendData)
      else
        let s := s.withReactor fun r => (r.addEvent s.mSocket evWRITE s.handler 0).2
        (s.noteTime, mTunnel)
    else (s.noteTime, mTunnel)

/-! ## The socket of a direct session -/

/-- `connectRemote` behind `socket` and `protectSock`. -/
def connectRemote (fd : Int) (s : UDPSession) : UDPSession :=
  { s with mSocket := fd, reactor := (s.reactor.addEvent fd evALL s.handler 0).2 }

/-- The reply of `onReadable`: the release flag of the packet is left as it is built. -/
def reply (data : Bytes) (s : UDPSession) : UDPSession :=
  let segment := { s.buildPacket data with needCapture := s.mCtrlType &&& ctrlCAPTURE != 0 }
  let length := BitVec.ofNat 32 data.length
  let s := { s with mTotalBack := s.mTotalBack + length }
  let info := s.toConnInfo (BitVec.ofInt 32 (getPayloadLen segment.readable))
  s.emit [.writePackage segment, .dispatched .connTrafficBack info]

/-- `onReadable`; `none` for a failed `read`, which has at most `MAX_IP_SIZE` bytes. -/
def onReadable (outcome : Option Bytes) (s : UDPSession) : UDPSession :=
  match outcome with
  | none => s.close
  | some received =>
      let data := received.take MAX_IP_SIZE
      let length := BitVec.ofNat 32 data.length
      let s := { s with mTotalRecv := s.mTotalRecv + length }
      (s.emit [.dispatched .connTrafficRecv (s.toConnInfo length)]).reply data

-- The loop of `onWritable`: the queue left, the bytes sent, the answers used.  A datagram is sent
-- as a whole or not at all.
def sendLoop : List Segment → (Nat → SendOutcome) → List Segment × Bytes × (Nat → SendOutcome)
  | [], sends => ([], [], sends)
  | segment :: queue, sends =>
      match sends 0 with
      | .error _ => (segment :: queue, [], fun n => sends (n + 1))
      | .accepted _ =>
          let r := sendLoop queue fun n => sends (n + 1)
          (r.1, segment.readable ++ r.2.1, r.2.2)

def countSent (n : Nat) (s : UDPSession) : UDPSession :=
  if 0 < n then
    let sent := BitVec.ofNat 32 n
    let s := { s with mTotalSent := s.mTotalSent + sent }
    s.emit [.dispatched .connTrafficSent (s.toConnInfo sent)]
  else s

def onWritable (s : UDPSession) : UDPSession :=
  if s.mOutBuffer = [] then s.withReactor fun r => (r.delEvent s.mSocket evWRITE).2
  else
    let r := sendLoop s.mOutBuffer s.sends
    countSent r.2.1.length { s with mOutBuffer := r.1, sends := r.2.2 }

def onException (s : UDPSession) : UDPSession := s.close

def timeout (s : UDPSession) : Bool := s.mLastTime + 120 < s.now

def onPeriodicallyCheck (s : UDPSession) : UDPSession := if s.timeout then s.close else s

/-! ## Calls from the tunnel -/

-- The loop of `onTunnelDataBack`.  Every round takes a byte at least, so `fuel` is the length of
-- the data; each event tells the whole length.
def replyLoop (length : U32) : Nat → Bytes → UDPSession → UDPSession
  | 0, _, s => s
  | fuel + 1, data, s =>
      if data = [] then s
      else
        let segment := { s.buildPacket (data.take MAX_IP_SIZE) with releaseAfterBuffering := true }
        replyLoop length fuel (data.drop MAX_IP_SIZE)
          (s.emit [.dispatched .connTrafficRecv (s.toConnInfo length), .writePackage segment])

def countBack (length : U32) (s : UDPSession) : UDPSession :=
  let s := { s with mTotalRecv := s.mTotalRecv + length, mTotalBack := s.mTotalBack + length }
  s.emit [.dispatched .connTrafficRecv (s.toConnInfo length),
    .dispatched .connTrafficBack (s.toConnInfo length)]

def onTunnelDataBack {τ : Type} [ITunnel τ] (data : Bytes) (s : UDPSession) (tunnel : τ) :
    UDPSession × τ :=
  if data = [] then (s.close.noteTime, ITunnel.pauseReceiveData tunnel)
  else
    let length := BitVec.ofNat 32 data.length
    (((replyLoop length data.length data s).countBack length).noteTime, tunnel)

def onTunnelDisconnected (_reason : U8) (s : UDPSession) : UDPSession := s.close

structure TunnelDrain (τ : Type) where
  queue : List Segment
  tunnel : τ
  sent : Nat
  /-- `sendData` has failed and called `onTunnelDisconnected`. -/
  failed : Option U8
  /-- It is not over yet. -/
  spinning : Bool

-- The loop of `onTunnelWritable`, for as many rounds as given.  A tunnel that takes nothing is
-- asked again at once.
def tunnelLoop {τ : Type} [ITunnel τ] : Nat → List Segment → τ → TunnelDrain τ
  | 0, queue, tunnel => ⟨queue, tunnel, 0, none, !queue.isEmpty⟩
  | _, [], tunnel => ⟨[], tunnel, 0, none, false⟩
  | rounds + 1, segment :: queue, tunnel =>
      match ITunnel.sendData tunnel segment.readable false with
      | .failed reason tunnel => ⟨segment :: queue, tunnel, 0, some reason, false⟩
      | .sent s tunnel =>
          let left := segment.consume s
          let r := tunnelLoop rounds (if left.size ≤ 0 then queue else left :: queue) tunnel
          { r with sent := s + r.sent }

def onTunnelWritable {τ : Type} [ITunnel τ] (s : UDPSession) (tunnel : τ) : Int × UDPSession × τ :=
  if s.mOutBuffer = [] then (0, s, ITunnel.pauseSendData tunnel)
  else
    let r := tunnelLoop s.rounds s.mOutBuffer tunnel
    let s := { s with mOutBuffer := r.queue, spinning := s.spinning || r.spinning }
    let s := match r.failed with
      | some reason => s.onTunnelDisconnected reason
      | none => s
    ((BitVec.ofNat 32 r.sent).toInt, s.countSent r.sent, r.tunnel)

theorem tunnelLoop_calls {τ : Type} [ITunnel τ] (rounds : Nat) (queue : List Segment)
    {t₀ tunnel : τ} (h : ITunnel.Calls t₀ tunnel) :
    ITunnel.Calls t₀ (tunnelLoop rounds queue tunnel).tunnel := by
  induction rounds generalizing queue tunnel with
  | zero => cases queue <;> exact h
  | succ rounds ih =>
    cases queue with
    | nil => exact h
    | cons segment queue =>
      rw [tunnelLoop]
      cases hsend : ITunnel.sendData tunnel segment.readable false with
      | failed reason tunnel' => exact .failed h hsend
      | sent s tunnel' => exact ih _ (.sent h hsend)

instance : ITunnelClient UDPSession Socks5Proxy where
  onTunnelConnected := id
  onTunnelDisconnected reason s tunnel := (s.onTunnelDisconnected reason, tunnel)
  onTunnelWritable := onTunnelWritable
  onTunnelDataBack := onTunnelDataBack
  disconnected_calls _ _ _ := .refl
  writable_calls s tunnel := by
    unfold onTunnelWritable
    split
    · exact .pauseSendData .refl
    · exact tunnelLoop_calls s.rounds s.mOutBuffer .refl
  dataBack_calls data s tunnel := by
    unfold onTunnelDataBack
    split
    · exact .pauseReceiveData .refl
    · exact .refl

end UDPSession

/-! ## A session with its outlet -/

/-- A session whose `mTunnel` is `NULL`, or one with its proxy. -/
inductive UDPFlow where
  | direct (s : UDPSession)
  | proxied (w : Served UDPSession)

namespace UDPFlow

def session : UDPFlow → UDPSession
  | direct s => s
  | proxied w => w.mClient

/-- `init`: the socket that `socket` and `protectSock` give, the proxy that has been established. -/
def init (socket : Option Int) (proxy : Option Socks5Proxy) (s : UDPSession) : Option UDPFlow :=
  if s.mCtrlType &&& ctrlPROXY != 0 then
    proxy.map fun p => proxied ⟨{ s with mAlive := true }, p⟩
  else socket.map fun fd => direct { s.connectRemote fd with mAlive := true }

inductive Event where
  | accept (ip : Datagram)
  /-- What `read` answers on the socket of the outlet. -/
  | readable (outcome : Served.ReadOutcome)
  | writable
  | exception (error : Int)
  /-- The periodic check of the descriptor; a proxy does nothing with it. -/
  | periodicCheck
  | reactor (call : EpollReactor.Call)
  /-- Time passes, the settings change, others use `Cipher::get()`. -/
  | environment (now : Nat) (settings : Settings) (cipher : Cipher)

def settle (w : Served UDPSession) : Option UDPFlow :=
  if w.mClient.spinning then none else some (proxied w)

/-- The descriptor that drains `mOutBuffer`. -/
def outletFd : UDPFlow → Int
  | direct s => s.mSocket
  | proxied w => w.proxy.mSocket

def reactor : UDPFlow → EpollReactor
  | direct s => s.reactor
  | proxied w => w.proxy.reactor

def stepDirect (s : UDPSession) : Event → UDPSession
  | .accept ip => (s.accept ip (none : Option Socks5Proxy)).1
  | .readable (.received data) => s.onReadable (some data)
  | .readable (.error _) => s.onReadable none
  | .writable => s.onWritable
  | .exception _ => s.onException
  | .periodicCheck => s.onPeriodicallyCheck
  | .reactor call => { s with reactor := call.run s.reactor }
  | .environment now _ _ => { s with now := now }

def acceptProxied (ip : Datagram) (w : Served UDPSession) : Served UDPSession :=
  match w.mClient.accept ip (some w.proxy) with
  | (s, some proxy) => ⟨s, proxy⟩
  | (s, none) => ⟨s, w.proxy⟩

def stepProxied (w : Served UDPSession) : Event → Option (Served UDPSession)
  | .accept ip => some (acceptProxied ip w)
  | .readable outcome => w.onReadable outcome
  | .writable => some w.onWritable
  | .exception error => some (w.onException error)
  | .periodicCheck => some w
  | .reactor call => some (w.onProxy fun p => { p with reactor := call.run p.reactor })
  | .environment now settings cipher =>
      some ⟨{ w.mClient with now := now },
        { w.proxy with settings := settings, cipher := cipher }⟩

-- `none`: a loop that does not come back, or a call of others on the descriptor of the outlet.
def step (flow : UDPFlow) (e : Event) : Option UDPFlow :=
  match e with
  | .reactor call =>
      if call.target = flow.outletFd then none
      else
        match flow with
        | direct s => some (direct (stepDirect s e))
        | proxied w => (stepProxied w e).bind settle
  | e =>
      match flow with
      | direct s => some (direct (stepDirect s e))
      | proxied w => (stepProxied w e).bind settle

end UDPFlow

end NetCore
