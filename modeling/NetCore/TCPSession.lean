import NetCore.BufferQueue
import NetCore.IPAdpt.Header
import NetCore.ITunnel

/-!
# `TCPSession`: one TCP connection of the application

The session is the peer the application's TCP stack talks to.  It numbers what the tunnel delivers
and queues it as segments in `mBackQueue`, and it queues the application's payload in
`mForwardQueue` for the tunnel.  Every function below is the one of `TCPSession.cpp`, from the state
to the state; `trace` records in order what a run does: segments handed to the router, events,
changes of state, and the points of the code the properties speak about.

Sessions exist for IPv4 only (`initBaseInfo` refuses the rest), so `mIPVer` is left out, and with it
the `NULL` that `buildPackage` returns for other versions.  So are the log texts.
-/

namespace NetCore

/-- A TCP/IPv4 packet read from the tun, its fields in host order. -/
structure Packet where
  seq : U32
  ack_seq : U32
  /-- Byte 13 of the header. -/
  flag : U8
  window : U16
  checksum : U16
  /-- The option area, as long as `dataoff` says. -/
  options : Bytes
  payload : Bytes
  /-- What the read buffer holds behind the packet. -/
  behind : Bytes
  fits : 40 + options.length + payload.length ≤ 65535
deriving DecidableEq

inductive EventID where
  | connTrafficAccept
  | connTrafficBack
  | connTrafficSent
  | connTrafficRecv
  | connState
deriving DecidableEq

/-- The fields of `ConnInfo` that vary over the life of a session. -/
structure ConnInfo where
  state : TCPState
  accept : U32
  back : U32
  sent : U32
  recv : U32
  flag : U8
  size : U32
  seq : U32
  ack : U32
deriving DecidableEq

inductive TracePoint where
  /-- `WRITE_PACKAGE`, taken by the router. -/
  | writePackage (segment : TCPDatagram)
  | dispatched (id : EventID) (info : ConnInfo)
  | captured (ip : Packet)
  /-- `pushInBackQueue` numbered a segment and queued it. -/
  | pushed (segment : TCPDatagram)
  /-- `pushInBackQueue` returned -1. -/
  | refused (flag : U8)
  /-- `safeReleaseSegment`: deleted, or left to the router to delete. -/
  | released (segment : TCPDatagram)
  /-- `resetConnection` has handed its RST over. -/
  | reset
  | switched (old new : TCPState)
  /-- Bytes taken by `mTunnel->sendData`. -/
  | taken (data : Bytes)
deriving DecidableEq

structure Session where
  mSrcPort : U16
  mDestPort : U16
  mSrcAddr : U32
  mDestAddr : U32
  mTotalAccept : U32 := 0
  mTotalBack : U32 := 0
  mTotalRecv : U32 := 0
  mTotalSent : U32 := 0
  mLastTime : Nat := 0

/-- What tells one connection from another; the IP version is 4 in all of them. -/
structure Flow where
  srcAddr : U32
  destAddr : U32
  srcPort : U16
  destPort : U16
deriving DecidableEq

def Session.flow (s : Session) : Flow := ⟨s.mSrcAddr, s.mDestAddr, s.mSrcPort, s.mDestPort⟩

structure TCPSession (τ : Type) extends Session where
  mAlive : Bool := false
  mForwardQueue : List TCPDatagram := []
  mForwardQueueDataSize : U32 := 0
  mBackQueue : List TCPDatagram := []
  mBackQueueDataSize : U32 := 0
  mState : TCPState := .listen
  mRemoteFinished : Bool := false
  mSack : Bool := false
  mLocalSeq : U32 := 0
  mLocalNext : U32 := 0
  mLocalSeqBase : U32 := 0
  mRemoteNext : U32 := 0
  mRemoteSeqBase : U32 := 0
  mSendWindow : U32 := 0
  mReceiveWindow : U32 := 0
  mWindowScale : U8 := 0
  mMSS : U16 := 0
  mCtrlType : U32 := 0
  mTunnel : τ
  /-- What `time(NULL)` returns. -/
  now : Nat := 0
  /-- What `rand()` returns next. -/
  rand : U32 := 0
  trace : List TracePoint := []

namespace TCPSession

def TCP_SESSION_BUFFER_SIZE : U32 := 1 <<< 18
def TCP_MAX_SEND_WINDOW : U32 := 1 <<< 16
def TCP_MAX_SEND_PACKET : U8 := 1
def TCP_IP_PAYLOAD_SIZE : Nat := 61440

variable {τ : Type} [ITunnel τ]

omit [ITunnel τ] in
/-- What `initBaseInfo` and `init` make: the tunnel stands and the SYN is still to come. -/
def init (srcPort destPort : U16) (srcAddr destAddr ctrl : U32) (tunnel : τ) (now : Nat)
    (rand : U32) : TCPSession τ where
  mSrcPort := srcPort
  mDestPort := destPort
  mSrcAddr := srcAddr
  mDestAddr := destAddr
  mAlive := true
  mState := .listen
  mCtrlType := ctrl
  mTunnel := tunnel
  now := now
  rand := rand

omit [ITunnel τ] in
def emit (points : List TracePoint) (s : TCPSession τ) : TCPSession τ :=
  { s with trace := s.trace ++ points }

omit [ITunnel τ] in
def relativeSeq (ip : Packet) (s : TCPSession τ) : U32 := tcpRelativeSeq ip.seq s.mRemoteSeqBase

omit [ITunnel τ] in
def relativeAck (ip : Packet) (s : TCPSession τ) : U32 := tcpRelativeSeq ip.ack_seq s.mLocalSeqBase

/-- `toConnInfo`; with a packet at hand `size` is its payload length and `flag` its flags. -/
def toConnInfo (s : TCPSession τ) (size : U32) (flag : U8) (seq ack : U32) : ConnInfo where
  state := s.mState
  accept := s.mTotalAccept
  back := s.mTotalBack
  sent := s.mTotalSent
  recv := s.mTotalRecv
  flag := flag
  size := size
  seq := seq
  ack := ack

def close (s : TCPSession τ) : TCPSession τ :=
  { s with mAlive := false, mTunnel := ITunnel.destroyTunnel s.mTunnel }

def switchState (state : TCPState) (s : TCPSession τ) : TCPSession τ :=
  if s.mState = state then s
  else
    let old := s.mState
    let s := { s with mState := state }
    let s := if state = .closed then s.close else s
    s.emit [.switched old state, .dispatched .connState (s.toConnInfo 0 0 0 0)]

def updateWindowSize (s : TCPSession τ) : TCPSession τ :=
  let max : U32 := 0xFFFF#32 <<< s.mWindowScale.toNat
  let windowSize :=
    if ITunnel.isAlive s.mTunnel then ITunnel.getAvailableBufferSize s.mTunnel else max
  let windowSize := if max < windowSize then max else windowSize
  { s with
    mReceiveWindow :=
      if windowSize ≤ s.mForwardQueueDataSize then 0
      else windowSize - s.mForwardQueueDataSize }

/-! ## Building a packet -/

-- The packet goes to the application: from `mDestAddr` to `mSrcAddr`.
def ipHeader (s : TCPSession τ) (ttlen : Nat) (checksum : U16) : Bytes :=
  ipv4Header protoTCP s.mDestAddr s.mSrcAddr ttlen checksum

def ipPseudo (s : TCPSession τ) (len : Nat) : Bytes :=
  ipv4Pseudo protoTCP s.mDestAddr s.mSrcAddr len

def tcpHeader (s : TCPSession τ) (optlen : Nat) (flag : U8) (checksum : U16) : Bytes :=
  leBytes16 s.mDestPort ++ leBytes16 s.mSrcPort ++
    beBytes32 (s.mLocalSeq + s.mLocalSeqBase) ++ beBytes32 (s.mRemoteNext + s.mRemoteSeqBase) ++
    [BitVec.ofNat 8 ((20 + optlen) / 4) <<< 4, flag] ++
    beBytes16 ((s.mReceiveWindow >>> s.mWindowScale.toNat).setWidth 16) ++
    leBytes16 checksum ++ [0#8, 0#8]

/-- The options of a SYN: MSS (10000 as the machine stores it), window scale, SACK, end. -/
def synOptions (s : TCPSession τ) : Bytes :=
  [2#8, 4#8] ++ leBytes16 10000#16 ++ [3#8, 3#8, s.mWindowScale] ++ [4#8, 1#8] ++ [0#8]

def packageOptions (s : TCPSession τ) (flag : U8) : Bytes :=
  if NetCore.hasFlag flag SYN then s.synOptions else []

/-- The checksum of the TCP part, folded over pseudo header, header, options and payload. -/
def tcpChecksum (s : TCPSession τ) (flag : U8) (data : Bytes) : U16 :=
  let options := s.packageOptions flag
  let sum := computeChecksum 0 (s.ipPseudo (20 + data.length + options.length))
  let sum := computeChecksum sum (s.tcpHeader options.length flag 0)
  let sum := computeChecksum sum options
  ~~~computeChecksum sum data

def packageBytes (s : TCPSession τ) (flag : U8) (data : Bytes) : Bytes :=
  let options := s.packageOptions flag
  let ttlen := 40 + options.length + data.length
  s.ipHeader ttlen (~~~computeChecksum 0 (s.ipHeader ttlen 0)) ++
    s.tcpHeader options.length flag (s.tcpChecksum flag data) ++ options ++ data

def buildPackage (s : TCPSession τ) (flag : U8) (data : Bytes) : TCPDatagram where
  toSegment := Segment.ofBytes (s.packageBytes flag data)
  mSeq := s.mLocalSeq
  mAck := s.mRemoteNext
  mFlag := flag
  mChecksum := 0
  mLength := data.length

/-! ## The back queue -/

/-- The router's `onSyncEvent` takes a segment: it marks it and holds it until it is written. -/
def takeForWriting (segment : TCPDatagram) : TCPDatagram :=
  { segment.withSegment segment.mark with isBuffering := true }

/-- What handing a segment over leaves in the trace: the segment and the traffic event. -/
def packagePoints (segment : TCPDatagram) (s : TCPSession τ) : List TracePoint :=
  let ip := segment.readable
  let size := BitVec.ofInt 32 (getPayloadLen ip)
  [.writePackage segment,
    .dispatched .connTrafficBack
      (s.toConnInfo size (byteAt ip (getHeaderLen ip + 13)) segment.mSeq segment.mAck)]

/-- `sendBackSegment`: the return value, the segment as it is afterwards, the session.  The router
    refuses a segment it holds already, and an aborted one. -/
def sendBackSegment (segment : TCPDatagram) (s : TCPSession τ) :
    Int × TCPDatagram × TCPSession τ :=
  if segment.size ≤ 0 then (-1, segment, s)
  else
    let segment := { segment with mRetry := segment.mRetry + 1 }
    if segment.isBuffering || segment.isAbort then (-1, segment, s)
    else
      let segment := takeForWriting segment
      (segment.size, segment, s.emit (packagePoints segment s))

def rstSegment (s : TCPSession τ) : TCPDatagram :=
  { s.buildPackage (RST ||| ACK) [] with releaseAfterBuffering := true }

def resetConnection (s : TCPSession τ) : TCPSession τ :=
  let s := { s.updateWindowSize with mLocalSeq := s.mLocalNext }
  match sendBackSegment s.rstSegment s with
  | (sent, _, s) => if 0 < sent then (s.emit [.reset]).switchState .closed else s

/-- A segment released while the router holds it is only marked. -/
def releaseMark (segment : TCPDatagram) : TCPDatagram :=
  if segment.isBuffering then { segment with isAbort := true, releaseAfterBuffering := true }
  else segment

def safeReleaseSegment (segment : TCPDatagram) (s : TCPSession τ) : TCPSession τ :=
  s.emit [.released (releaseMark segment)]

-- The test of the pop loop: below the left edge, or a pure ACK handed over once.
def popsSegment (next : U32) (segment : TCPDatagram) : Bool :=
  segment.mSeq < next || (segment.mLength = 0 && segment.mFlag = ACK && 0 < segment.mRetry)

def popSegment (segment : TCPDatagram) (s : TCPSession τ) : TCPSession τ :=
  safeReleaseSegment segment
    { s with
      mTotalBack := s.mTotalBack + BitVec.ofNat 32 segment.mLength
      mBackQueueDataSize := s.mBackQueueDataSize - BitVec.ofNat 32 segment.capacity }

def popLoop : List TCPDatagram → TCPSession τ → TCPSession τ
  | [], s => { s with mBackQueue := [] }
  | segment :: queue, s =>
      if popsSegment s.mLocalNext segment then popLoop queue (popSegment segment s)
      else { s with mBackQueue := segment :: queue }

def popAcked (s : TCPSession τ) : TCPSession τ := popLoop s.mBackQueue s

/-- How the send loop ends: with the rest of `flushBackQueue` to do, or by a reset that returns. -/
inductive LoopEnd where
  | finished
  | reset
deriving DecidableEq

-- The send loop of `flushBackQueue`: `done` is behind the iterator.
def sendLoop (limit : U32) : U32 → U8 → List TCPDatagram → List TCPDatagram → TCPSession τ →
    LoopEnd × TCPSession τ
  | _, _, done, [], s => (.finished, { s with mBackQueue := done })
  | w, packet, done, segment :: rest, s =>
      if 0 < w ∧ segment.hasFlag FIN then
        (.finished, { s with mBackQueue := done ++ segment :: rest })
      else if w = 0 ∧ s.mLocalNext < segment.mSeq then
        (.reset, resetConnection { s with mBackQueue := done ++ segment :: rest })
      else
        let w := w + BitVec.ofNat 32 segment.size
        if w < limit ∧ packet < TCP_MAX_SEND_PACKET then
          if !segment.isBuffering && !segment.mACKed then
            match sendBackSegment segment s with
            | (sent, segment, s) =>
                if 0 < sent then sendLoop limit w (packet + 1) (done ++ [segment]) rest s
                else (.finished, { s with mBackQueue := done ++ segment :: rest })
          else sendLoop limit w (packet + 1) (done ++ [segment]) rest s
        else (.finished, { s with mBackQueue := done ++ segment :: rest })

-- The end of `flushBackQueue`: read on from the remote while there is room.
def resumeIfRoom (s : TCPSession τ) : TCPSession τ :=
  if s.mState = .established ∧ s.mBackQueueDataSize < TCP_SESSION_BUFFER_SIZE >>> 1 then
    { s with mTunnel := ITunnel.resumeReceiveData s.mTunnel }
  else s

def sendLimit (s : TCPSession τ) : U32 :=
  if TCP_MAX_SEND_WINDOW < s.mSendWindow then TCP_MAX_SEND_WINDOW else s.mSendWindow

-- The part of `flushBackQueue` behind the FIN.
def sendBackData (s : TCPSession τ) : TCPSession τ :=
  match sendLoop s.sendLimit 0 0 [] s.mBackQueue s with
  | (.reset, s) => s
  | (.finished, s) => s.resumeIfRoom

omit [ITunnel τ] in
/-- The remote has finished and the application has everything: time for our FIN. -/
def FinDue (s : TCPSession τ) : Prop :=
  s.mRemoteFinished ∧ (s.mState = .established ∨ s.mState = .closeWait) ∧ s.mBackQueue = []

instance (s : TCPSession τ) : Decidable s.FinDue := inferInstanceAs (Decidable (_ ∧ _ ∧ _))

-- The body of `flushBackQueue`; `push` is the nested `pushInBackQueue`.  No caller reads the
-- count it returns.
def flushWith (push : U8 → TCPSession τ → Bool × TCPSession τ) (s : TCPSession τ) :
    TCPSession τ :=
  let s := s.popAcked
  if s.FinDue then
    match push (FIN ||| ACK) s with
    | (true, s) =>
        s.switchState (if s.mState = .established then .finWait1 else .lastAck)
    | (false, s) => s
  else s.sendBackData

def enqueueBack (flag : U8) (data : Bytes) (s : TCPSession τ) : TCPSession τ :=
  let s := s.updateWindowSize
  let segment :=
    { s.buildPackage flag data with needCapture := s.mCtrlType &&& ctrlCAPTURE != 0 }
  let s :=
    { s with
      mBackQueue := s.mBackQueue ++ [segment]
      mBackQueueDataSize := s.mBackQueueDataSize + BitVec.ofNat 32 segment.capacity
      mLocalSeq :=
        if segment.hasFlag (FIN ||| SYN) then s.mLocalSeq + 1
        else s.mLocalSeq + BitVec.ofNat 32 data.length }
  s.emit [.pushed segment]

-- The body of `pushInBackQueue`; `flush` is the nested `flushBackQueue`.  `false` stands for -1,
-- `true` for the length returned.
def pushWith (flush : TCPSession τ → TCPSession τ) (flag : U8) (data : Bytes) (s : TCPSession τ) :
    Bool × TCPSession τ :=
  if s.mLocalSeq < s.mLocalNext then (false, s.emit [.refused flag])
  else (true, flush (s.enqueueBack flag data))

/-- `flushBackQueue` with its nested calls up to a depth. -/
def flushDepth : Nat → TCPSession τ → TCPSession τ
  | 0, s => s
  | depth + 1, s => flushWith (fun flag => pushWith (flushDepth depth) flag []) s

/-- `flushBackQueue`: the FIN it pushes keeps the nested call from pushing another, so the calls
    nest at most twice. -/
def flushBackQueue (s : TCPSession τ) : TCPSession τ := flushDepth 2 s

def pushInBackQueue (flag : U8) (data : Bytes) (s : TCPSession τ) : Bool × TCPSession τ :=
  pushWith flushBackQueue flag data s

/-! ## Packets from the application -/

/-- The datagram `enqueueIfNeed` allocates, still empty. -/
def forwardDatagram (ip : Packet) (s : TCPSession τ) : TCPDatagram where
  toSegment := Segment.new ip.payload.length
  mSeq := s.relativeSeq ip
  mAck := 0
  mFlag := ip.flag
  mChecksum := ip.checksum
  mLength := ip.payload.length

/-- `enqueueIfNeed`: the number of bytes queued, the session. -/
def enqueueIfNeed (ip : Packet) (s : TCPSession τ) : Nat × TCPSession τ :=
  if ip.payload.length = 0 then (0, s)
  else if compareU32 (s.relativeSeq ip) s.mRemoteNext < 0 then
    (0, (pushInBackQueue ACK [] s).2)
  else
    let datagram := s.forwardDatagram ip
    let itr := BufferQueue.findNotSmaller TCPDatagram.compare datagram s.mForwardQueue
    if (s.mForwardQueue[itr]?).any fun t => t.mSeq = datagram.mSeq then (0, s)
    else
      let datagram := datagram.withSegment (datagram.write ip.payload)
      let size := s.mForwardQueueDataSize + BitVec.ofNat 32 datagram.size
      (datagram.size,
        { s with
          mForwardQueue := s.mForwardQueue.insertIdx itr datagram
          mForwardQueueDataSize := size
          mTunnel := if 0 < size then ITunnel.requestSendData s.mTunnel else s.mTunnel })

/-- `onSack`: `sack` is the memory at the address it is called with. -/
def onSack (sack : Bytes) (s : TCPSession τ) : TCPSession τ :=
  let n := byteAt sack 0
  let sack := sack.drop 1
  if n ≠ 10 ∧ n ≠ 18 ∧ n ≠ 26 ∧ n ≠ 34 then s
  else
    let blocks := (List.range ((n.toNat - 2) / 8)).map fun i =>
      (tcpRelativeSeq (beWord32 sack (8 * i)) s.mLocalSeqBase,
        tcpRelativeSeq (beWord32 sack (8 * i + 4)) s.mLocalSeqBase)
    { s with
      mBackQueue := blocks.foldl (fun queue block =>
        let marked := queue.takeWhile fun d => d.mSeq < block.2
        marked.map (fun d => if block.1 ≤ d.mSeq then { d with mACKed := true } else d) ++
          queue.drop marked.length) s.mBackQueue }

/-- The option area of a packet in memory. -/
def scanOptions (ip : Packet) (option : U8) : OptionScan :=
  getOptionAddr (ip.options ++ ip.payload ++ ip.behind) ip.options.length option

def announcedWindow (ip : Packet) (scale : U8) : U32 := ip.window.setWidth 32 <<< scale.toNat

def synNumbered (ip : Packet) (s : TCPSession τ) : TCPSession τ :=
  { s with
    mSendWindow := announcedWindow ip s.mWindowScale
    mRemoteSeqBase := ip.seq
    mLocalSeqBase := s.rand
    mLocalSeq := 0
    mLocalNext := 0
    mRemoteNext := 1 }

def handshake (ip : Packet) (s : TCPSession τ) : TCPSession τ :=
  match pushInBackQueue (SYN ||| ACK) [] (s.synNumbered ip) with
  | (false, s) => s
  | (true, s) => s.switchState .synRcved

/-- `onReceiveSYN`; `none` when one of the option scans does not end. -/
def onReceiveSYN (ip : Packet) (s : TCPSession τ) : Option (TCPSession τ) :=
  if s.mState ≠ .listen then some s.flushBackQueue
  else
    match scanOptions ip optSACKF, scanOptions ip optMSS, scanOptions ip optWS with
    | .spins, _, _ => none
    | _, .spins, _ => none
    | _, _, .spins => none
    | sackf, pmss, pws =>
        some (handshake ip
          { s with
            mSack := s.mSack || (match sackf with | .found _ => true | _ => false)
            mMSS := match pmss with | .found a => byteAt a 3 ++ byteAt a 2 | _ => s.mMSS
            mWindowScale := match pws with | .found a => byteAt a 2 | _ => s.mWindowScale })

def onReceiveRST (s : TCPSession τ) : TCPSession τ := s.switchState .closed

omit [ITunnel τ] in
def finNumbered (ip : Packet) (s : TCPSession τ) : TCPSession τ :=
  { s with
    mLocalNext := if s.mLocalNext ≤ s.relativeAck ip then s.relativeAck ip else s.mLocalNext
    mRemoteNext := s.relativeSeq ip + 1 }

def onReceiveFIN (ip : Packet) (s : TCPSession τ) : TCPSession τ :=
  let ack := s.relativeAck ip
  match s.mState, pushInBackQueue ACK [] (s.finNumbered ip) with
  | .established, (true, s) => s.switchState .closeWait
  | .finWait1, (true, s) =>
      -- `mLocalNext` has just been set from this very `ack`
      if ack = s.mLocalNext then s.switchState .timeWait else s.switchState .closing
  | .finWait2, (true, s) => s.switchState .timeWait
  | _, (_, s) => s

-- The SYN_RCVED branch of `accept` behind its `switchState`.
def acceptFirstPayload (ip : Packet) (s : TCPSession τ) : TCPSession τ :=
  match enqueueIfNeed ip s with
  | (l, s) => flushBackQueue { s with mRemoteNext := s.mRemoteNext + BitVec.ofNat 32 l }

-- The end of the ESTABLISHED branch of `accept`: queue the payload and acknowledge it.
def acceptPayload (ip : Packet) (s : TCPSession τ) : TCPSession τ :=
  match enqueueIfNeed ip s with
  | (l, s) =>
      if 0 < l then
        (pushInBackQueue ACK [] { s with mRemoteNext := s.mRemoteNext + BitVec.ofNat 32 l }).2
      else s.flushBackQueue

-- The branch of `accept` for a segment without SYN, FIN and RST whose acknowledgement is not old:
-- `mLocalNext` is set already.
def onReceiveACK (ip : Packet) (s : TCPSession τ) : Option (TCPSession τ) :=
  match s.mState with
  | .synRcved => some (acceptFirstPayload ip (s.switchState .established))
  | .finWait1 => some (s.switchState .finWait2).flushBackQueue
  | .lastAck => some (s.switchState .closed).flushBackQueue
  | .closing => some (s.switchState .timeWait).flushBackQueue
  | .established =>
      match if s.mSack then scanOptions ip optSACK else .notFound with
      | .spins => none
      | .found sack => some (acceptPayload ip (onSack sack s))
      | .notFound => some (acceptPayload ip s)
  | _ => some s.flushBackQueue

-- What `accept` does before it looks at the flags.
def countAccepted (ip : Packet) (s : TCPSession τ) : TCPSession τ :=
  let len := BitVec.ofNat 32 ip.payload.length
  let s := { s with mTotalAccept := s.mTotalAccept + len }
  let s := if s.mCtrlType &&& ctrlCAPTURE != 0 then s.emit [.captured ip] else s
  s.emit [.dispatched .connTrafficAccept (s.toConnInfo len ip.flag
    (s.relativeSeq ip) (s.relativeAck ip))]

def dispatchFlags (ip : Packet) (s : TCPSession τ) : Option (TCPSession τ) :=
  if NetCore.hasFlag ip.flag SYN then onReceiveSYN ip s
  else if NetCore.hasFlag ip.flag FIN then some (onReceiveFIN ip s)
  else if NetCore.hasFlag ip.flag RST then some s.onReceiveRST
  else
    let ack := s.relativeAck ip
    let s := { s with mSendWindow := announcedWindow ip s.mWindowScale }
    if s.mLocalNext ≤ ack then onReceiveACK ip { s with mLocalNext := ack }
    else if ack + 1 = s.mLocalNext then
      some { s with mTunnel := ITunnel.keepAlive s.mTunnel }
    else some s

def noteTime (s : TCPSession τ) : TCPSession τ := { s with mLastTime := s.now }

/-- `accept`; `none` when an option scan does not end. -/
def accept (ip : Packet) (s : TCPSession τ) : Option (TCPSession τ) :=
  (dispatchFlags ip (countAccepted ip s)).map noteTime

/-! ## Calls from the tunnel -/

def onRemoteFinished (s : TCPSession τ) : TCPSession τ :=
  flushBackQueue { s with mRemoteFinished := true }

def onTunnelDisconnected (_reason : U8) (s : TCPSession τ) : TCPSession τ :=
  match s.mState with
  | .closeWait => s.onRemoteFinished
  | .established => s.onRemoteFinished
  | .timeWait => s.switchState .closed
  | .closing => s.switchState .closed
  | .finWait1 => s.switchState .closed
  | .finWait2 => s.switchState .closed
  | _ => s.resetConnection

-- The loop of `onTunnelDataBack` over what is left of the data: the number of bytes pushed.  Every
-- round takes a byte at least, so `fuel` is the length of the data.
def relayLoop : Nat → Bytes → TCPSession τ → Nat × TCPSession τ
  | 0, _, s => (0, s)
  | fuel + 1, data, s =>
      if data = [] then (0, s)
      else
        match pushInBackQueue ACK (data.take TCP_IP_PAYLOAD_SIZE) s with
        | (false, s) => (0, s)
        | (true, s) =>
            let (i, s) := relayLoop fuel (data.drop TCP_IP_PAYLOAD_SIZE) s
            ((data.take TCP_IP_PAYLOAD_SIZE).length + i, s)

def countRecv (i : Nat) (s : TCPSession τ) : TCPSession τ :=
  if 0 < i then
    let s := { s with mTotalRecv := s.mTotalRecv + BitVec.ofNat 32 i }
    s.emit [.dispatched .connTrafficRecv (s.toConnInfo (BitVec.ofNat 32 i) 0 0 0)]
  else s

def pauseIfFull (s : TCPSession τ) : TCPSession τ :=
  if TCP_SESSION_BUFFER_SIZE ≤ s.mBackQueueDataSize then
    { s with mTunnel := ITunnel.pauseReceiveData s.mTunnel }
  else s

def onTunnelDataBack (data : Bytes) (s : TCPSession τ) : TCPSession τ :=
  noteTime
    (if data = [] then
      onRemoteFinished { s with mTunnel := ITunnel.pauseReceiveData s.mTunnel }
    else
      let r := relayLoop data.length data s
      (countRecv r.1 r.2).pauseIfFull)

structure DrainResult (τ : Type) where
  queue : List TCPDatagram
  tunnel : τ
  /-- The bytes taken, in order. -/
  taken : Bytes
  /-- The last `sendData` failed and called the client back with this reason. -/
  failed : Option U8

-- The loop of `onTunnelWritable`: hand the front segment to the tunnel until the queue is empty or
-- a call takes nothing.  Every round but the last takes a byte, so `fuel` is one more than the
-- bytes queued.
def drainLoop : Nat → List TCPDatagram → τ → DrainResult τ
  | 0, queue, tunnel => ⟨queue, tunnel, [], none⟩
  | _, [], tunnel => ⟨[], tunnel, [], none⟩
  | fuel + 1, segment :: queue, tunnel =>
      match ITunnel.sendData tunnel segment.readable (!segment.hasFlag PSH) with
      | .failed reason tunnel => ⟨segment :: queue, tunnel, [], some reason⟩
      | .sent s tunnel =>
          if s = 0 then ⟨segment :: queue, tunnel, [], none⟩
          else
            let left := segment.withSegment (segment.consume s)
            let r := drainLoop fuel (if left.size ≤ 0 then queue else left :: queue) tunnel
            { r with taken := segment.readable.take s ++ r.taken }

def drain (queue : List TCPDatagram) (tunnel : τ) : DrainResult τ :=
  drainLoop ((BufferQueue.bytes queue).length + 1) queue tunnel

-- The end of `onTunnelWritable`, with the bytes sent.
def countSent (n : Nat) (s : TCPSession τ) : TCPSession τ :=
  if 0 < n then
    let sent := BitVec.ofNat 32 n
    let s :=
      { s with
        mTotalSent := s.mTotalSent + sent
        mForwardQueueDataSize := s.mForwardQueueDataSize - sent }
    s.emit [.dispatched .connTrafficSent (s.toConnInfo sent 0 0 0)]
  else { s with mTunnel := ITunnel.pauseSendData s.mTunnel }

/-- The session with what the drain loop has left. -/
def drained (s : TCPSession τ) : TCPSession τ :=
  let r := drain s.mForwardQueue s.mTunnel
  let s := { s with mForwardQueue := r.queue, mTunnel := r.tunnel }
  s.emit [.taken r.taken]

/-- `onTunnelWritable`.  A failed `sendData` has called `onTunnelDisconnected` before it returns, so
    the session runs that first, with the counters not yet brought up to date. -/
def onTunnelWritable (s : TCPSession τ) : TCPSession τ :=
  if s.mForwardQueue = [] then { s with mTunnel := ITunnel.pauseSendData s.mTunnel }
  else
    let r := drain s.mForwardQueue s.mTunnel
    match r.failed with
    | some reason => (s.drained.onTunnelDisconnected reason).countSent r.taken.length
    | none => s.drained.countSent r.taken.length

/-! ## Timeouts -/

/-- `timeout`; the difference of two `time_t`s may be negative. -/
def timeout (s : TCPSession τ) : Bool :=
  let t : Int := if s.mState = .established then 3600 else 10
  t < (s.now : Int) - s.mLastTime

def hasClosed (s : TCPSession τ) : Bool := !s.mAlive || s.timeout

/-! ## Runs -/

inductive Event (τ : Type) where
  | accept (ip : Packet)
  | tunnelConnected
  | tunnelDisconnected (reason : U8)
  | tunnelWritable
  | tunnelDataBack (data : Bytes)
  /-- `Router::onWritable` has written `n` bytes of the `i`-th segment of `mBackQueue`. -/
  | written (i n : Nat)
  /-- The tunnel changes on its own, time passes, the random generator is used. -/
  | environment (tunnel : τ) (now : Nat) (rand : U32)

/-- The router's part in a segment it holds: a segment written to the end is rewound and given
    back. -/
def routerWrote (n : Nat) (d : TCPDatagram) : TCPDatagram :=
  if d.isBuffering then
    let seg := d.consume n
    if seg.size ≤ 0 then { d.withSegment seg.resume with isBuffering := false }
    else d.withSegment seg
  else d

def step (s : TCPSession τ) : Event τ → Option (TCPSession τ)
  | .accept ip => s.accept ip
  | .tunnelConnected => some s
  | .tunnelDisconnected reason => some (s.onTunnelDisconnected reason)
  | .tunnelWritable => some s.onTunnelWritable
  | .tunnelDataBack data => some (s.onTunnelDataBack data)
  | .written i n => some { s with mBackQueue := s.mBackQueue.modify i (routerWrote n) }
  | .environment tunnel now rand => some { s with mTunnel := tunnel, now := now, rand := rand }

end TCPSession

end NetCore
