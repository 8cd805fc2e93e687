import NetCore.Dns
import NetCore.IPAdpt.Options
import NetCore.PacketCapture
import NetCore.Router.Sessions

/-!
# What `onReadable` reads of a packet

`mIPData` holds what `read` has filled and, behind it, what earlier packets have left.  `onReadable`
routes by the protocol byte, and from there on every length comes from the packet itself: the header
lengths, `TTLEN` and what the options and a DNS message say of theirs.  Beside the state stands every
index of `mIPData` that is read on the way, of a log text where `LOGR` makes it; `LOGD` and `LOGI` are
compiled out.
-/

namespace NetCore

open PacketCapture (leWord32)

/-! ## The fields of a packet -/

def getIPVer (ip : Bytes) : U8 := byteAt ip 0 >>> 4

def leWord16 (mem : Bytes) (i : Nat) : U16 := byteAt mem (i + 1) ++ byteAt mem i

/-- `getIPVer`, `getSrc`, `getDest` and the ports, which stand at the same place in both protocols. -/
def flowHeader (ip : Bytes) : FlowHeader where
  ipVer := getIPVer ip
  flow :=
    { srcAddr := leWord32 ip 12
      destAddr := leWord32 ip 16
      srcPort := leWord16 ip (getHeaderLen ip)
      destPort := leWord16 ip (getHeaderLen ip + 2) }

def tcpFlags (ip : Bytes) : U8 := byteAt ip (getHeaderLen ip + 13)

def dataoff (ip : Bytes) : BitVec 4 := (byteAt ip (getHeaderLen ip + 12) >>> 4).setWidth 4

theorem getTCPHeaderLen_eq (ip : Bytes) :
    getTCPHeaderLen ip (getHeaderLen ip) = (dataoff ip).toNat * 4 := by
  unfold getTCPHeaderLen dataoff
  rw [BitVec.toNat_setWidth, BitVec.toNat_ushiftRight, Nat.shiftRight_eq_div_pow]
  have hlt := (byteAt ip (getHeaderLen ip + 12)).isLt
  omega

def optionScan (ip : Bytes) (option : U8) : OptionScan :=
  getOptionAddr (ip.drop (getHeaderLen ip + 20)) (optionAreaLen (dataoff ip)) option

/-- The packet as `TCPSession` sees it, if its lengths agree with each other and with the memory. -/
def packetAt (ip : Bytes) : Option Packet :=
  let tcp := getHeaderLen ip
  let ttlen := (getTTLEN ip).toNat
  if h : 20 ≤ tcp ∧ 20 ≤ getTCPHeaderLen ip tcp ∧ tcp + getTCPHeaderLen ip tcp ≤ ttlen ∧
      ttlen ≤ ip.length then
    some
      { seq := beWord32 ip (tcp + 4)
        ack_seq := beWord32 ip (tcp + 8)
        flag := tcpFlags ip
        window := beWord16 ip (tcp + 14)
        checksum := leWord16 ip (tcp + 16)
        options := (ip.take (tcp + getTCPHeaderLen ip tcp)).drop (tcp + 20)
        payload := (ip.take ttlen).drop (tcp + getTCPHeaderLen ip tcp)
        behind := ip.drop ttlen
        fits := by
          have hlt := (getTTLEN ip).isLt
          rw [List.length_drop, List.length_drop, List.length_take, List.length_take]
          omega }
  else none

/-- The packet as `UDPSession` sees it, if its lengths agree with each other and with the memory. -/
def datagramAt (ip : Bytes) : Option Datagram :=
  let ttlen := (getTTLEN ip).toNat
  if h : 20 ≤ getHeaderLen ip ∧ getHeaderLen ip + 8 ≤ ttlen ∧ ttlen ≤ ip.length then
    some
      { payload := (ip.take ttlen).drop (getHeaderLen ip + 8)
        fits := by
          have hlt := (getTTLEN ip).isLt
          rw [List.length_drop, List.length_take]
          omega }
  else none

theorem handshake_fits : 40 + ([] : Bytes).length + ([] : Bytes).length ≤ 65535 :=
  Nat.le_of_ble_eq_true rfl

/-- `init` reads nothing of a TCP packet but its flags. -/
def handshakeAt (ip : Bytes) : Packet where
  seq := 0
  ack_seq := 0
  flag := tcpFlags ip
  window := 0
  checksum := 0
  options := []
  payload := []
  behind := []
  fits := handshake_fits

/-! ## Where they are read -/

def portReads (ip : Bytes) : List Nat := 0 :: 9 :: List.range' (getHeaderLen ip) 4

def addrReads : List Nat := List.range' 12 8

def payloadLenReads (ip : Bytes) : List Nat :=
  [0, 2, 3, 9] ++ if getProtocol ip = protoTCP then [getHeaderLen ip + 12] else []

/-- The payload, copied for a queue; `new` grants no negative length. -/
def payloadReads (ip : Bytes) : List Nat :=
  List.range' (getPayloadOffset ip) (getPayloadLen ip).toNat

/-- `PacketCapture::write`, if the session is captured. -/
def captureReads (ctrl : U32) (ip : Bytes) : List Nat :=
  if ctrl &&& ctrlCAPTURE != 0 then List.range (getTTLEN ip).toNat else []

def IsDns (ip : Bytes) : Prop :=
  beWord16 ip (getHeaderLen ip) = 53 ∨ beWord16 ip (getHeaderLen ip + 2) = 53

instance (ip : Bytes) : Decidable (IsDns ip) := inferInstanceAs (Decidable (_ ∨ _))

def dnsHeader (ip : Bytes) (i : Nat) : U8 := byteAt ip (getPayloadOffset ip + i)

/-- `getPayloadLen` as the `size_t` that the decoding of a message is given. -/
def dnsLength (ip : Bytes) : Nat := (BitVec.ofInt 32 (getPayloadLen ip)).toNat

def textReads (ip : Bytes) : List Nat :=
  addrReads ++ portReads ip ++ payloadLenReads ip ++
    if IsDns ip then
      (Dns.messageReads (dnsHeader ip) (dnsLength ip)).map fun i => getPayloadOffset ip + i
    else []

/-- A scan for an option and the use of what it finds: `size` bytes are read from the `skip`-th on. -/
structure OptionUse where
  option : U8
  skip : Nat
  size : Nat

def OptionUse.reads (ip : Bytes) (u : OptionUse) : List Nat :=
  let optlen := optionAreaLen (dataoff ip)
  let options := getHeaderLen ip + 20
  optionReads u.option (optlen + 1) optlen options (ip.drop options) ++
    match optionScan ip u.option with
    | .found addr => List.range' (ip.length - addr.length + u.skip) u.size
    | _ => []

/-- The scans of a list that are made: none behind one that goes on for ever. -/
def scansMade (ip : Bytes) : List OptionUse → List OptionUse
  | [] => []
  | u :: us => u :: if optionScan ip u.option = .spins then [] else scansMade ip us

def ScansEnd (ip : Bytes) (us : List OptionUse) : Prop :=
  ∀ u ∈ us, optionScan ip u.option ≠ .spins

instance (ip : Bytes) (us : List OptionUse) : Decidable (ScansEnd ip us) :=
  inferInstanceAs (Decidable (∀ u ∈ us, _))

def scanReads (ip : Bytes) (us : List OptionUse) (rest : List Nat) : List Nat :=
  (scansMade ip us).flatMap (OptionUse.reads ip) ++ if ScansEnd ip us then rest else []

/-- The options that `onReceiveSYN` looks for. -/
def synOptionUses : List OptionUse := [⟨optSACKF, 0, 0⟩, ⟨optMSS, 2, 2⟩, ⟨optWS, 2, 1⟩]

/-- The option that `accept` looks for; `onSack` takes its kind for its length and returns. -/
def sackUses : List OptionUse := [⟨optSACK, 0, 1⟩]

namespace UDPSession

def acceptReads (ip : Bytes) (s : UDPSession) : List Nat :=
  if s.mAlive = false then []
  else payloadLenReads ip ++ textReads ip ++ captureReads s.mCtrlType ip ++ payloadReads ip

end UDPSession

namespace TCPSession

variable {τ : Type} (ip : Bytes) (s : TCPSession τ)

def seqAt : U32 := tcpRelativeSeq (beWord32 ip (getHeaderLen ip + 4)) s.mRemoteSeqBase

def ackAt : U32 := tcpRelativeSeq (beWord32 ip (getHeaderLen ip + 8)) s.mLocalSeqBase

/-- `enqueueIfNeed` makes a datagram of the payload. -/
def Enqueues : Prop := 0 < getPayloadLen ip ∧ ¬ compareU32 (s.seqAt ip) s.mRemoteNext < 0

instance : Decidable (s.Enqueues ip) := inferInstanceAs (Decidable (_ ∧ _))

/-- The first datagram of the queue that is not smaller has the number of this one. -/
def repeats : Bool :=
  (s.mForwardQueue.find? fun d => (s.seqAt ip - d.mSeq).toInt ≤ 0).any fun d => d.mSeq = s.seqAt ip

def numberReads : List Nat := List.range' (getHeaderLen ip + 4) 8

def windowReads : List Nat := List.range' (getHeaderLen ip + 14) 2

def enqueueReads : List Nat :=
  payloadLenReads ip ++
    if getPayloadLen ip = 0 then []
    else
      List.range' (getHeaderLen ip + 4) 4 ++
        if s.Enqueues ip then
          List.range' (getHeaderLen ip + 16) 2 ++ (getHeaderLen ip + 13) ::
            if s.repeats ip then [] else payloadReads ip
        else []

def ackReads : List Nat :=
  match s.mState with
  | .synRcved => s.enqueueReads ip
  | .established => scanReads ip (if s.mSack then sackUses else []) (s.enqueueReads ip)
  | _ => []

def flagReads : List Nat :=
  if NetCore.hasFlag (tcpFlags ip) SYN then
    if s.mState = .listen then scanReads ip synOptionUses (windowReads ip ++ numberReads ip) else []
  else if NetCore.hasFlag (tcpFlags ip) FIN then numberReads ip
  else if NetCore.hasFlag (tcpFlags ip) RST then numberReads ip
  else windowReads ip ++ if s.mLocalNext ≤ s.ackAt ip then s.ackReads ip else []

def acceptReads : List Nat :=
  payloadLenReads ip ++ numberReads ip ++ [getHeaderLen ip + 13] ++
    captureReads s.mCtrlType ip ++ s.flagReads ip

end TCPSession

namespace SessionList

variable {σ : Type} [ISession σ]

omit [ISession σ] in
/-- `findSession`: an empty list is not looked through. -/
def findReads (ip : Bytes) (sessions : List (Lib.Numbered σ)) : List Nat :=
  if sessions.isEmpty then []
  else portReads ip ++ if getIPVer ip = 4 then addrReads else []

/-- `buildSession` copies the fixed header; behind it `initBaseInfo` and `init`. -/
def buildReads (ip : Bytes) (init : List Nat) : List Nat :=
  List.range 20 ++ if getIPVer ip = 4 then addrReads ++ portReads ip ++ init else []

/-- `route`; `init` and `accept` are where these two read. -/
def routeReads (ip : Bytes) (build : Option σ) (init : List Nat) (accept : σ → List Nat)
    (r : SessionList σ) : List Nat :=
  findReads ip r.items ++
    match findSession (flowHeader ip) r.items with
    | some x => accept x.item
    | none =>
        buildReads ip init ++
          match build with
          | some s => accept s
          | none => []

end SessionList

/-! ## Routing -/

/-- What one call of `read` leaves in `mIPData`. -/
structure TunRead where
  packet : Bytes
  /-- Left from earlier packets. -/
  behind : Bytes
  fits : packet.length ≤ 65535

def TunRead.mIPData (read : TunRead) : Bytes := read.packet ++ read.behind

/-- What `onReadable` depends on besides the packet: what a new session is given.  What `accept` makes
    of a packet whose lengths disagree is left open. -/
structure TunSetup (τ : Type) where
  tcp : TCPSetup τ
  udp : UDPSetup
  astrayTCP : Bytes → TCPSession τ → Option (TCPSession τ)
  astrayUDP : Bytes → UDPFlow → Option UDPFlow

namespace SessionList

variable {σ : Type} [ISession σ]

/-- The session that `route` gives the packet to, if there is one. -/
def taker (ip : FlowHeader) (build : Option σ) (r : SessionList σ) : Option σ :=
  match findSession ip r.items with
  | some x => some x.item
  | none => build

variable {build : Option σ} {r : SessionList σ}

theorem route_of_taker_none {h : FlowHeader} (htaker : taker h build r = none)
    (accept : σ → Option σ) (sID : Nat) : route h build accept sID r = some (sID + 1, r) := by
  unfold taker at htaker
  unfold route
  cases hfind : findSession h r.items with
  | some x =>
    rw [hfind] at htaker
    cases htaker
  | none =>
    rw [hfind] at htaker
    have hbuild : build = none := htaker
    simp only [hbuild]

end SessionList

inductive Taker (τ : Type) where
  | udp (f : UDPFlow)
  | tcp (s : TCPSession τ)

namespace TunSetup

variable {τ : Type} [ITunnel τ] (setup : TunSetup τ)

def acceptTCP (ip : Bytes) (s : TCPSession τ) : Option (TCPSession τ) :=
  match packetAt ip with
  | some tcp => s.accept tcp
  | none => setup.astrayTCP ip s

omit [ITunnel τ] in
def acceptUDP (ip : Bytes) (f : UDPFlow) : Option UDPFlow :=
  match datagramAt ip with
  | some udp => f.step (.accept udp)
  | none => setup.astrayUDP ip f

omit [ITunnel τ] in
def buildTCP (ip : Bytes) (now : Nat) : Option (TCPSession τ) :=
  Sessions.buildTCP (flowHeader ip) (handshakeAt ip) setup.tcp now

omit [ITunnel τ] in
def buildUDP (ip : Bytes) (now : Nat) : Option UDPFlow :=
  Sessions.buildUDP (flowHeader ip) setup.udp now

end TunSetup

namespace Sessions

open SessionList

variable {τ : Type} [ITunnel τ] (setup : TunSetup τ) (read : TunRead) (r : Sessions τ)

/-- `Router::onReadable` behind a `read` that has not failed. -/
def onReadable : Option (Sessions τ) :=
  let ip := read.mIPData
  if getProtocol ip = protoUDP then
    (route (flowHeader ip) (setup.buildUDP ip r.now) (setup.acceptUDP ip) r.sID r.mUDPSessions).map
      fun routed => { r with sID := routed.1, mUDPSessions := routed.2 }
  else if getProtocol ip = protoTCP then
    (route (flowHeader ip) (setup.buildTCP ip r.now) (setup.acceptTCP ip) r.sID r.mTCPSessions).map
      fun routed => { r with sID := routed.1, mTCPSessions := routed.2 }
  else some r

def takerOf : Option (Taker τ) :=
  let ip := read.mIPData
  if getProtocol ip = protoUDP then
    (taker (flowHeader ip) (setup.buildUDP ip r.now) r.mUDPSessions).map .udp
  else if getProtocol ip = protoTCP then
    (taker (flowHeader ip) (setup.buildTCP ip r.now) r.mTCPSessions).map .tcp
  else none

def readableReads : List Nat :=
  let ip := read.mIPData
  9 ::
    if getProtocol ip = protoUDP then
      routeReads ip (setup.buildUDP ip r.now) (addrReads ++ portReads ip)
        (fun f => f.session.acceptReads ip) r.mUDPSessions
    else if getProtocol ip = protoTCP then
      routeReads ip (setup.buildTCP ip r.now) (addrReads ++ [0, getHeaderLen ip + 13])
        (fun s => s.acceptReads ip) r.mTCPSessions
    else []

-- A packet that no session takes changes none.
theorem onReadable_dropped (h : takerOf setup read r = none) :
    ∃ r', onReadable setup read r = some r' ∧
      r'.mTCPSessions = r.mTCPSessions ∧ r'.mUDPSessions = r.mUDPSessions := by
  unfold takerOf at h
  unfold onReadable
  dsimp only at h ⊢
  by_cases hudp : getProtocol read.mIPData = protoUDP
  · rw [if_pos hudp] at h ⊢
    rw [route_of_taker_none (Option.map_eq_none_iff.mp h)]
    exact ⟨_, rfl, rfl, rfl⟩
  · rw [if_neg hudp] at h ⊢
    by_cases htcp : getProtocol read.mIPData = protoTCP
    · rw [if_pos htcp] at h ⊢
      rw [route_of_taker_none (Option.map_eq_none_iff.mp h)]
      exact ⟨_, rfl, rfl, rfl⟩
    · rw [if_neg htcp]
      exact ⟨r, rfl, rfl, rfl⟩

end Sessions

end NetCore
