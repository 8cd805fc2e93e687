import NetCore.Lib.Registry
import NetCore.Lib.Run
import NetCore.TCPSession.Birth
import NetCore.TCPSession.Lifetime
import NetCore.UDPSession.Lifetime

/-!
# The sessions of the router

`mTCPSessions` and `mUDPSessions` hold every session that is not cleaned up yet, in the order they were
built.  `findSession` takes the first that is open and has the flow of the packet; if there is none,
`route` builds a new one behind the others.

A session is listed with its `mID`, which `sID` counts: it stands for the pointer, and is not wrapped at
2^32 because nothing reads it.  Beside each list stands the flow of every packet routed so far, with the
`mID` of the session that has got it.
-/

namespace NetCore

/-- What the router reads of a session. -/
class ISession (σ : Type) where
  flow : σ → Flow
  hasClosed : σ → Bool

instance {τ : Type} : ISession (TCPSession τ) where
  flow s := s.toSession.flow
  hasClosed := TCPSession.hasClosed

instance : ISession UDPFlow where
  flow f := f.session.toSession.flow
  hasClosed f := f.session.hasClosed

/-- What `findSession` and `initBaseInfo` read of a packet. -/
structure FlowHeader where
  ipVer : U8
  flow : Flow

/-- What the session needs from elsewhere when `init` is called. -/
structure TCPSetup (τ : Type) where
  ctrl : U32
  /-- `none`: the proxy is not an IPv4 one, or `establish` has failed. -/
  tunnel : Option τ
  rand : U32

structure UDPSetup where
  ctrl : U32
  reactor : EpollReactor
  handler : Nat
  sends : Nat → SendOutcome
  rounds : Nat
  /-- What `socket` and `protectSock` give. -/
  socket : Option Int
  /-- A proxy that has been established. -/
  proxy : Option Socks5Proxy

/-- What a tunnel does to its session, and the router to the segments it holds. -/
inductive TunnelCall (τ : Type) where
  | connected
  | disconnected (reason : U8)
  | writable
  | dataBack (data : Bytes)
  | written (i n : Nat)
  /-- The tunnel changes on its own, the random generator is used. -/
  | environment (tunnel : τ) (rand : U32)

namespace TunnelCall

variable {τ : Type} [ITunnel τ]

def run : TunnelCall τ → TCPSession τ → TCPSession τ
  | connected, s => s
  | disconnected reason, s => s.onTunnelDisconnected reason
  | writable, s => s.onTunnelWritable
  | dataBack data, s => s.onTunnelDataBack data
  | written i n, s => { s with mBackQueue := s.mBackQueue.modify i (TCPSession.routerWrote n) }
  | environment tunnel rand, s => { s with mTunnel := tunnel, rand := rand }

end TunnelCall

def UDPFlow.wait (seconds : Nat) : UDPFlow → UDPFlow
  | direct s => direct { s with now := s.now + seconds }
  | proxied w => proxied ⟨{ w.mClient with now := w.mClient.now + seconds }, w.proxy⟩

/-- What happens to a flow behind the router's back: packets come through `route` only. -/
def UDPFlow.call (flow : UDPFlow) : UDPFlow.Event → Option UDPFlow
  | .accept _ => none
  | .environment _ settings cipher =>
      flow.step (.environment flow.session.now settings cipher)
  | e => flow.step e

/-- A list of sessions with the packets they have got. -/
abbrev SessionList (σ : Type) := Lib.Registry σ Flow

namespace SessionList

variable {σ : Type} [ISession σ]

def findSession (ip : FlowHeader) (sessions : List (Lib.Numbered σ)) : Option (Lib.Numbered σ) :=
  if ip.ipVer ≠ 4 then none
  else sessions.find? fun x => !ISession.hasClosed x.item && ISession.flow x.item = ip.flow

/-- `route` and what it leaves of `sID`: the constructor counts a session even when `init` then fails.
    `build` is `buildSession`; `none` when `accept` does not return. -/
def route (ip : FlowHeader) (build : Option σ) (accept : σ → Option σ) (sID : Nat)
    (r : SessionList σ) : Option (Nat × SessionList σ) :=
  match findSession ip r.items with
  | some x => (accept x.item).map fun s => (sID, (r.put x.number s).give ip.flow x.number)
  | none =>
      match build with
      | none => some (sID + 1, r)
      | some s => (accept s).map fun s => (sID + 1, (r.add (sID + 1) s).give ip.flow (sID + 1))

def cleanDeadSessions (r : SessionList σ) : SessionList σ :=
  r.filter fun s => !ISession.hasClosed s

omit [ISession σ] in
/-- Something happens to the session with this `mID`. -/
def call (mID : Nat) (f : σ → Option σ) (r : SessionList σ) : Option (SessionList σ) :=
  match r.items.find? fun x => x.number = mID with
  | none => none
  | some x => (f x.item).map fun s => r.put x.number s

end SessionList

structure Sessions (τ : Type) where
  mTCPSessions : SessionList (TCPSession τ) := {}
  mUDPSessions : SessionList UDPFlow := {}
  sID : Nat
  /-- `time(NULL)`. -/
  now : Nat

namespace Sessions

open SessionList

variable {τ : Type}

/-- `buildSession` for TCP: `init` takes a SYN only. -/
def buildTCP (ip : FlowHeader) (tcp : Packet) (setup : TCPSetup τ) (now : Nat) :
    Option (TCPSession τ) :=
  if ip.ipVer ≠ 4 then none
  else if NetCore.hasFlag tcp.flag SYN then
    setup.tunnel.map fun tunnel =>
      TCPSession.init ip.flow.srcPort ip.flow.destPort ip.flow.srcAddr ip.flow.destAddr setup.ctrl
        tunnel now setup.rand
  else none

def buildUDP (ip : FlowHeader) (setup : UDPSetup) (now : Nat) : Option UDPFlow :=
  if ip.ipVer ≠ 4 then none
  else
    UDPFlow.init setup.socket setup.proxy
      { mSrcPort := ip.flow.srcPort
        mDestPort := ip.flow.destPort
        mSrcAddr := ip.flow.srcAddr
        mDestAddr := ip.flow.destAddr
        mCtrlType := setup.ctrl
        reactor := setup.reactor
        handler := setup.handler
        now := now
        sends := setup.sends
        rounds := setup.rounds }

inductive Event (τ : Type) where
  /-- `onReadable` has read a packet of one of the two protocols. -/
  | routeTCP (ip : FlowHeader) (tcp : Packet) (setup : TCPSetup τ)
  | routeUDP (ip : FlowHeader) (udp : Datagram) (setup : UDPSetup)
  | tcp (mID : Nat) (call : TunnelCall τ)
  | udp (mID : Nat) (e : UDPFlow.Event)
  | periodicCheck
  | tick (seconds : Nat)

variable [ITunnel τ]

-- `none`: a call that does not come back, or one on a session that is not there.
def step (r : Sessions τ) : Event τ → Option (Sessions τ)
  | .routeTCP ip tcp setup =>
      (route ip (buildTCP ip tcp setup r.now) (TCPSession.accept tcp) r.sID r.mTCPSessions).map
        fun routed => { r with sID := routed.1, mTCPSessions := routed.2 }
  | .routeUDP ip udp setup =>
      (route ip (buildUDP ip setup r.now) (fun f => f.step (.accept udp)) r.sID r.mUDPSessions).map
        fun routed => { r with sID := routed.1, mUDPSessions := routed.2 }
  | .tcp mID c =>
      (r.mTCPSessions.call mID fun s => some (c.run s)).map fun called =>
        { r with mTCPSessions := called }
  | .udp mID e =>
      (r.mUDPSessions.call mID fun f => f.call e).map fun called => { r with mUDPSessions := called }
  | .periodicCheck =>
      some { r with
        mUDPSessions := r.mUDPSessions.cleanDeadSessions
        mTCPSessions := r.mTCPSessions.cleanDeadSessions }
  | .tick seconds =>
      some { r with
        now := r.now + seconds
        mTCPSessions := r.mTCPSessions.map fun _ s => { s with now := s.now + seconds }
        mUDPSessions := r.mUDPSessions.map fun _ f => f.wait seconds }

omit [ITunnel τ] in
/-- A new router; `sID` belongs to the program and may have counted the sessions of another. -/
def start (sID now : Nat) : Sessions τ := { sID, now }

end Sessions

end NetCore
