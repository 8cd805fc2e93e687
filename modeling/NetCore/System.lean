import NetCore.Router
import NetCore.UDPSession

/-!
# The router with its sessions

A TCP session holds the segments of its `mBackQueue` by their addresses, and the router has some of
the same addresses in `mData`.  `TCPSession` computes with the segments themselves; here what it has
done to them in a step is done to the heap, point by point of its trace, and what the router has
written is read back into the queues.

Every session keeps its own view of the reactor: no property of the segments depends on it.
-/

namespace NetCore

namespace Router

def post (segment : BufferSegment) (r : Router) : Router :=
  ((r.build segment).onSyncEvent r.memory.next).2

end Router

/-- A TCP session, and where the segments of its `mBackQueue` are. -/
structure TCPHolder (τ : Type) where
  session : TCPSession τ
  segments : List Nat := []

/-- A point of the trace of a TCP session, on the heap.  A session pushes behind its queue, hands over
    the front, and releases from the front; the segment of a reset it builds, hands over and forgets. -/
def TracePoint.onHeap : TracePoint → List Nat × Router → List Nat × Router
  | .pushed segment, (held, r) => (held ++ [r.memory.next], r.build segment.toBufferSegment)
  | .writePackage segment, (held, r) =>
      if segment.releaseAfterBuffering then (held, r.post segment.toBufferSegment.giveBack)
      else
        match held with
        | [] => (held, r)
        | p :: _ => (held, (r.onSyncEvent p).2)
  | .released _, (held, r) =>
      match held with
      | [] => (held, r)
      | p :: held => (held, r.safeRelease p)
  | _, x => x

/-- A UDP session keeps none of the packets it builds. -/
def UDPPoint.onHeap : UDPPoint → Router → Router
  | .writePackage segment, r => r.post segment
  | _, r => r

def replay (points : List TracePoint) (x : List Nat × Router) : List Nat × Router :=
  points.foldl (fun x point => point.onHeap x) x

def replayUDP (points : List UDPPoint) (r : Router) : Router :=
  points.foldl (fun r point => point.onHeap r) r

namespace TCPHolder

variable {τ : Type}

def reload (r : Router) (h : TCPHolder τ) : TCPHolder τ :=
  { h with
    session :=
      { h.session with
        mBackQueue := List.zipWith
          (fun p d => { d with toBufferSegment := (r.memory.cells p).getD d.toBufferSegment })
          h.segments h.session.mBackQueue } }

variable [ITunnel τ]

def step (h : TCPHolder τ) (e : TCPSession.Event τ) (r : Router) :
    Option (TCPHolder τ × Router) :=
  (h.session.step e).map fun session =>
    let x := replay (session.trace.drop h.session.trace.length) (h.segments, r)
    (⟨session, x.1⟩, x.2)

omit [ITunnel τ] in
/-- `clearBackQueue`, called when the session is deleted. -/
def clearBackQueue (h : TCPHolder τ) (r : Router) : Router :=
  h.segments.foldl (fun r p => r.safeRelease p) r

end TCPHolder

structure System (τ : Type) where
  router : Router
  mTCPSessions : List (TCPHolder τ) := []
  mUDPSessions : List UDPFlow := []

namespace System

variable {τ : Type}

inductive Event (τ : Type) where
  /-- A TCP packet for which there is no session: `buildSession`, then `accept`. -/
  | connect (srcPort destPort : U16) (srcAddr destAddr ctrl : U32) (tunnel : τ) (now : Nat)
      (rand : U32) (ip : Packet)
  | tcp (i : Nat) (e : TCPSession.Event τ)
  /-- A UDP session built. -/
  | associate (socket : Option Int) (proxy : Option Socks5Proxy) (session : UDPSession)
  | udp (i : Nat) (e : UDPFlow.Event)
  /-- `releaseSession`. -/
  | releaseTCP (i : Nat)
  | releaseUDP (i : Nat)
  /-- The tun is writable. -/
  | writable
  | reactor (call : EpollReactor.Call)
  /-- How the `write` calls to come will end. -/
  | environment (writes : Nat → SendOutcome)

variable [ITunnel τ]

/-- `init` refuses a packet without SYN. -/
def connect (session : TCPSession τ) (ip : Packet) (s : System τ) : Option (System τ) :=
  if hasFlag ip.flag SYN then
    (TCPHolder.step ⟨session, []⟩ (.accept ip) s.router).map fun (h, router) =>
      { s with mTCPSessions := s.mTCPSessions ++ [h], router := router }
  else some s

def stepTCP (i : Nat) (e : TCPSession.Event τ) (s : System τ) : Option (System τ) :=
  match s.mTCPSessions[i]? with
  | none => some s
  | some h =>
      (h.step e s.router).map fun (h, router) =>
        { s with mTCPSessions := s.mTCPSessions.set i h, router := router }

omit [ITunnel τ] in
def stepUDP (i : Nat) (e : UDPFlow.Event) (s : System τ) : Option (System τ) :=
  match s.mUDPSessions[i]? with
  | none => some s
  | some flow =>
      (flow.step e).map fun flow' =>
        { s with
          mUDPSessions := s.mUDPSessions.set i flow'
          router := replayUDP (flow'.session.trace.drop flow.session.trace.length) s.router }

omit [ITunnel τ] in
def releaseTCP (i : Nat) (s : System τ) : System τ :=
  match s.mTCPSessions[i]? with
  | none => s
  | some h =>
      { s with
        mTCPSessions := s.mTCPSessions.eraseIdx i
        router := h.clearBackQueue s.router }

-- `none`: a step that does not come back, or one that is not the session's own.
def step (s : System τ) : Event τ → Option (System τ)
  | .connect srcPort destPort srcAddr destAddr ctrl tunnel now rand ip =>
      s.connect (.init srcPort destPort srcAddr destAddr ctrl tunnel now rand) ip
  | .tcp _ (.written _ _) => none
  | .tcp i e => s.stepTCP i e
  | .associate socket proxy session =>
      some { s with mUDPSessions := s.mUDPSessions ++ (UDPFlow.init socket proxy session).toList }
  | .udp i e => s.stepUDP i e
  | .releaseTCP i => some (s.releaseTCP i)
  | .releaseUDP i => some { s with mUDPSessions := s.mUDPSessions.eraseIdx i }
  | .writable =>
      let router := s.router.onWritable
      some { s with router := router, mTCPSessions := s.mTCPSessions.map (.reload router) }
  | .reactor call => (s.router.step (.reactor call)).map fun router => { s with router := router }
  | .environment writes => some { s with router := { s.router with writes := writes } }

end System

end NetCore
