import NetCore.Socks5Proxy
import NetCore.TCPSession

/-!
# A session with a socket of its own

Without a proxy the tunnel of a session is a `TCPTunnel`, and the session is its client: `establish`
makes the socket, and the handlers of `TCPTunnel.cpp` pass on what the reactor has to say about it.
`onTunnelConnected` only logs.
-/

namespace NetCore

def SHARED_BUFFER_SIZE : Nat := 61440

namespace TCPTunnel

/-- What the system answers while the tunnel connects. -/
structure Answers where
  socket : Int
  /-- `JniBridge::protectSock` returns 0. -/
  protects : Bool
  /-- Both calls of `fcntl` succeed. -/
  nonBlocking : Bool
  /-- `connect` succeeds or is in progress. -/
  connects : Bool

/-- `hasRemote` is `mRemoteSockAddr != NULL`: the constructor makes no address of port 0. -/
def establish (hasRemote : Bool) (a : Answers) (t : TCPTunnel) : Int × TCPTunnel :=
  if t.mAlive then (1, t)
  else if !hasRemote then (1, t)
  else
    let t := { t with mSocket := a.socket }
    if a.socket < 0 then (1, t)
    -- the socket is forgotten without being closed
    else if !a.protects then (1, { t with mSocket := -1 })
    else if !a.nonBlocking then (1, t)
    else if !a.connects then (1, t)
    else
      -- what the reactor answers is not looked at
      (0, { t with
        reactor := (t.reactor.addEvent t.mSocket evALL t.handler 0).2
        mAlive := true
        mLastTime := t.now + TIMEOUT })

/-- `mLastTime = time(NULL) + TIMEOUT`. -/
def touch (t : TCPTunnel) : TCPTunnel := { t with mLastTime := t.now + TIMEOUT }

end TCPTunnel

abbrev DirectSession := TCPSession TCPTunnel

namespace DirectSession

def onTunnel (f : TCPTunnel → TCPTunnel) (s : DirectSession) : DirectSession :=
  { s with mTunnel := f s.mTunnel }

def noteConnected (s : DirectSession) : DirectSession :=
  s.onTunnel fun t => { t with mConnected := true }

def onReadable (outcome : Served.ReadOutcome) (s : DirectSession) : DirectSession :=
  match outcome with
  | .error errno =>
      if errno ≠ EINTR ∧ errno ≠ EAGAIN then
        TCPSession.onTunnelDisconnected (BitVec.ofNat 8 errno) (s.onTunnel .destroyTunnel)
      else s
  | .received data =>
      if data = [] then TCPSession.onTunnelDisconnected 0 (s.onTunnel .destroyTunnel)
      else onTunnel .touch (TCPSession.onTunnelDataBack data s.noteConnected)

def onWritable (s : DirectSession) : DirectSession := TCPSession.onTunnelWritable s.noteConnected

/-- The client is told before the socket is closed here. -/
def onException (error : Int) (s : DirectSession) : DirectSession :=
  onTunnel .destroyTunnel (TCPSession.onTunnelDisconnected (BitVec.ofInt 8 error) s)

def onPeriodicallyCheck (s : DirectSession) : DirectSession :=
  if s.mTunnel.mLastTime < s.mTunnel.now then
    TCPSession.onTunnelDisconnected 0 (s.onTunnel .destroyTunnel)
  else s

inductive Event where
  | accept (ip : Packet)
  /-- What `read` answers on the socket of the tunnel. -/
  | readable (outcome : Served.ReadOutcome)
  | writable
  | exception (error : Int)
  | check
  /-- `Router::onWritable` has written `n` bytes of the `i`-th segment of `mBackQueue`. -/
  | written (i n : Nat)
  /-- A call of others on the reactor. -/
  | reactor (call : EpollReactor.Call)
  /-- Time passes, the random generator is used, and the socket buffer of the kernel changes. -/
  | environment (now : Nat) (rand : U32) (sockBufferSize : U32)

/-- The handlers are called for the socket of the tunnel as long as it is open. -/
def whileOpen (s s' : DirectSession) : Option DirectSession :=
  if 0 ≤ s.mTunnel.mSocket then some s' else none

-- `none`: a loop that does not come back, a callback for a closed socket, more bytes than were asked
-- for, or a call of others on the socket of the tunnel.
def step (s : DirectSession) : Event → Option DirectSession
  | .accept ip => TCPSession.accept ip s
  | .readable (.error errno) => s.whileOpen (s.onReadable (.error errno))
  | .readable (.received data) =>
      if data.length ≤ SHARED_BUFFER_SIZE then s.whileOpen (s.onReadable (.received data)) else none
  | .writable => s.whileOpen s.onWritable
  | .exception error => s.whileOpen (s.onException error)
  | .check => s.whileOpen s.onPeriodicallyCheck
  | .written i n => TCPSession.step s (.written i n)
  | .reactor call =>
      if call.target = s.mTunnel.mSocket then none
      else some (s.onTunnel fun t => { t with reactor := call.run t.reactor })
  | .environment now rand sockBufferSize =>
      some { s with
        now := now
        rand := rand
        mTunnel := { s.mTunnel with now := now, sockBufferSize := sockBufferSize } }

end DirectSession

end NetCore
