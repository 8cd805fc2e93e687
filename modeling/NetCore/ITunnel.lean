import NetCore.EpollReactor

/-!
# Tunnels

`ITunnel` is what a session knows of the connection that carries its data: a state `τ` it can only
change through these calls.  A call by which a tunnel calls its client back returns that fact, and
the client's part is run by the session.  `TCPTunnel` is the direct connection.
-/

namespace NetCore

/-- What `sendData` returns: a count, or a negative number after
    `mClient->onTunnelDisconnected(reason)`. -/
inductive SendResult (τ : Type) where
  | sent (s : Nat) (tunnel : τ)
  | failed (reason : U8) (tunnel : τ)

class ITunnel (τ : Type) where
  isAlive : τ → Bool
  getAvailableBufferSize : τ → U32
  keepAlive : τ → τ
  requestSendData : τ → τ
  sendData : τ → Bytes → Bool → SendResult τ
  pauseSendData : τ → τ
  pauseReceiveData : τ → τ
  resumeReceiveData : τ → τ
  destroyTunnel : τ → τ
  /-- "return the size of data be sent or queued": never more than was handed over. -/
  sendData_le {t t' : τ} {data : Bytes} {more : Bool} {s : Nat} :
    sendData t data more = .sent s t' → s ≤ data.length

/-- `t'` is reached from `t` by calls a client can make. -/
inductive ITunnel.Calls {τ : Type} [ITunnel τ] (t : τ) : τ → Prop where
  | refl : Calls t t
  | keepAlive {t' : τ} : Calls t t' → Calls t (keepAlive t')
  | requestSendData {t' : τ} : Calls t t' → Calls t (requestSendData t')
  | sent {t' t'' : τ} {data : Bytes} {more : Bool} {s : Nat} :
      Calls t t' → sendData t' data more = .sent s t'' → Calls t t''
  | failed {t' t'' : τ} {data : Bytes} {more : Bool} {reason : U8} :
      Calls t t' → sendData t' data more = .failed reason t'' → Calls t t''
  | pauseSendData {t' : τ} : Calls t t' → Calls t (pauseSendData t')
  | pauseReceiveData {t' : τ} : Calls t t' → Calls t (pauseReceiveData t')
  | resumeReceiveData {t' : τ} : Calls t t' → Calls t (resumeReceiveData t')
  | destroyTunnel {t' : τ} : Calls t t' → Calls t (destroyTunnel t')

/-- Error numbers the code tells apart. -/
def EINTR : Nat := 4
def EAGAIN : Nat := 11

/-- What the kernel answers to one `send`. -/
inductive SendOutcome where
  | accepted (n : Nat)
  | error (errno : Nat)
deriving DecidableEq

structure TCPTunnel where
  mAlive : Bool
  mConnected : Bool
  mLastTime : Nat
  mSocket : Int
  /-- `mReactor != NULL`; the reactor itself outlives the tunnel. -/
  hasReactor : Bool
  reactor : EpollReactor
  /-- The address under which the reactor knows this tunnel. -/
  handler : Nat
  /-- `time(NULL)`. -/
  now : Nat
  /-- The answers of the kernel to the `send` calls still to come. -/
  sends : Nat → SendOutcome
  /-- `getSockBufferSize(mSocket)` of an open socket. -/
  sockBufferSize : U32

namespace TCPTunnel

def TIMEOUT : Nat := 25 * 1000

/-- A tunnel call that touches the reactor does so only with an open socket. -/
def withReactor (f : EpollReactor → EpollReactor) (t : TCPTunnel) : TCPTunnel :=
  if 0 ≤ t.mSocket ∧ t.hasReactor then { t with reactor := f t.reactor } else t

def getAvailableBufferSize (t : TCPTunnel) : U32 :=
  if t.mSocket < 0 then 0 else t.sockBufferSize

def requestSendData (t : TCPTunnel) : TCPTunnel :=
  t.withReactor fun r => (r.addEvent t.mSocket evWRITE t.handler 0).2

def pauseSendData (t : TCPTunnel) : TCPTunnel :=
  t.withReactor fun r => (r.delEvent t.mSocket evWRITE).2

def pauseReceiveData (t : TCPTunnel) : TCPTunnel :=
  t.withReactor fun r => (r.delEvent t.mSocket evREAD).2

def resumeReceiveData (t : TCPTunnel) : TCPTunnel :=
  t.withReactor fun r => (r.addEvent t.mSocket evREAD t.handler 0).2

/-- `SAFE_CLOSE_SOCKET` drops the registration, then both handles. -/
def destroyTunnel (t : TCPTunnel) : TCPTunnel :=
  { t.withReactor fun r => (r.delEvent t.mSocket evALL).2 with
    mAlive := false, mConnected := false, mSocket := -1, hasReactor := false }

/-- `send` on a non-blocking socket: the next answer, never more than there is. -/
def send (t : TCPTunnel) (len : Nat) : SendOutcome × TCPTunnel :=
  let t' := { t with sends := fun k => t.sends (k + 1) }
  match t.sends 0 with
  | .accepted n => (.accepted (min n len), t')
  | .error errno => (.error errno, t')

/-- `more` only chooses a flag of `send`. -/
def sendData (t : TCPTunnel) (data : Bytes) (_more : Bool) : SendResult TCPTunnel :=
  if 0 ≤ t.mSocket then
    match t.send data.length with
    -- every error counts, EAGAIN and EINTR too
    | (.error errno, t') => .failed (BitVec.ofNat 8 errno) t'.destroyTunnel
    | (.accepted s, t') => .sent s { t' with mLastTime := t'.now + TIMEOUT }
  else .sent 0 t

theorem sendData_le {t t' : TCPTunnel} {data : Bytes} {more : Bool} {s : Nat}
    (h : t.sendData data more = .sent s t') : s ≤ data.length := by
  unfold sendData at h
  split at h
  · unfold send at h
    cases hsend : t.sends 0 with
    | accepted n =>
      simp only [hsend, SendResult.sent.injEq] at h
      omega
    | error errno => simp [hsend] at h
  · simp only [SendResult.sent.injEq] at h
    omega

instance : ITunnel TCPTunnel where
  isAlive := mAlive
  getAvailableBufferSize := getAvailableBufferSize
  -- a socket option, nothing the model keeps
  keepAlive := id
  requestSendData := requestSendData
  sendData := sendData
  pauseSendData := pauseSendData
  pauseReceiveData := pauseReceiveData
  resumeReceiveData := resumeReceiveData
  destroyTunnel := destroyTunnel
  sendData_le := sendData_le

end TCPTunnel

end NetCore
