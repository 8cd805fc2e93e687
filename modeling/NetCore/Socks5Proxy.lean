import NetCore.Cipher
import NetCore.IPAdpt
import NetCore.ITunnel
import NetCore.Lib.Run
import NetCore.Segment

/-!
# `Socks5Proxy`: a tunnel through a proxy

The proxy and the client it calls back make one state.  What the proxy calls on its client may call
the proxy again, so a client is a state `γ` with functions on both; it reaches the proxy through
`ITunnel` only, and this is a law of the class.  The temporary buffer is no part of the state: every
function reads from it only what it has just put there.
-/

namespace NetCore

def SOCKS5_SHARE_BUFFER_SZ : Nat := MAX_PARCEL_SIZE
def MAX_SOCKS5_PROXY_SEND_BUFFER : Nat := 1 <<< 18

/-- The states `S_INIT` to `S_FAILED` of `Socks5`. -/
inductive S5State where
  | init
  | greet
  | verify
  | connect
  | trans
  | ended
  | failed
deriving DecidableEq

def VERIFY_NONE : U8 := 0
def VERIFY_ACCOUNT : U8 := 2

/-- The keys of `Settings` the handshake reads; a string without its final zero, `none` for the
    default `NULL`. -/
structure Settings where
  verifyMethod : U32
  username : Option Bytes
  password : Option Bytes

inductive S5Message where
  | greet
  | account
  | connect
deriving DecidableEq

/-- The queues of `encryptAndQueue`; a message of the handshake goes to `mSocks5`, payload to
    `mOutQueue`. -/
inductive ProxyQueue where
  | socks5 (message : S5Message)
  | out
deriving DecidableEq

inductive ProxyPoint where
  /-- `encryptAndQueue` has queued `data`. -/
  | queued (queue : ProxyQueue) (data : Bytes)
  /-- The socket has taken `data`. -/
  | wrote (data : Bytes)
  /-- `onReadable` looks at a decrypted message. -/
  | handled (data : Bytes)
  | switched (old new : S5State)
  /-- The argument of `mClient->onTunnelDataBack`. -/
  | dataBack (data : Bytes)
deriving DecidableEq

def ProxyPoint.passedBack : ProxyPoint → Bytes
  | .dataBack data => data
  | _ => []

abbrev DecryptBuffer := { segment : Segment // segment.capacity = MAX_PARCEL_SIZE <<< 2 }

namespace DecryptBuffer

def flip (buffer : DecryptBuffer) : DecryptBuffer :=
  ⟨buffer.val.flip, buffer.val.capacity_flip.trans buffer.property⟩

def write (buffer : DecryptBuffer) (data : Bytes) : DecryptBuffer :=
  ⟨buffer.val.write data, (buffer.val.capacity_write data).trans buffer.property⟩

def consume (buffer : DecryptBuffer) (n : Nat) : DecryptBuffer :=
  ⟨buffer.val.consume n, (buffer.val.capacity_consume n).trans buffer.property⟩

end DecryptBuffer

structure Socks5Proxy where
  mAlive : Bool
  mConnected : Bool
  /-- The 16 bytes of the union. -/
  mDestAddr : Bytes
  mDestPort : U16
  mProtocol : U8
  mDestIPVer : U8
  mS5State : S5State
  mPayloadDataBack : U32
  mBufferedSize : U32
  mSocks5 : List Segment
  mOutQueue : List Segment
  mDecryptBuffer : DecryptBuffer
  mSocket : Int
  /-- `mReactor != NULL`; the reactor itself outlives the proxy. -/
  hasReactor : Bool
  reactor : EpollReactor
  /-- The address under which the reactor knows this proxy. -/
  handler : Nat
  settings : Settings
  /-- `Cipher::get()`. -/
  cipher : Cipher
  /-- What the calls of `encrypt` still to come draw. -/
  draws : Nat → Draws
  /-- The answers of the kernel to the `send` calls still to come. -/
  sends : Nat → SendOutcome
  trace : List ProxyPoint

namespace Socks5Proxy

def emit (point : ProxyPoint) (p : Socks5Proxy) : Socks5Proxy := { p with trace := p.trace ++ [point] }

/-- The bytes passed to `mClient->onTunnelDataBack`, call after call. -/
def delivered (p : Socks5Proxy) : Bytes := p.trace.flatMap ProxyPoint.passedBack

def withReactor (f : EpollReactor → EpollReactor) (p : Socks5Proxy) : Socks5Proxy :=
  if p.hasReactor then { p with reactor := f p.reactor } else p

/-! ## Calls from the client -/

def getAvailableBufferSize (p : Socks5Proxy) : U32 :=
  let max := BitVec.ofNat 32 MAX_SOCKS5_PROXY_SEND_BUFFER
  if !p.mAlive then 0
  else if max < p.mBufferedSize then 0
  else max - p.mBufferedSize

/-- The interests of the socket change only while payload is passed on. -/
def whileTrans (f : EpollReactor → EpollReactor) (p : Socks5Proxy) : Socks5Proxy :=
  if p.mAlive ∧ p.mS5State = .trans then p.withReactor f else p

def requestSendData (p : Socks5Proxy) : Socks5Proxy :=
  p.whileTrans fun r => (r.addEvent p.mSocket evWRITE p.handler 0).2

def pauseSendData (p : Socks5Proxy) : Socks5Proxy :=
  p.whileTrans fun r => (r.delEvent p.mSocket evWRITE).2

def pauseReceiveData (p : Socks5Proxy) : Socks5Proxy :=
  p.whileTrans fun r => (r.delEvent p.mSocket evREAD).2

def resumeReceiveData (p : Socks5Proxy) : Socks5Proxy :=
  p.whileTrans fun r => (r.addEvent p.mSocket evREAD p.handler 0).2

/-- `SAFE_CLOSE_SOCKET` drops the registration, then both handles.  What is buffered stays. -/
def destroyTunnel (p : Socks5Proxy) : Socks5Proxy :=
  let p := if 0 ≤ p.mSocket then p.withReactor fun r => (r.delEvent p.mSocket evALL).2 else p
  { p with mConnected := false, mAlive := false, mSocket := -1, hasReactor := false }

def push (segment : Segment) (p : Socks5Proxy) : ProxyQueue → Socks5Proxy
  | .socks5 _ => { p with mSocks5 := p.mSocks5 ++ [segment] }
  | .out => { p with mOutQueue := p.mOutQueue ++ [segment] }

/-- `encryptAndQueue`: how much of `data` it took, the proxy. -/
def encryptAndQueue (queue : ProxyQueue) (data : Bytes) (p : Socks5Proxy) : Nat × Socks5Proxy :=
  let r := Cipher.encrypt (p.draws 0) data (BitVec.ofNat 32 SOCKS5_SHARE_BUFFER_SZ) p.cipher
  let p := { p with cipher := r.cipher, draws := fun n => p.draws (n + 1) }
  if r.out = [] then (0, p)
  else
    let segment := (Segment.new r.out.length).write r.out
    let p := (p.push segment queue).withReactor fun reactor =>
      (reactor.addEvent p.mSocket evWRITE p.handler 0).2
    let taken := data.length - r.origin.length
    (taken,
      emit (.queued queue (data.take taken))
        { p with mBufferedSize := p.mBufferedSize + BitVec.ofNat 32 r.out.length })

def sendData (p : Socks5Proxy) (data : Bytes) (_more : Bool) : SendResult Socks5Proxy :=
  if !p.mAlive then .sent 0 p
  else if p.getAvailableBufferSize.toNat < data.length then .sent 0 p
  else .sent (p.encryptAndQueue .out data).1 (p.encryptAndQueue .out data).2

theorem sendData_le {p p' : Socks5Proxy} {data : Bytes} {more : Bool} {s : Nat}
    (h : p.sendData data more = .sent s p') : s ≤ data.length := by
  unfold sendData at h
  split at h
  · cases h
    exact Nat.zero_le _
  · split at h
    · cases h
      exact Nat.zero_le _
    · cases h
      unfold encryptAndQueue
      simp only
      split
      · exact Nat.zero_le _
      · exact Nat.sub_le _ _

/-- `send` on a non-blocking stream socket: a byte at least, if there is one, and never more than
    there is. -/
def send (p : Socks5Proxy) (len : Nat) : SendOutcome × Socks5Proxy :=
  let p' := { p with sends := fun n => p.sends (n + 1) }
  match p.sends 0 with
  | .accepted n => (.accepted (min (max n 1) len), p')
  | .error errno => (.error errno, p')

/-- What the loop of `sendQueue` leaves: the queue, the bytes sent, the proxy. -/
structure SendQueueResult where
  queue : List Segment
  sent : Bytes
  proxy : Socks5Proxy

-- The loop of `sendQueue`.  Every round but the last takes a byte or a segment, which bounds
-- `fuel`.
def sendLoop : Nat → List Segment → Socks5Proxy → SendQueueResult
  | 0, queue, p => ⟨queue, [], p⟩
  | _, [], p => ⟨[], [], p⟩
  | fuel + 1, segment :: queue, p =>
      match p.send segment.size with
      | (.error _, p) => ⟨segment :: queue, [], p⟩
      | (.accepted s, p) =>
          let left := segment.consume s
          let r := sendLoop fuel (if left.size ≤ 0 then queue else left :: queue) p
          { r with sent := segment.readable.take s ++ r.sent }

def sendFuel (queue : List Segment) : Nat :=
  (queue.flatMap Segment.readable).length + queue.length

def closeWrite (p : Socks5Proxy) : Socks5Proxy :=
  p.withReactor fun r => (r.delEvent p.mSocket evWRITE).2

-- The end of `sendQueue`; with nothing sent the write event is closed.
def countSent (sent : Bytes) (p : Socks5Proxy) : Socks5Proxy :=
  if 0 < sent.length then
    { p with mBufferedSize := p.mBufferedSize - BitVec.ofNat 32 sent.length }
  else p.closeWrite

def sendSocks5 (p : Socks5Proxy) : Socks5Proxy :=
  let r := sendLoop (sendFuel p.mSocks5) p.mSocks5 p
  countSent r.sent (.emit (.wrote r.sent) { r.proxy with mSocks5 := r.queue })

def sendOut (p : Socks5Proxy) : Socks5Proxy :=
  let r := sendLoop (sendFuel p.mOutQueue) p.mOutQueue p
  countSent r.sent (.emit (.wrote r.sent) { r.proxy with mOutQueue := r.queue })

instance : ITunnel Socks5Proxy where
  isAlive := mAlive
  getAvailableBufferSize := getAvailableBufferSize
  -- a socket option, nothing the model keeps
  keepAlive := id
  requestSendData := requestSendData
  sendData := sendData
  pauseSendData := pauseSendData
  pauseReceiveData := pauseReceiveData
  resumeReceiveData := resumeReceiveData
  destroyTunnel := destroyTunnel
  sendData_le := sendData_le

end Socks5Proxy

/-- `ITunnelClient`, serving a tunnel `τ`. -/
class ITunnelClient (γ : Type) (τ : outParam Type) [ITunnel τ] where
  /-- No client calls its tunnel here. -/
  onTunnelConnected : γ → γ
  onTunnelDisconnected : U8 → γ → τ → γ × τ
  onTunnelWritable : γ → τ → Int × γ × τ
  onTunnelDataBack : Bytes → γ → τ → γ × τ
  disconnected_calls (reason : U8) (c : γ) (t : τ) : ITunnel.Calls t (onTunnelDisconnected reason c t).2
  writable_calls (c : γ) (t : τ) : ITunnel.Calls t (onTunnelWritable c t).2.2
  dataBack_calls (data : Bytes) (c : γ) (t : τ) : ITunnel.Calls t (onTunnelDataBack data c t).2

structure Served (γ : Type) where
  mClient : γ
  proxy : Socks5Proxy

namespace Served

variable {γ : Type} [ITunnelClient γ Socks5Proxy]

omit [ITunnelClient γ Socks5Proxy] in
def onProxy (f : Socks5Proxy → Socks5Proxy) (w : Served γ) : Served γ :=
  { w with proxy := f w.proxy }

omit [ITunnelClient γ Socks5Proxy] in
/-- A call of the client, which may change both. -/
def callBack (f : γ → Socks5Proxy → γ × Socks5Proxy) (w : Served γ) : Served γ :=
  match f w.mClient w.proxy with
  | (mClient, proxy) => ⟨mClient, proxy⟩

def switchS5State (state : S5State) (w : Served γ) : Served γ :=
  if w.proxy.mS5State = state then w
  else
    let w := w.onProxy fun p => .emit (.switched p.mS5State state) { p with mS5State := state }
    match state with
    | .trans => w.callBack fun c p => (ITunnelClient.onTunnelWritable c p).2
    | .failed => (w.callBack (ITunnelClient.onTunnelDisconnected 0)).onProxy .destroyTunnel
    | .ended => (w.callBack (ITunnelClient.onTunnelDisconnected 0)).onProxy .destroyTunnel
    | _ => w

/-! ## The handshake -/

/-- The bytes of the setting, lowest first. -/
def verifyBytes (vfms : U32) : Bytes := leBytes32 vfms

def containS5Verify (vfms : U32) (m : U8) : Bool := (verifyBytes vfms).contains m

/-- The methods `getS5VerifyMethods` writes to `out`. -/
def getS5VerifyMethods (settings : Settings) (len : Nat) : Bytes :=
  ((verifyBytes settings.verifyMethod).filter fun m => m != 0xFF#8).take len

/-- A segment of `size` bytes written piece after piece. -/
def message (size : Nat) (pieces : List Bytes) : Bytes :=
  (pieces.foldl Segment.write (Segment.new size)).readable

/-- Queue a message of the handshake: what `encryptAndQueue` returned. -/
def sendS5 (kind : S5Message) (data : Bytes) (w : Served γ) : Nat × Served γ :=
  match w.proxy.encryptAndQueue (.socks5 kind) data with
  | (r, proxy) => (r, { w with proxy := proxy })

def sendS5Greet (w : Served γ) : Nat × Served γ :=
  let verifyMethods := getS5VerifyMethods w.proxy.settings 4
  w.sendS5 .greet (message 64 [[5, BitVec.ofNat 8 verifyMethods.length] ++ verifyMethods])

def sendS5Connect (w : Served γ) : Nat × Served γ :=
  let p := w.proxy
  let address :=
    if p.mDestIPVer = 4 then [[0x01], p.mDestAddr.take 4] else [[0x04], p.mDestAddr.take 16]
  w.sendS5 .connect <| message 32 <|
    [[0x05], [if p.mProtocol = protoTCP then 0x01 else 0x03], [0x00]] ++ address ++
      [leBytes16 p.mDestPort]

def sendS5Account (w : Served γ) : Nat × Served γ :=
  match w.proxy.settings.username, w.proxy.settings.password with
  | some user, some password =>
      let userLen := BitVec.ofNat 8 user.length
      let passwordLen := BitVec.ofNat 8 password.length
      w.sendS5 .account (message (userLen.toNat + passwordLen.toNat + 10)
        [[0x05], [userLen], user.take userLen.toNat, [passwordLen], password.take passwordLen.toNat])
  -- nothing is sent, and 1 is returned
  | _, _ => (1, w)

def handleS5GreetBack (data : Bytes) (w : Served γ) : Served γ :=
  if data.length ≠ 2 then w.switchS5State .failed
  else if byteAt data 0 = 0x05 ∧ containS5Verify w.proxy.settings.verifyMethod (byteAt data 1) then
    if byteAt data 1 = VERIFY_NONE then w.sendS5Connect.2.switchS5State .connect
    else if byteAt data 1 = VERIFY_ACCOUNT then
      match w.sendS5Account with
      | (0, w) => w.switchS5State .failed
      | (_, w) => w.switchS5State .verify
    else w
  else w.switchS5State .failed

def handleS5VerifyBack (data : Bytes) (w : Served γ) : Served γ :=
  if data.length ≠ 2 then w.switchS5State .failed
  else if byteAt data 0 ≠ 0x05 then w.switchS5State .failed
  else if byteAt data 1 ≠ 0x00 then w.switchS5State .failed
  else w.sendS5Connect.2.switchS5State .connect

/-- The address in the reply is only logged. -/
def handleS5ConnBack (data : Bytes) (w : Served γ) : Served γ :=
  if data.length < 4 then w.switchS5State .failed
  else if byteAt data 0 ≠ 0x05 then w.switchS5State .failed
  else if byteAt data 1 ≠ 0x00 then w.switchS5State .failed
  else w.switchS5State .trans

/-! ## Reading from the proxy -/

-- The `S_TRANS` branch of `onReadable`.
def passBack (data : Bytes) (w : Served γ) : Served γ :=
  let w := w.onProxy fun p =>
    .emit (.dataBack data)
      { p with mPayloadDataBack := p.mPayloadDataBack + BitVec.ofNat 32 data.length }
  w.callBack (ITunnelClient.onTunnelDataBack data)

-- The `switch` of `onReadable`.
def handle (data : Bytes) (w : Served γ) : Served γ :=
  let w := w.onProxy (.emit (.handled data))
  match w.proxy.mS5State with
  | .init => w
  | .greet => w.handleS5GreetBack data
  | .verify => w.handleS5VerifyBack data
  | .connect => w.handleS5ConnBack data
  | .trans => w.passBack data
  | .ended => w.switchS5State .failed
  | .failed => w.switchS5State .failed

inductive Round (γ : Type) where
  /-- `decrypt` leaves its buffers, or it does not return. -/
  | fault
  /-- Nothing has been decrypted: `return`. -/
  | done (w : Served γ)
  /-- A message for the `switch`. -/
  | next (data : Bytes) (w : Served γ)

/-- `decrypt` the front of the buffer and `consume` what it has taken. -/
def decryptBuffered (w : Served γ) : Round γ :=
  let buffered := w.proxy.mDecryptBuffer.val.readable
  let size :=
    if SOCKS5_SHARE_BUFFER_SZ < buffered.length then SOCKS5_SHARE_BUFFER_SZ else buffered.length
  let r := Cipher.decrypt (buffered.take size) (BitVec.ofNat 32 SOCKS5_SHARE_BUFFER_SZ)
    w.proxy.cipher
  let w := w.onProxy fun p => { p with cipher := r.cipher }
  match r.stop with
  | .returned length =>
      if length.toInt ≤ 0 then .done w
      else
        .next r.out <| w.onProxy fun p =>
          { p with mDecryptBuffer := p.mDecryptBuffer.consume (size - r.data.length) }
  | _ => .fault

-- The loop of `onReadable`.  Every round but the last consumes a byte, so `fuel` is one more than
-- the bytes buffered.
def receiveLoop : Nat → Served γ → Option (Served γ)
  | 0, _ => none
  | fuel + 1, w =>
      match w.decryptBuffered with
      | .fault => none
      | .done w => some w
      | .next data w => receiveLoop fuel (w.handle data)

/-- What `read` answers: the bytes it has put into the temporary buffer, none at the end of the
    stream. -/
inductive ReadOutcome where
  | received (data : Bytes)
  | error (errno : Nat)

def noteConnected (w : Served γ) : Served γ :=
  if w.proxy.mConnected then w
  else
    ⟨ITunnelClient.onTunnelConnected w.mClient, { w.proxy with mConnected := true }⟩

/-- `flip`, when what has been read does not fit behind the buffered bytes. -/
def makeRoom (length : Nat) (p : Socks5Proxy) : Socks5Proxy :=
  if p.mDecryptBuffer.val.remain < length then { p with mDecryptBuffer := p.mDecryptBuffer.flip }
  else p

def buffer (data : Bytes) (w : Served γ) : Served γ :=
  w.onProxy fun p => { p with mDecryptBuffer := p.mDecryptBuffer.write data }

def onReadable (outcome : ReadOutcome) (w : Served γ) : Option (Served γ) :=
  match outcome with
  | .error errno =>
      if errno ≠ EINTR ∧ errno ≠ EAGAIN then some (w.switchS5State .failed) else some w
  | .received data =>
      if data = [] then some (w.switchS5State .ended)
      else
        let w := w.noteConnected.onProxy (makeRoom data.length)
        if w.proxy.mDecryptBuffer.val.remain < data.length then some (w.switchS5State .failed)
        else
          let w := w.buffer data
          receiveLoop (w.proxy.mDecryptBuffer.val.size + 1) w

def onWritable (w : Served γ) : Served γ :=
  let w := w.noteConnected
  match w.proxy.mS5State with
  | .trans =>
      if w.proxy.mOutQueue ≠ [] then w.onProxy .sendOut
      else
        match ITunnelClient.onTunnelWritable w.mClient w.proxy with
        | (s, c, p) => if s ≤ 0 then ⟨c, p.closeWrite⟩ else ⟨c, p⟩
  | .init => w.sendS5Greet.2.switchS5State .greet
  | _ => if w.proxy.mSocks5 = [] then w.onProxy .closeWrite else w.onProxy .sendSocks5

def onException (_error : Int) (w : Served γ) : Served γ := w.switchS5State .ended

/-! ## Runs -/

/-- Something the client does to its tunnel by itself. -/
structure ClientCall (γ : Type) where
  call : γ → Socks5Proxy → γ × Socks5Proxy
  calls (c : γ) (p : Socks5Proxy) : ITunnel.Calls p (call c p).2

inductive Event (γ : Type) where
  | readable (outcome : ReadOutcome)
  | writable
  | exception (error : Int)
  | client (call : ClientCall γ)
  /-- The settings change, others use `Cipher::get()`. -/
  | environment (settings : Settings) (cipher : Cipher)

def step (w : Served γ) : Event γ → Option (Served γ)
  | .readable outcome => w.onReadable outcome
  | .writable => some w.onWritable
  | .exception error => some (w.onException error)
  | .client c => some (w.callBack c.call)
  | .environment settings cipher =>
      some (w.onProxy fun p => { p with settings := settings, cipher := cipher })

def readChunk (w : Served γ) (chunk : Bytes) : Option (Served γ) := onReadable (.received chunk) w

def readChunks (chunks : List Bytes) (w : Served γ) : Option (Served γ) :=
  Lib.run readChunk w chunks

end Served

end NetCore
