import NetCore.Socks5Proxy
import NetCore.TCPSession.Drain
import NetCore.TCPSession.TunnelCalls

/-!
# A session behind a proxy

The session is the client of its proxy, which makes the two one state: `joined` is the session with
the proxy in the place of its tunnel, and every callback runs on it.
-/

namespace NetCore

namespace TCPSession

def withTunnel {τ τ' : Type} (tunnel : τ') (s : TCPSession τ) : TCPSession τ' :=
  { s with mTunnel := tunnel }

theorem drainLoop_calls {τ : Type} [ITunnel τ] (fuel : Nat) (queue : List TCPDatagram) {t₀ t : τ}
    (h : ITunnel.Calls t₀ t) : ITunnel.Calls t₀ (drainLoop fuel queue t).tunnel := by
  induction fuel generalizing queue t with
  | zero => exact h
  | succ fuel ih =>
    cases queue with
    | nil => exact h
    | cons segment queue =>
      rw [drainLoop_cons]
      cases hsend : ITunnel.sendData t segment.readable (!segment.hasFlag PSH) with
      | failed reason t' => exact .failed h hsend
      | sent n t' =>
        simp only
        split
        · exact .sent h hsend
        · exact ih _ (.sent h hsend)

theorem onTunnelWritable_calls {τ : Type} [ITunnel τ] (s : TCPSession τ) :
    ITunnel.Calls s.mTunnel s.onTunnelWritable.mTunnel := by
  have hcount {t : TCPSession τ} (n : Nat) (h : ITunnel.Calls s.mTunnel t.mTunnel) :
      ITunnel.Calls s.mTunnel (t.countSent n).mTunnel := by
    unfold countSent
    split
    · exact h
    · exact .pauseSendData h
  have hdrained : ITunnel.Calls s.mTunnel s.drained.mTunnel := drainLoop_calls _ _ .refl
  unfold onTunnelWritable
  split
  · exact .pauseSendData .refl
  · simp only
    split
    · exact hcount _ ((calls_relation.rule _).onTunnelDisconnected _ hdrained)
    · exact hcount _ hdrained

def parted (s : TCPSession Socks5Proxy) : TCPSession Unit × Socks5Proxy :=
  (s.withTunnel (), s.mTunnel)

instance : ITunnelClient (TCPSession Unit) Socks5Proxy where
  onTunnelConnected := id
  onTunnelDisconnected reason s tunnel := ((s.withTunnel tunnel).onTunnelDisconnected reason).parted
  onTunnelWritable s tunnel :=
    ((BitVec.ofNat 32 (drain s.mForwardQueue tunnel).taken.length).toInt,
      (s.withTunnel tunnel).onTunnelWritable.parted)
  onTunnelDataBack data s tunnel := ((s.withTunnel tunnel).onTunnelDataBack data).parted
  disconnected_calls reason s tunnel :=
    (calls_relation.onTunnelDisconnected reason (s.withTunnel tunnel)).tunnel
  writable_calls s tunnel := (s.withTunnel tunnel).onTunnelWritable_calls
  dataBack_calls data s tunnel :=
    (calls_relation.onTunnelDataBack data (s.withTunnel tunnel)).tunnel

end TCPSession

/-- A session whose `mTunnel` is a proxy. -/
abbrev ProxiedSession := Served (TCPSession Unit)

namespace ProxiedSession

def joined (w : ProxiedSession) : TCPSession Socks5Proxy := w.mClient.withTunnel w.proxy

def ofSession (s : TCPSession Socks5Proxy) : ProxiedSession := ⟨s.withTunnel (), s.mTunnel⟩

@[simp] theorem joined_ofSession (s : TCPSession Socks5Proxy) : (ofSession s).joined = s := rfl

inductive Event where
  | accept (ip : Packet)
  /-- What `read` answers on the socket of the proxy. -/
  | readable (outcome : Served.ReadOutcome)
  | writable
  | exception (error : Int)
  /-- `Router::onWritable` has written `n` bytes of the `i`-th segment of `mBackQueue`. -/
  | written (i n : Nat)
  /-- A call of others on the reactor. -/
  | reactor (call : EpollReactor.Call)
  /-- Time passes, the random generator is used, the settings change, others use `Cipher::get()`. -/
  | environment (now : Nat) (rand : U32) (settings : Settings) (cipher : Cipher)

-- `none`: a loop that does not come back, or a call of others on the socket of the proxy.
def step (w : ProxiedSession) : Event → Option ProxiedSession
  | .accept ip => (w.joined.accept ip).map ofSession
  | .readable outcome => Served.onReadable outcome w
  | .writable => some (Served.onWritable w)
  | .exception error => some (Served.onException error w)
  | .written i n => (TCPSession.step w.joined (.written i n)).map ofSession
  | .reactor call =>
      if call.target = w.proxy.mSocket then none
      else some (Served.onProxy (fun p => { p with reactor := call.run p.reactor }) w)
  | .environment now rand settings cipher =>
      some ⟨{ w.mClient with now := now, rand := rand },
        { w.proxy with settings := settings, cipher := cipher }⟩

end ProxiedSession

end NetCore
