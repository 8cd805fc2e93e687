import NetCore.UDPSession

/-!
# A `UDPSession` between its two sides

The session with its `mTunnel`, and all that can be called of it: the packets of its application, what
its socket does if it has one, what its tunnel does if it has one, and the periodic check.  The tunnel
is any tunnel.
-/

namespace NetCore

structure UDPLink (τ : Type) where
  session : UDPSession
  /-- `none` for `NULL`: a direct session. -/
  mTunnel : Option τ

namespace UDPLink

variable {τ : Type}

inductive Event (τ : Type) where
  | accept (ip : Datagram)
  /-- `none` for a failed `read`. -/
  | readable (outcome : Option Bytes)
  | writable
  | exception
  | periodicCheck
  | tunnelDataBack (data : Bytes)
  | tunnelWritable
  | tunnelDisconnected (reason : U8)
  /-- Time passes, and the kernel, the reactor and the tunnel change on their own. -/
  | environment (elapsed : Nat) (sends : Nat → SendOutcome) (reactor : EpollReactor) (tunnel : τ → τ)

def onSocket (f : UDPSession → UDPSession) (w : UDPLink τ) : Option (UDPLink τ) :=
  if w.mTunnel.isNone then some { w with session := f w.session } else none

def onTunnel (f : UDPSession → τ → UDPSession × τ) (w : UDPLink τ) : Option (UDPLink τ) :=
  w.mTunnel.map fun tunnel => ⟨(f w.session tunnel).1, some (f w.session tunnel).2⟩

variable [ITunnel τ]

-- `none`: a call that cannot be, or a loop that does not come back.
def step (w : UDPLink τ) : Event τ → Option (UDPLink τ)
  | .accept ip => some ⟨(w.session.accept ip w.mTunnel).1, (w.session.accept ip w.mTunnel).2⟩
  | .readable outcome => w.onSocket (.onReadable outcome)
  | .writable => w.onSocket .onWritable
  | .exception => w.onSocket .onException
  | .periodicCheck => some { w with session := w.session.onPeriodicallyCheck }
  | .tunnelDataBack data => w.onTunnel (UDPSession.onTunnelDataBack data)
  | .tunnelWritable =>
      (w.onTunnel fun s tunnel => (s.onTunnelWritable tunnel).2).filter fun w => !w.session.spinning
  | .tunnelDisconnected reason =>
      w.onTunnel fun s tunnel => (s.onTunnelDisconnected reason, tunnel)
  | .environment elapsed sends reactor tunnel =>
      some
        ⟨{ w.session with now := w.session.now + elapsed, sends := sends, reactor := reactor },
          w.mTunnel.map tunnel⟩

omit [ITunnel τ] in
theorem onSocket_eq_some {f : UDPSession → UDPSession} {w w' : UDPLink τ}
    (h : w.onSocket f = some w') : w.mTunnel = none ∧ w' = ⟨f w.session, none⟩ := by
  unfold onSocket at h
  split at h
  next hnone =>
    cases h
    have hdirect := Option.isNone_iff_eq_none.mp hnone
    exact ⟨hdirect, by rw [hdirect]⟩
  next => cases h

omit [ITunnel τ] in
theorem onTunnel_eq_some {f : UDPSession → τ → UDPSession × τ} {w w' : UDPLink τ}
    (h : w.onTunnel f = some w') :
    ∃ tunnel, w.mTunnel = some tunnel ∧
      w' = ⟨(f w.session tunnel).1, some (f w.session tunnel).2⟩ := by
  obtain ⟨tunnel, htunnel, rfl⟩ := Option.map_eq_some_iff.mp h
  exact ⟨tunnel, htunnel, rfl⟩

def sampleSocket : UDPLink TCPTunnel where
  session :=
    { mSrcPort := 1000
      mDestPort := 53
      mSrcAddr := 1
      mDestAddr := 2
      mCtrlType := 0
      mAlive := true
      mSocket := 7
      reactor := ⟨3, ∅, [], ∅, fun _ _ => false⟩
      handler := 2
      now := 0
      sends := fun _ => .accepted 0
      rounds := 8 }
  mTunnel := none

theorem octet_fits (b : U8) : 28 + [b].length ≤ 65535 := Nat.le_of_ble_eq_true rfl

theorem void_fits : 28 + ([] : Bytes).length ≤ 65535 := Nat.le_of_ble_eq_true rfl

def sampleOctet (b : U8) : Datagram := ⟨[b], octet_fits b⟩

def sampleVoid : Datagram := ⟨[], void_fits⟩

end UDPLink

end NetCore
