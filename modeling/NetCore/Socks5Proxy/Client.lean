import NetCore.Socks5Proxy.Message

/-!
# What the proxy does to its client

A proxy changes its client through the four calls of `ITunnelClient` and in no other way.  So a
relation that the calls keep is kept by every event of the proxy.
-/

namespace NetCore

variable {γ : Type} [ITunnelClient γ Socks5Proxy]

structure ClientRelation (R : γ → γ → Prop) : Prop where
  refl (c : γ) : R c c
  trans {c c' c'' : γ} : R c c' → R c' c'' → R c c''
  connected (c : γ) : R c (ITunnelClient.onTunnelConnected c)
  disconnected (reason : U8) (c : γ) (p : Socks5Proxy) :
    R c (ITunnelClient.onTunnelDisconnected reason c p).1
  writable (c : γ) (p : Socks5Proxy) : R c (ITunnelClient.onTunnelWritable c p).2.1
  dataBack (data : Bytes) (c : γ) (p : Socks5Proxy) :
    R c (ITunnelClient.onTunnelDataBack data c p).1

namespace ClientRelation

variable {R : γ → γ → Prop} {w w' : Served γ}

theorem switchS5State (h : ClientRelation R) (state : S5State) (w : Served γ) :
    R w.mClient (w.switchS5State state).mClient := by
  unfold Served.switchS5State
  split
  · exact h.refl _
  · cases state with
    | trans => exact h.writable _ _
    | failed => exact h.disconnected _ _ _
    | ended => exact h.disconnected _ _ _
    | _ => exact h.refl _

-- A message of the handshake does not reach the client, the change of state behind it may.
theorem sentThen (h : ClientRelation R) {kind : S5Message} {data : Bytes} {state : S5State}
    (w : Served γ) : R w.mClient ((w.sendS5 kind data).2.switchS5State state).mClient :=
  h.switchS5State state (w.sendS5 kind data).2

theorem noteConnected (h : ClientRelation R) (w : Served γ) :
    R w.mClient w.noteConnected.mClient := by
  unfold Served.noteConnected
  split
  · exact h.refl _
  · exact h.connected _

-- Between two reads the client changes as the relation says.
theorem reads (h : ClientRelation R) :
    ReadRelation fun w w' : Served γ => R w.mClient w'.mClient where
  refl w := h.refl w.mClient
  trans := h.trans
  handled _ w := h.refl w.mClient
  ends w _ := h.switchS5State _ w
  connect _ := h.sentThen _
  account {w state} _ _ := by
    have haccount : w.sendS5Account.2.mClient = w.mClient := by
      unfold Served.sendS5Account
      split <;> rfl
    rw [← haccount]
    exact h.switchS5State state w.sendS5Account.2
  established {w} _ := h.switchS5State .trans w
  passBack data w _ := h.dataBack data _ _
  cipher _ w := h.refl w.mClient
  buffer _ w := h.refl w.mClient
  noteConnected := h.noteConnected

theorem onReadable (h : ClientRelation R) {outcome : Served.ReadOutcome}
    (hread : w.onReadable outcome = some w') : R w.mClient w'.mClient := h.reads.onReadable hread

theorem onWritable (h : ClientRelation R) (w : Served γ) : R w.mClient w.onWritable.mClient := by
  refine h.trans (h.noteConnected w) ?_
  unfold Served.onWritable
  simp only
  split
  · split
    · exact h.refl _
    · have hcalled := h.writable w.noteConnected.mClient w.noteConnected.proxy
      split <;> exact hcalled
  · exact h.sentThen _
  · split <;> exact h.refl _

end ClientRelation

end NetCore
