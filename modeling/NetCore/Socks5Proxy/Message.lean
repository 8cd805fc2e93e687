import NetCore.Socks5Proxy

/-!
# What a message makes of a proxy

Whatever a message of the proxy says, its handler ends in one of a few changes of state.  A relation
that these keep is kept by every message, and with the bookkeeping of the buffer by every read.
-/

namespace NetCore

-- The messages of the handshake that may have been queued in a state.
def S5State.handshakeSent : S5State → Nat
  | .init => 0
  | .greet => 1
  | .verify => 2
  | _ => 3

theorem S5State.handshakeSent_le (state : S5State) : state.handshakeSent ≤ 3 := by
  cases state <;> decide

variable {γ : Type} [ITunnelClient γ Socks5Proxy]

-- A relation kept by everything the `switch` of `onReadable` does.
structure MessageRelation (R : Served γ → Served γ → Prop) : Prop where
  refl (w : Served γ) : R w w
  trans {w w' w'' : Served γ} : R w w' → R w' w'' → R w w''
  handled (data : Bytes) (w : Served γ) : R w (w.onProxy (.emit (.handled data)))
  ends {state : S5State} (w : Served γ) :
    state = .ended ∨ state = .failed → R w (w.switchS5State state)
  connect {w : Served γ} : w.proxy.mS5State = .greet ∨ w.proxy.mS5State = .verify →
    R w (w.sendS5Connect.2.switchS5State .connect)
  account {w : Served γ} {state : S5State} : w.proxy.mS5State = .greet →
    state = .verify ∨ state = .failed → R w (w.sendS5Account.2.switchS5State state)
  established {w : Served γ} : w.proxy.mS5State = .connect → R w (w.switchS5State .trans)
  passBack (data : Bytes) {w : Served γ} : w.proxy.mS5State = .trans → R w (w.passBack data)

namespace MessageRelation

variable {R : Served γ → Served γ → Prop} {w : Served γ}

theorem failed (h : MessageRelation R) (w : Served γ) : R w (w.switchS5State .failed) :=
  h.ends w (.inr rfl)

theorem handleS5GreetBack (h : MessageRelation R) (data : Bytes)
    (hstate : w.proxy.mS5State = .greet) : R w (w.handleS5GreetBack data) := by
  unfold Served.handleS5GreetBack
  split
  · exact h.failed w
  · split
    · split
      · exact h.connect (.inl hstate)
      · split
        · split
          next heq =>
            have hfailed := h.account hstate (.inr rfl)
            rw [heq] at hfailed
            exact hfailed
          next heq =>
            have hverify := h.account hstate (.inl rfl)
            rw [heq] at hverify
            exact hverify
        · exact h.refl w
    · exact h.failed w

theorem handleS5VerifyBack (h : MessageRelation R) (data : Bytes)
    (hstate : w.proxy.mS5State = .verify) : R w (w.handleS5VerifyBack data) := by
  unfold Served.handleS5VerifyBack
  split
  · exact h.failed w
  · split
    · exact h.failed w
    · split
      · exact h.failed w
      · exact h.connect (.inr hstate)

theorem handleS5ConnBack (h : MessageRelation R) (data : Bytes)
    (hstate : w.proxy.mS5State = .connect) : R w (w.handleS5ConnBack data) := by
  unfold Served.handleS5ConnBack
  split
  · exact h.failed w
  · split
    · exact h.failed w
    · split
      · exact h.failed w
      · exact h.established hstate

-- One message, in whatever state it arrives.
theorem handle (h : MessageRelation R) (data : Bytes) (w : Served γ) : R w (w.handle data) := by
  have hhandled := h.handled data w
  unfold Served.handle
  simp only
  split
  next => exact hhandled
  next hstate => exact h.trans hhandled (h.handleS5GreetBack data hstate)
  next hstate => exact h.trans hhandled (h.handleS5VerifyBack data hstate)
  next hstate => exact h.trans hhandled (h.handleS5ConnBack data hstate)
  next hstate => exact h.trans hhandled (h.passBack data hstate)
  next => exact h.trans hhandled (h.failed _)
  next => exact h.trans hhandled (h.failed _)

end MessageRelation

-- A relation that the buffer and the coders do not matter for, either.
structure ReadRelation (R : Served γ → Served γ → Prop) : Prop extends MessageRelation R where
  cipher (c : Cipher) (w : Served γ) : R w (w.onProxy fun p => { p with cipher := c })
  buffer (b : DecryptBuffer) (w : Served γ) : R w (w.onProxy fun p => { p with mDecryptBuffer := b })
  noteConnected (w : Served γ) : R w w.noteConnected

namespace ReadRelation

variable {R : Served γ → Served γ → Prop} {w w' : Served γ}

theorem decryptBuffered (h : ReadRelation R) {next : Served γ}
    (hround : w.decryptBuffered = .done next ∨ ∃ data, w.decryptBuffered = .next data next) :
    R w next := by
  have hconsumed (w : Served γ) (n : Nat) :
      R w (w.onProxy fun p => { p with mDecryptBuffer := p.mDecryptBuffer.consume n }) :=
    h.buffer (w.proxy.mDecryptBuffer.consume n) w
  unfold Served.decryptBuffered at hround
  simp only at hround
  split at hround
  · split at hround
    · rcases hround with hround | ⟨data, hround⟩ <;> cases hround
      exact h.cipher _ w
    · rcases hround with hround | ⟨data, hround⟩ <;> cases hround
      exact h.trans (h.cipher _ w) (hconsumed _ _)
  · rcases hround with hround | ⟨data, hround⟩ <;> cases hround

-- Round after round.
theorem receiveLoop (h : ReadRelation R) {fuel : Nat} (hloop : Served.receiveLoop fuel w = some w') :
    R w w' := by
  induction fuel generalizing w with
  | zero => cases hloop
  | succ fuel ih =>
    rw [Served.receiveLoop] at hloop
    cases hround : w.decryptBuffered with
    | fault =>
      rw [hround] at hloop
      cases hloop
    | done next =>
      rw [hround] at hloop
      cases hloop
      exact h.decryptBuffered (.inl hround)
    | next data next =>
      rw [hround] at hloop
      have hdecrypted := h.decryptBuffered (.inr ⟨data, hround⟩)
      exact h.trans hdecrypted (h.trans (h.handle data next) (ih hloop))

theorem onReadable (h : ReadRelation R) {outcome : Served.ReadOutcome}
    (hread : w.onReadable outcome = some w') : R w w' := by
  cases outcome with
  | error errno =>
    rw [Served.onReadable] at hread
    split at hread <;> cases hread
    · exact h.failed w
    · exact h.refl w
  | received data =>
    have hroom : R w.noteConnected (w.noteConnected.onProxy (Served.makeRoom data.length)) := by
      unfold Served.onProxy Served.makeRoom
      split
      · exact h.buffer _ _
      · exact h.refl _
    have hready := h.trans (h.noteConnected w) hroom
    rw [Served.onReadable] at hread
    split at hread
    · cases hread
      exact h.ends w (.inl rfl)
    · simp only at hread
      split at hread
      · cases hread
        exact h.trans hready (h.failed _)
      · have hbuffered (w : Served γ) : R w (w.buffer data) := h.buffer _ w
        exact h.trans hready (h.trans (hbuffered _) (h.receiveLoop hread))

end ReadRelation

end NetCore
