import NetCore.UDPSession.Link

/-!
# Relations between a UDP session and what a call makes of it

A `PartRelation` is kept by everything a session does with its queue and its socket, so by every call
but those that take a packet of the application or hand over one of the remote.
-/

namespace NetCore

namespace UDPSession

variable {R : UDPSession → UDPSession → Prop}

structure PartRelation (R : UDPSession → UDPSession → Prop) : Prop where
  refl (s) : R s s
  trans {s t u} : R s t → R t u → R s u
  reactor (f : EpollReactor → EpollReactor) (s) : R s (s.withReactor f)
  close (s) : R s s.close
  queue (s) (queue : List Segment) (sends : Nat → SendOutcome) (spinning : Bool) :
    R s { s with mOutBuffer := queue, sends := sends, spinning := spinning }
  count (ip : Datagram) (s) : R s (s.countAccepted ip)
  sent (n : Nat) (s) : R s (s.countSent n)

namespace PartRelation

-- What follows from a relation, piece by piece.
theorem weaken {R' : UDPSession → UDPSession → Prop} (h : PartRelation R) (refl : ∀ s, R' s s)
    (trans : ∀ {s t u}, R' s t → R' t u → R' s u) (weaker : ∀ {s t}, R s t → R' s t) :
    PartRelation R' where
  refl := refl
  trans := trans
  reactor f s := weaker (h.reactor f s)
  close s := weaker (h.close s)
  queue s queue sends spinning := weaker (h.queue s queue sends spinning)
  count ip s := weaker (h.count ip s)
  sent n s := weaker (h.sent n s)

theorem onWritable (h : PartRelation R) (s : UDPSession) : R s s.onWritable := by
  unfold UDPSession.onWritable
  split
  · exact h.reactor _ s
  · dsimp only
    exact h.trans (h.queue s _ _ s.spinning) (h.sent _ _)

theorem onPeriodicallyCheck (h : PartRelation R) (s : UDPSession) : R s s.onPeriodicallyCheck := by
  unfold UDPSession.onPeriodicallyCheck
  split
  · exact h.close s
  · exact h.refl s

-- `accept` on an open session, up to the time it notes at its end.
theorem accept {τ : Type} [ITunnel τ] (h : PartRelation R) (ip : Datagram) (tunnel : Option τ)
    {s : UDPSession} (halive : s.mAlive) : ∃ t, R s t ∧ (s.accept ip tunnel).1 = t.noteTime := by
  have hcounted := h.count ip s
  have hqueued (queue : List Segment) (s : UDPSession) : R s { s with mOutBuffer := queue } :=
    h.queue s queue s.sends s.spinning
  unfold UDPSession.accept
  rw [if_neg (by rw [halive]; exact Bool.true_eq_false.mp)]
  dsimp only
  split
  · split
    · exact ⟨_, h.trans hcounted (hqueued _ _), rfl⟩
    · exact ⟨_, h.trans (h.trans hcounted (hqueued _ _)) (h.reactor _ _), rfl⟩
  · exact ⟨_, hcounted, rfl⟩

theorem onTunnelWritable {τ : Type} [ITunnel τ] (h : PartRelation R) (s : UDPSession) (tunnel : τ) :
    R s (s.onTunnelWritable tunnel).2.1 := by
  unfold UDPSession.onTunnelWritable
  split
  · exact h.refl s
  · dsimp only
    refine h.trans ?_ (h.sent _ _)
    have hqueued := h.queue s (tunnelLoop s.rounds s.mOutBuffer tunnel).queue s.sends
      (s.spinning || (tunnelLoop s.rounds s.mOutBuffer tunnel).spinning)
    split
    · exact h.trans hqueued (h.close _)
    · exact hqueued

end PartRelation

-- A closed session does not take a packet.
theorem accept_closed {τ : Type} [ITunnel τ] (ip : Datagram) (tunnel : Option τ) {s : UDPSession}
    (hclosed : s.mAlive = false) : s.accept ip tunnel = (s, tunnel) := by
  unfold accept
  rw [if_pos hclosed]

end UDPSession

namespace UDPLink

variable {τ : Type} [ITunnel τ] {R : UDPSession → UDPSession → Prop} {w w' : UDPLink τ}

-- What a step keeps, if the calls of the traffic and the world around the session keep it.
theorem step_relation (h : UDPSession.PartRelation R) {e : Event τ}
    (accept : ∀ ip, e = .accept ip → R w.session (w.session.accept ip w.mTunnel).1)
    (readable : ∀ received, e = .readable (some received) →
      R w.session (w.session.onReadable (some received)))
    (dataBack : ∀ data tunnel, e = .tunnelDataBack data → w.mTunnel = some tunnel →
      R w.session (w.session.onTunnelDataBack data tunnel).1)
    (environment : ∀ elapsed sends reactor tunnel, e = .environment elapsed sends reactor tunnel →
      R w.session
        { w.session with now := w.session.now + elapsed, sends := sends, reactor := reactor })
    (hstep : w.step e = some w') : R w.session w'.session := by
  cases e with
  | accept ip =>
    cases hstep
    exact accept ip rfl
  | readable outcome =>
    obtain ⟨-, rfl⟩ := onSocket_eq_some hstep
    cases outcome with
    | none => exact h.close _
    | some received => exact readable received rfl
  | writable =>
    obtain ⟨-, rfl⟩ := onSocket_eq_some hstep
    exact h.onWritable _
  | exception =>
    obtain ⟨-, rfl⟩ := onSocket_eq_some hstep
    exact h.close _
  | periodicCheck =>
    cases hstep
    exact h.onPeriodicallyCheck _
  | tunnelDataBack data =>
    obtain ⟨tunnel, htunnel, rfl⟩ := onTunnel_eq_some hstep
    exact dataBack data tunnel rfl htunnel
  | tunnelWritable =>
    obtain ⟨tunnel, -, rfl⟩ := onTunnel_eq_some (Option.filter_eq_some_iff.mp hstep).1
    exact h.onTunnelWritable _ tunnel
  | tunnelDisconnected reason =>
    obtain ⟨tunnel, -, rfl⟩ :=
      onTunnel_eq_some (f := fun s tunnel => (s.onTunnelDisconnected reason, tunnel)) hstep
    exact h.close _
  | environment elapsed sends reactor tunnel =>
    cases hstep
    exact environment elapsed sends reactor tunnel rfl

end UDPLink

end NetCore
