import NetCore.Socks5Proxy.Client
import NetCore.UDPSession.Outlet
import NetCore.UDPSession.StepRelation

/-!
# How long a UDP session counts as open

`mAlive` is set by `init` and by nothing else, so a closed UDP session stays closed.
-/

namespace NetCore
namespace UDPSession

variable {s s' s'' : UDPSession}

-- From `s` to `s'` a session stays with its flow and does not come back to life.
structure Ages (s s' : UDPSession) : Prop where
  flow : s'.toSession.flow = s.toSession.flow
  dead : s.mAlive = false → s'.mAlive = false

theorem Ages.of_eq (hflow : s'.toSession.flow = s.toSession.flow) (halive : s'.mAlive = s.mAlive) :
    Ages s s' := ⟨hflow, fun hdead => halive.trans hdead⟩

theorem Ages.refl (s : UDPSession) : Ages s s := .of_eq rfl rfl

theorem Ages.trans (h : Ages s s') (h' : Ages s' s'') : Ages s s'' :=
  ⟨h'.flow.trans h.flow, fun hdead => h'.dead (h.dead hdead)⟩

theorem Ages.hasClosed (h : Ages s s') (hclosed : s.hasClosed) : s'.hasClosed := by
  have hdead : s.mAlive = false := by simpa [UDPSession.hasClosed] using hclosed
  simpa [UDPSession.hasClosed] using h.dead hdead

theorem ages_withReactor (f : EpollReactor → EpollReactor) (s : UDPSession) :
    Ages s (s.withReactor f) := by
  unfold withReactor
  split <;> exact .of_eq rfl rfl

theorem ages_close (s : UDPSession) : Ages s s.close := by
  unfold close
  dsimp only
  split
  · exact (ages_withReactor _ s).trans ⟨rfl, fun _ => rfl⟩
  · exact ⟨rfl, fun _ => rfl⟩

theorem ages_replyLoop (length : U32) (fuel : Nat) (data : Bytes) (s : UDPSession) :
    Ages s (replyLoop length fuel data s) := by
  induction fuel generalizing data s with
  | zero => exact .refl s
  | succ fuel ih =>
    rw [replyLoop]
    split
    · exact .refl s
    · refine Ages.trans ?_ (ih _ _)
      exact .of_eq rfl rfl

theorem ages_parts : PartRelation Ages where
  refl := .refl
  trans h h' := h.trans h'
  reactor := ages_withReactor
  close := ages_close
  queue _ _ _ _ := .of_eq rfl rfl
  count ip s := by
    unfold countAccepted
    dsimp only
    split <;> exact .of_eq rfl rfl
  sent n s := by
    unfold countSent
    split <;> exact .of_eq rfl rfl

-- What a proxy does to a session.
theorem ages_relation : ClientRelation Ages where
  refl := .refl
  trans h h' := h.trans h'
  connected s := .refl s
  disconnected _ s _ := ages_close s
  writable s p := ages_parts.onTunnelWritable s p
  dataBack data s p := by
    show Ages s (s.onTunnelDataBack data p).1
    have hnoted (s : UDPSession) : Ages s s.noteTime := .of_eq rfl rfl
    unfold onTunnelDataBack
    split
    · exact (ages_close s).trans (hnoted _)
    · have hcounted (s : UDPSession) (length : U32) : Ages s (s.countBack length) := .of_eq rfl rfl
      exact ((ages_replyLoop _ _ _ s).trans (hcounted _ _)).trans (hnoted _)

theorem ages_accept {τ : Type} [ITunnel τ] (ip : Datagram) (tunnel : Option τ) (s : UDPSession) :
    Ages s (s.accept ip tunnel).1 := by
  cases halive : s.mAlive with
  | false =>
    rw [accept_closed ip tunnel halive]
    exact .refl s
  | true =>
    obtain ⟨t, ht, heq⟩ := ages_parts.accept ip tunnel halive
    rw [heq]
    exact ht.trans (.of_eq rfl rfl)

end UDPSession

namespace UDPFlow

open UDPSession

theorem stepDirect_ages (s : UDPSession) (e : Event) : Ages s (stepDirect s e) := by
  cases e with
  | accept ip => exact ages_accept ip _ s
  | readable outcome =>
    cases outcome with
    | received data => exact .of_eq rfl rfl
    | error errno => exact ages_close s
  | writable => exact ages_parts.onWritable s
  | exception error => exact ages_close s
  | periodicCheck => exact ages_parts.onPeriodicallyCheck s
  | reactor call => exact .of_eq rfl rfl
  | environment now settings cipher => exact .of_eq rfl rfl

theorem stepProxied_ages {w w' : Served UDPSession} {e : Event} (h : stepProxied w e = some w') :
    Ages w.mClient w'.mClient := by
  cases e with
  | accept ip =>
    cases h
    have haccepted := ages_accept ip (some w.proxy) w.mClient
    unfold acceptProxied
    split
    next heq =>
      rw [heq] at haccepted
      exact haccepted
    next heq =>
      rw [heq] at haccepted
      exact haccepted
  | readable outcome => exact ages_relation.onReadable h
  | writable =>
    cases h
    exact ages_relation.onWritable w
  | exception error =>
    cases h
    exact ages_relation.switchS5State _ w
  | _ =>
    cases h
    exact .of_eq rfl rfl

-- Whatever happens to a flow.
theorem step_ages {flow flow' : UDPFlow} {e : Event} (hstep : flow.step e = some flow') :
    Ages flow.session flow'.session := by
  cases flow with
  | direct s =>
    rw [(step_direct hstep).1]
    exact stepDirect_ages s e
  | proxied w =>
    obtain ⟨w', hw', rfl, -⟩ := step_proxied hstep
    exact stepProxied_ages hw'

end UDPFlow

end NetCore
