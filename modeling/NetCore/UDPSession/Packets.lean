import NetCore.Socks5Proxy.Client
import NetCore.UDPSession.Outlet

/-!
# The packets a UDP session hands over

Every packet is new when it is handed over, and no one keeps it.  The replies of a proxy are marked to
be released once they are written, the replies of a direct session are not.
-/

namespace NetCore

namespace UDPPoint

def Built : UDPPoint → Prop
  | .writePackage segment =>
      0 < segment.size ∧ segment.isBuffering = false ∧ segment.isAbort = false
  | _ => True

def Released : UDPPoint → Prop
  | .writePackage segment => segment.releaseAfterBuffering = true
  | _ => True

end UDPPoint

namespace UDPSession

variable {s s' s'' : UDPSession} {kind : UDPPoint → Prop}

-- From `s` to `s'` points of one kind have been recorded.
def Adds (kind : UDPPoint → Prop) (s s' : UDPSession) : Prop :=
  ∃ points, s'.trace = s.trace ++ points ∧ ∀ point ∈ points, kind point

theorem Adds.of_eq (h : s'.trace = s.trace) : Adds kind s s' :=
  ⟨[], by rw [h, List.append_nil], by simp⟩

theorem Adds.emit {points : List UDPPoint} (h : ∀ point ∈ points, kind point) :
    Adds kind s (s.emit points) := ⟨points, rfl, h⟩

theorem Adds.trans (h : Adds kind s s') (h' : Adds kind s' s'') : Adds kind s s'' := by
  obtain ⟨points, heq, hpoints⟩ := h
  obtain ⟨more, heq', hmore⟩ := h'
  refine ⟨points ++ more, by rw [heq', heq, List.append_assoc], ?_⟩
  exact List.forall_mem_append.mpr ⟨hpoints, hmore⟩

theorem Adds.mono {kind' : UDPPoint → Prop} (h : Adds kind s s')
    (hkind : ∀ point, kind point → kind' point) : Adds kind' s s' := by
  obtain ⟨points, heq, hpoints⟩ := h
  exact ⟨points, heq, fun point hpoint => hkind point (hpoints point hpoint)⟩

theorem buildPacket_built (data : Bytes) (s : UDPSession) :
    0 < (s.buildPacket data).size ∧ (s.buildPacket data).isBuffering = false ∧
      (s.buildPacket data).isAbort = false := by
  refine ⟨?_, rfl, rfl⟩
  show 0 < (Segment.ofBytes (s.packetBytes data)).size
  rw [Segment.size_ofBytes]
  simp only [packetBytes, ipHeader, List.length_append, length_ipv4Header]
  omega

-- A packet whose builder gives it away.
def GivenAway (point : UDPPoint) : Prop := point.Built ∧ point.Released

theorem adds_close (s : UDPSession) : Adds GivenAway s s.close := by
  unfold close withReactor
  split
  · split <;> exact .of_eq rfl
  · exact .of_eq rfl

theorem adds_countSent (n : Nat) (s : UDPSession) : Adds GivenAway s (s.countSent n) := by
  unfold countSent
  split
  · exact .emit (by simp [GivenAway, UDPPoint.Built, UDPPoint.Released])
  · exact .of_eq rfl

theorem adds_replyLoop (length : U32) (fuel : Nat) (data : Bytes) (s : UDPSession) :
    Adds GivenAway s (replyLoop length fuel data s) := by
  induction fuel generalizing data s with
  | zero => exact .of_eq rfl
  | succ fuel ih =>
    rw [replyLoop]
    split
    · exact .of_eq rfl
    · refine Adds.trans (.emit ?_) (ih _ _)
      intro point hpoint
      rcases List.mem_pair.mp hpoint with rfl | rfl
      · exact ⟨trivial, trivial⟩
      · exact ⟨buildPacket_built _ s, rfl⟩

-- What a proxy does to a session.
theorem givenAway_relation : ClientRelation (Adds GivenAway) where
  refl _ := .of_eq rfl
  trans h h' := h.trans h'
  connected _ := .of_eq rfl
  disconnected _ s _ := adds_close s
  writable s p := by
    show Adds GivenAway s (s.onTunnelWritable p).2.1
    unfold onTunnelWritable
    split
    · exact .of_eq rfl
    · simp only
      refine Adds.trans ?_ (adds_countSent _ _)
      split
      · exact Adds.trans (.of_eq rfl) (adds_close _)
      · exact .of_eq rfl
  dataBack data s p := by
    show Adds GivenAway s (s.onTunnelDataBack data p).1
    unfold onTunnelDataBack
    split
    · exact (adds_close s).trans (.of_eq rfl)
    · have hcounted (s : UDPSession) (length : U32) : Adds GivenAway s (s.countBack length) :=
        ⟨_, rfl, by simp [GivenAway, UDPPoint.Built, UDPPoint.Released]⟩
      exact (adds_replyLoop _ _ _ s).trans (hcounted _ _)

theorem adds_accept {τ : Type} [ITunnel τ] (ip : Datagram) (tunnel : Option τ) (s : UDPSession) :
    Adds GivenAway s (s.accept ip tunnel).1 := by
  unfold UDPSession.accept
  have hcounted : Adds GivenAway s (s.countAccepted ip) := by
    unfold countAccepted
    simp only
    refine Adds.trans ?_ (.emit (by simp [GivenAway, UDPPoint.Built, UDPPoint.Released]))
    split
    · exact ⟨_, rfl, by simp [GivenAway, UDPPoint.Built, UDPPoint.Released]⟩
    · exact .of_eq rfl
  split
  · exact .of_eq rfl
  · simp only
    split
    · split
      · exact hcounted.trans (.of_eq rfl)
      · refine hcounted.trans (.of_eq ?_)
        unfold withReactor
        split <;> rfl
    · exact hcounted.trans (.of_eq rfl)

-- The reply is built and handed over, and nobody is told to release it.
theorem adds_reply (data : Bytes) (s : UDPSession) : Adds UDPPoint.Built s (s.reply data) := by
  refine ⟨_, rfl, ?_⟩
  intro point hpoint
  rcases List.mem_pair.mp hpoint with rfl | rfl
  · exact buildPacket_built data s
  · exact trivial

end UDPSession

namespace UDPFlow

variable {flow flow' : UDPFlow}

def ReadsReply (flow : UDPFlow) (e : Event) : Prop :=
  match flow, e with
  | direct _, .readable (.received _) => True
  | _, _ => False

open UDPSession

theorem stepDirect_adds (s : UDPSession) (e : Event) :
    Adds UDPPoint.Built s (stepDirect s e) ∧
      (¬ (direct s).ReadsReply e → Adds GivenAway s (stepDirect s e)) := by
  have hboth {s' : UDPSession} (h : Adds GivenAway s s') :
      Adds UDPPoint.Built s s' ∧ (¬ (direct s).ReadsReply e → Adds GivenAway s s') :=
    ⟨h.mono fun _ => And.left, fun _ => h⟩
  cases e with
  | accept ip => exact hboth (adds_accept ip _ s)
  | readable outcome =>
    cases outcome with
    | received data =>
      refine ⟨?_, fun hnot => absurd trivial hnot⟩
      exact Adds.trans ⟨_, rfl, by simp [UDPPoint.Built]⟩ (adds_reply _ _)
    | error errno => exact hboth (adds_close s)
  | writable =>
    refine hboth ?_
    show Adds GivenAway s s.onWritable
    unfold UDPSession.onWritable
    split
    · unfold withReactor
      split <;> exact .of_eq rfl
    · exact Adds.trans (.of_eq rfl) (adds_countSent _ _)
  | exception error => exact hboth (adds_close s)
  | periodicCheck =>
    refine hboth ?_
    show Adds GivenAway s s.onPeriodicallyCheck
    unfold onPeriodicallyCheck
    split
    · exact adds_close s
    · exact .of_eq rfl
  | reactor call => exact hboth (.of_eq rfl)
  | environment now settings cipher => exact hboth (.of_eq rfl)

theorem stepProxied_adds {w w' : Served UDPSession} {e : Event} (h : stepProxied w e = some w') :
    Adds GivenAway w.mClient w'.mClient := by
  cases e with
  | accept ip =>
    cases h
    have haccepted := adds_accept ip (some w.proxy) w.mClient
    unfold acceptProxied
    split
    next heq =>
      rw [heq] at haccepted
      exact haccepted
    next heq =>
      rw [heq] at haccepted
      exact haccepted
  | readable outcome => exact givenAway_relation.onReadable h
  | writable =>
    cases h
    exact givenAway_relation.onWritable w
  | exception error =>
    cases h
    exact givenAway_relation.switchS5State _ w
  | _ =>
    cases h
    exact .of_eq rfl

-- What a step of a flow hands over.
theorem step_adds {e : Event} (hstep : flow.step e = some flow') :
    Adds UDPPoint.Built flow.session flow'.session ∧
      (¬ flow.ReadsReply e → Adds GivenAway flow.session flow'.session) := by
  cases flow with
  | direct s =>
    rw [(step_direct hstep).1]
    exact stepDirect_adds s e
  | proxied w =>
    obtain ⟨w', hw', rfl, -⟩ := step_proxied hstep
    have hadds := stepProxied_adds hw'
    exact ⟨hadds.mono fun _ => And.left, fun _ => hadds⟩

end UDPFlow

end NetCore
