import NetCore.Socks5Proxy.Outlet

/-!
# Pausing and resuming a tunnel

`ReceiveGate` says what a session relies on when it pauses and resumes the receiving of its tunnel:
a tunnel is down for good, or it stands, and then only `pauseReceiveData` stops it from receiving and
`resumeReceiveData` always starts it again.  Both tunnels keep to it: the gate is the read event of
their socket.
-/

namespace NetCore

open EpollReactor (Listens)

/-- A call that is not about receiving. -/
inductive ITunnel.Still {τ : Type} [ITunnel τ] (t : τ) : τ → Prop where
  | keepAlive : Still t (keepAlive t)
  | requestSendData : Still t (requestSendData t)
  | pauseSendData : Still t (pauseSendData t)
  | sent {t' : τ} {data : Bytes} {more : Bool} {s : Nat} :
      sendData t data more = .sent s t' → Still t t'

class ReceiveGate (τ : Type) [ITunnel τ] where
  Down : τ → Prop
  Stands : τ → Prop
  /-- What the remote sends is read. -/
  Receives : τ → Prop
  not_stands {t : τ} : Down t → ¬ Stands t
  down_calls {t t' : τ} : Down t → ITunnel.Calls t t' → Down t'
  destroy (t : τ) : Down (ITunnel.destroyTunnel t)
  failed {t t' : τ} {data : Bytes} {more : Bool} {reason : U8} :
    ITunnel.sendData t data more = .failed reason t' → Down t'
  still {t t' : τ} : Stands t → ITunnel.Still t t' → Stands t' ∧ (Receives t → Receives t')
  pause {t : τ} : Stands t → Stands (ITunnel.pauseReceiveData t)
  resume {t : τ} :
    Stands t → Stands (ITunnel.resumeReceiveData t) ∧ Receives (ITunnel.resumeReceiveData t)

namespace EpollReactor

def ReadOn (r : EpollReactor) (fd : Int) : Prop := r.containEvent fd evREAD = 1

instance (r : EpollReactor) (fd : Int) : Decidable (r.ReadOn fd) :=
  inferInstanceAs (Decidable (_ = _))

variable {r : EpollReactor} {fd : Int}

theorem listens_addEvent (h : Listens r fd) (more : U32) (listener tag : Nat) :
    Listens (r.addEvent fd more listener tag).2 fd ∧
      (r.ReadOn fd → (r.addEvent fd more listener tag).2.ReadOn fd) := by
  obtain ⟨hfd, events, hregistered, herror⟩ := h
  have hadded := hregistered.addEvent hfd more listener tag
  refine ⟨⟨hfd, _, hadded, kept_or more herror⟩, fun hread => ?_⟩
  exact hadded.containRead_iff.mpr (kept_or more (hregistered.containRead_iff.mp hread))

theorem listens_delWrite (h : Listens r fd) :
    Listens (r.delEvent fd evWRITE).2 fd ∧
      (r.ReadOn fd → (r.delEvent fd evWRITE).2.ReadOn fd) := by
  refine ⟨h.delEvent (by decide), fun hread => ?_⟩
  obtain ⟨hfd, events, hregistered, herror⟩ := h
  have hleft : (events &&& ~~~evWRITE) &&& evERROR = evERROR := kept_and_not herror (by decide)
  have hdeleted := hregistered.delEvent (ne_zero_of_kept hleft (by decide))
  have hread' := hregistered.containRead_iff.mp hread
  exact hdeleted.containRead_iff.mpr (kept_and_not hread' (by decide))

theorem readOn_addEvent (h : Listens r fd) (listener tag : Nat) :
    (r.addEvent fd evREAD listener tag).2.ReadOn fd := by
  obtain ⟨hfd, events, hregistered, -⟩ := h
  exact (hregistered.addEvent hfd evREAD listener tag).containRead_iff.mpr (or_and_self _ _)

theorem not_readOn_delEvent (h : Listens r fd) : ¬ (r.delEvent fd evREAD).2.ReadOn fd := by
  obtain ⟨hfd, events, hregistered, herror⟩ := h
  have hleft : (events &&& ~~~evREAD) &&& evERROR = evERROR := kept_and_not herror (by decide)
  have hdeleted := hregistered.delEvent (ne_zero_of_kept hleft (by decide))
  unfold ReadOn
  rw [hdeleted.containRead_iff, and_not_and_self]
  decide

end EpollReactor

/-! ## The direct tunnel -/

namespace TCPTunnel

/-- An open socket the reactor knows. -/
structure Connected (t : TCPTunnel) : Prop where
  reacts : t.hasReactor
  listens : Listens t.reactor t.mSocket

variable {t : TCPTunnel}

theorem Connected.opened (h : t.Connected) : 0 ≤ t.mSocket := by
  have hopen := h.listens.1
  omega

def Reading (t : TCPTunnel) : Prop := t.reactor.ReadOn t.mSocket

instance (t : TCPTunnel) : Decidable t.Reading := inferInstanceAs (Decidable (_ = _))

theorem mSocket_withReactor (f : EpollReactor → EpollReactor) (t : TCPTunnel) :
    (t.withReactor f).mSocket = t.mSocket := by
  unfold withReactor
  split <;> rfl

theorem Connected.withReactor (f : EpollReactor → EpollReactor) (h : t.Connected)
    (hlistens : Listens (f t.reactor) t.mSocket) :
    (t.withReactor f).Connected ∧ ((t.withReactor f).Reading ↔ (f t.reactor).ReadOn t.mSocket) := by
  unfold TCPTunnel.withReactor
  rw [if_pos ⟨h.opened, h.reacts⟩]
  exact ⟨⟨h.reacts, hlistens⟩, Iff.rfl⟩

-- A socket once closed stays closed.
theorem down_calls {t' : TCPTunnel} (h : t.mSocket < 0) (hcalls : ITunnel.Calls t t') :
    t'.mSocket < 0 := by
  have hsend {u : TCPTunnel} (hu : u.mSocket < 0) (data : Bytes) (more : Bool) :
      ITunnel.sendData u data more = .sent 0 u := if_neg (by omega)
  have hwith {u : TCPTunnel} (hu : u.mSocket < 0) (f : EpollReactor → EpollReactor) :
      (u.withReactor f).mSocket < 0 := by
    rw [mSocket_withReactor]
    exact hu
  induction hcalls with
  | refl => exact h
  | keepAlive _ ih => exact ih
  | requestSendData _ ih | pauseSendData _ ih | pauseReceiveData _ ih | resumeReceiveData _ ih =>
    exact hwith ih _
  | sent _ hsent ih =>
    rw [hsend ih] at hsent
    cases hsent
    exact ih
  | failed _ hfailed ih =>
    rw [hsend ih] at hfailed
    cases hfailed
  | destroyTunnel =>
    show (-1 : Int) < 0
    omega

theorem sendData_sent {t' : TCPTunnel} {data : Bytes} {more : Bool} {s : Nat} (h : t.Connected)
    (hsend : t.sendData data more = .sent s t') : t'.Connected ∧ (t.Reading → t'.Reading) := by
  unfold sendData send at hsend
  rw [if_pos h.opened] at hsend
  cases hanswer : t.sends 0 with
  | accepted n =>
    simp only [hanswer] at hsend
    cases hsend
    exact ⟨⟨h.reacts, h.listens⟩, id⟩
  | error errno =>
    simp only [hanswer] at hsend
    cases hsend

theorem sendData_failed {t' : TCPTunnel} {data : Bytes} {more : Bool} {reason : U8}
    (hsend : t.sendData data more = .failed reason t') : t'.mSocket < 0 := by
  unfold sendData send at hsend
  split at hsend
  · cases hanswer : t.sends 0 with
    | accepted n =>
      simp only [hanswer] at hsend
      cases hsend
    | error errno =>
      simp only [hanswer] at hsend
      cases hsend
      show (-1 : Int) < 0
      omega
  · cases hsend

theorem still {t' : TCPTunnel} (h : t.Connected) (hstill : ITunnel.Still t t') :
    t'.Connected ∧ (t.Reading → t'.Reading) := by
  cases hstill with
  | keepAlive => exact ⟨h, id⟩
  | requestSendData =>
    obtain ⟨hlistens, hread⟩ := EpollReactor.listens_addEvent h.listens evWRITE t.handler 0
    obtain ⟨hconnected, hreading⟩ :=
      h.withReactor (fun r => (r.addEvent t.mSocket evWRITE t.handler 0).2) hlistens
    exact ⟨hconnected, fun hon => hreading.mpr (hread hon)⟩
  | pauseSendData =>
    obtain ⟨hlistens, hread⟩ := EpollReactor.listens_delWrite h.listens
    obtain ⟨hconnected, hreading⟩ :=
      h.withReactor (fun r => (r.delEvent t.mSocket evWRITE).2) hlistens
    exact ⟨hconnected, fun hon => hreading.mpr (hread hon)⟩
  | sent hsend => exact sendData_sent h hsend

-- A pause is felt.
theorem Connected.pause (h : t.Connected) :
    t.pauseReceiveData.Connected ∧ ¬ t.pauseReceiveData.Reading := by
  obtain ⟨hconnected, hreading⟩ :=
    h.withReactor (fun r => (r.delEvent t.mSocket evREAD).2) (h.listens.delEvent (by decide))
  exact ⟨hconnected, fun hon => EpollReactor.not_readOn_delEvent h.listens (hreading.mp hon)⟩

theorem Connected.resume (h : t.Connected) :
    t.resumeReceiveData.Connected ∧ t.resumeReceiveData.Reading := by
  obtain ⟨hlistens, -⟩ := EpollReactor.listens_addEvent h.listens evREAD t.handler 0
  obtain ⟨hconnected, hreading⟩ :=
    h.withReactor (fun r => (r.addEvent t.mSocket evREAD t.handler 0).2) hlistens
  exact ⟨hconnected, hreading.mpr (EpollReactor.readOn_addEvent h.listens t.handler 0)⟩

instance : ReceiveGate TCPTunnel where
  Down t := t.mSocket < 0
  Stands := Connected
  Receives := Reading
  not_stands hdown h := absurd h.opened (by omega)
  down_calls := down_calls
  destroy t := by
    show (-1 : Int) < 0
    omega
  failed := sendData_failed
  still := still
  pause h := h.pause.1
  resume h := h.resume

end TCPTunnel

/-! ## The proxy -/

namespace Socks5Proxy

def Reading (p : Socks5Proxy) : Prop := p.reactor.ReadOn p.mSocket

/-- Before it passes payload on, nothing pauses the proxy. -/
structure Connected (p : Socks5Proxy) : Prop where
  opened : Open p
  starts : p.mS5State ≠ .trans → p.Reading

variable {p p' : Socks5Proxy}

theorem open_withReactor (f : EpollReactor → EpollReactor) (h : Open p)
    (hlistens : Listens (f p.reactor) p.mSocket) :
    Open (p.withReactor f) ∧
      ((p.withReactor f).Reading ↔ (f p.reactor).ReadOn p.mSocket) := by
  unfold Socks5Proxy.withReactor
  rw [if_pos h.reactor]
  exact ⟨⟨h.alive, h.reactor, hlistens⟩, Iff.rfl⟩

theorem mS5State_withReactor (f : EpollReactor → EpollReactor) (p : Socks5Proxy) :
    (p.withReactor f).mS5State = p.mS5State := by
  unfold Socks5Proxy.withReactor
  split <;> rfl

-- What goes through `whileTrans` keeps a proxy connected.
theorem connected_whileTrans (f : EpollReactor → EpollReactor) (h : p.Connected)
    (hlistens : Listens (f p.reactor) p.mSocket) : (p.whileTrans f).Connected := by
  unfold whileTrans
  split
  next htrans =>
    refine ⟨(open_withReactor f h.opened hlistens).1, fun hstate => absurd ?_ hstate⟩
    rw [mS5State_withReactor]
    exact htrans.2
  next => exact h

theorem reading_whileTrans (f : EpollReactor → EpollReactor) (h : p.Connected)
    (hlistens : Listens (f p.reactor) p.mSocket)
    (hread : p.reactor.ReadOn p.mSocket → (f p.reactor).ReadOn p.mSocket) :
    p.Reading → (p.whileTrans f).Reading := by
  intro hon
  unfold whileTrans
  split
  · exact (open_withReactor f h.opened hlistens).2.mpr (hread hon)
  · exact hon

theorem connected_encryptAndQueue (queue : ProxyQueue) (data : Bytes) (h : p.Connected) :
    (p.encryptAndQueue queue data).2.Connected ∧
      (p.Reading → (p.encryptAndQueue queue data).2.Reading) := by
  unfold encryptAndQueue
  simp only
  split
  · exact ⟨⟨⟨h.opened.alive, h.opened.reactor, h.opened.listens⟩, h.starts⟩, id⟩
  · generalize hq : push _ _ queue = q
    have hopen : Open q := by
      rw [← hq]
      cases queue <;> exact ⟨h.opened.alive, h.opened.reactor, h.opened.listens⟩
    have hstate : q.mS5State = p.mS5State := by
      rw [← hq]
      cases queue <;> rfl
    have hsocket : q.mSocket = p.mSocket := by
      rw [← hq]
      cases queue <;> rfl
    have hreactor : q.reactor = p.reactor := by
      rw [← hq]
      cases queue <;> rfl
    obtain ⟨hlistens, hread⟩ := EpollReactor.listens_addEvent hopen.listens evWRITE p.handler 0
    rw [hsocket] at hlistens hread
    obtain ⟨hopen', hreading⟩ :=
      open_withReactor (fun r => (r.addEvent p.mSocket evWRITE p.handler 0).2) hopen
        (hsocket ▸ hlistens)
    rw [hsocket] at hreading
    have hkept (hon : p.Reading) := hreading.mpr (hread (hreactor ▸ hon))
    refine ⟨⟨⟨hopen'.alive, hopen'.reactor, hopen'.listens⟩, fun hnot => hkept (h.starts ?_)⟩, hkept⟩
    exact fun htrans => hnot ((mS5State_withReactor _ q).trans (hstate.trans htrans))

theorem still (h : p.Connected) (hstill : ITunnel.Still p p') :
    p'.Connected ∧ (p.Reading → p'.Reading) := by
  cases hstill with
  | keepAlive => exact ⟨h, id⟩
  | requestSendData =>
    obtain ⟨hlistens, hread⟩ := EpollReactor.listens_addEvent h.opened.listens evWRITE p.handler 0
    exact ⟨connected_whileTrans _ h hlistens, reading_whileTrans _ h hlistens hread⟩
  | pauseSendData =>
    obtain ⟨hlistens, hread⟩ := EpollReactor.listens_delWrite h.opened.listens
    exact ⟨connected_whileTrans _ h hlistens, reading_whileTrans _ h hlistens hread⟩
  | @sent _ data _ _ hsend =>
    have hsent : Socks5Proxy.sendData p _ _ = _ := hsend
    unfold Socks5Proxy.sendData at hsent
    split at hsent
    · cases hsent
      exact ⟨h, id⟩
    · split at hsent
      · cases hsent
        exact ⟨h, id⟩
      · cases hsent
        exact connected_encryptAndQueue .out data h

theorem Connected.resume (h : p.Connected) :
    p.resumeReceiveData.Connected ∧ p.resumeReceiveData.Reading := by
  obtain ⟨hlistens, -⟩ := EpollReactor.listens_addEvent h.opened.listens evREAD p.handler 0
  refine ⟨connected_whileTrans _ h hlistens, ?_⟩
  unfold resumeReceiveData whileTrans
  split
  next =>
    obtain ⟨-, hreading⟩ :=
      open_withReactor (fun r => (r.addEvent p.mSocket evREAD p.handler 0).2) h.opened hlistens
    exact hreading.mpr (EpollReactor.readOn_addEvent h.opened.listens p.handler 0)
  next hhandshake => exact h.starts fun htrans => hhandshake ⟨h.opened.alive, htrans⟩

-- A dead proxy takes no call.
theorem dead_calls (h : p.mAlive = false) (hcalls : ITunnel.Calls p p') : p'.mAlive = false := by
  have hsend {q : Socks5Proxy} (hq : q.mAlive = false) (data : Bytes) (more : Bool) :
      ITunnel.sendData q data more = .sent 0 q := if_pos (by rw [hq]; rfl)
  have hwhile {q : Socks5Proxy} (hq : q.mAlive = false) (f : EpollReactor → EpollReactor) :
      (q.whileTrans f).mAlive = false := by
    unfold whileTrans
    rw [if_neg (by simp [hq])]
    exact hq
  induction hcalls with
  | refl => exact h
  | keepAlive _ ih => exact ih
  | requestSendData _ ih | pauseSendData _ ih | pauseReceiveData _ ih | resumeReceiveData _ ih =>
    exact hwhile ih _
  | sent _ hsent ih =>
    rw [hsend ih] at hsent
    cases hsent
    exact ih
  | failed _ hfailed ih =>
    rw [hsend ih] at hfailed
    cases hfailed
  | destroyTunnel => rfl

instance : ReceiveGate Socks5Proxy where
  Down p := p.mAlive = false
  Stands := Connected
  Receives := Reading
  not_stands hdead h := Bool.false_ne_true (hdead.symm.trans h.opened.alive)
  down_calls := dead_calls
  destroy _ := rfl
  failed hfailed := absurd hfailed sendData_ne_failed
  still := still
  pause h := connected_whileTrans _ h (h.opened.listens.delEvent (by decide))
  resume h := h.resume

end Socks5Proxy

end NetCore
