import NetCore.Socks5Proxy.Delivery
import NetCore.UDPSession.Outlet

/-!
# The write event of a UDP session

`accept` asks for the write event of the session's own socket unless the whole mask is `PROXY`, also
where `init` has chosen a proxy; and a proxy whose socket takes nothing gives its write event up while
the session has datagrams waiting.  A run keeps its datagrams covered exactly if neither happens.
-/

namespace NetCore

open EpollReactor (Listens WriteOn keepsWrite_addEvent writeOn_addEvent not_writeOn_delEvent)
open Socks5Proxy (Open KeepsOutlet keepsOutlet_requestSendData writeOn_requestSendData open_closeWrite
  mS5State_closeWrite open_sendSocks5 mS5State_sendSocks5 open_sendOut)

namespace UDPFlow

def Ready : UDPFlow → Prop
  | direct _ => True
  | proxied w => w.proxy.mS5State = .trans

/-- Datagrams that could be sent wait for an event that is asked for. -/
def Fed (flow : UDPFlow) : Prop :=
  flow.session.mAlive = true → flow.session.mOutBuffer ≠ [] → flow.Ready →
    flow.reactor.containEvent flow.outletFd evWRITE = 1

/-- The steps that do not leave datagrams behind. -/
def Wakes (flow : UDPFlow) (e : Event) : Prop :=
  match flow, e with
  | proxied w, .accept _ =>
      w.mClient.mAlive = true → w.proxy.mS5State = .trans →
        w.mClient.mCtrlType = ctrlPROXY ∨ w.proxy.reactor.containEvent w.proxy.mSocket evWRITE = 1
  | proxied w, .writable =>
      w.mClient.mAlive = true → w.proxy.mS5State = .trans → w.proxy.mOutQueue ≠ [] →
        w.mClient.mOutBuffer ≠ [] → ¬ Refused w.proxy.mOutQueue w.proxy.sends
  | _, _ => True

end UDPFlow

namespace UDPSession

variable {w w' : Served UDPSession} {s : UDPSession}

/-! ## The writable event of a proxied session -/

-- The call with which an idle proxy asks for data.
def askClient (w : Served UDPSession) : Served UDPSession :=
  match w.mClient.onTunnelWritable w.proxy with
  | (s, c, p) => if s ≤ 0 then ⟨c, p.closeWrite⟩ else ⟨c, p⟩

theorem carries_askClient (w : Served UDPSession) : Carries w (askClient w) := by
  obtain ⟨halive, hspinning, hopen⟩ := onTunnelWritable_proxy w.mClient w.proxy
  have hclient : (askClient w).mClient = (w.mClient.onTunnelWritable w.proxy).2.1 := by
    unfold askClient
    split
    split <;> simp_all
  have hproxy : Open w.proxy → Open (askClient w).proxy := by
    intro h
    have hafter := hopen h
    unfold askClient
    split
    rename_i heq
    rw [heq] at hafter
    split
    · exact open_closeWrite hafter
    · exact hafter
  have hlive (hlive : Live (askClient w)) : Live w := by
    unfold Live at hlive
    rw [hclient] at hlive
    exact ⟨(hspinning hlive.1).1, halive.symm.trans hlive.2⟩
  refine carries_of_drained hlive (fun _ => hproxy) fun hlive' => ?_
  rw [hclient]
  unfold Live at hlive'
  rw [hclient] at hlive'
  exact (hspinning hlive'.1).2

theorem noteConnected_same (w : Served UDPSession) :
    w.noteConnected.mClient = w.mClient ∧ w.noteConnected.proxy.mS5State = w.proxy.mS5State ∧
      w.noteConnected.proxy.mOutQueue = w.proxy.mOutQueue ∧
      w.noteConnected.proxy.sends = w.proxy.sends ∧
      w.noteConnected.proxy.reactor = w.proxy.reactor ∧
      w.noteConnected.proxy.mSocket = w.proxy.mSocket := by
  unfold Served.noteConnected
  split
  · exact ⟨rfl, rfl, rfl, rfl, rfl, rfl⟩
  · exact ⟨rfl, rfl, rfl, rfl, rfl, rfl⟩

-- Every branch of `onWritable` but the one that sends payload.
theorem carries_onWritable (w : Served UDPSession)
    (h : w.proxy.mS5State = .trans → w.proxy.mOutQueue = []) : Carries w w.onWritable := by
  have hnoted := carries_noteConnected w
  obtain ⟨-, hstate, hqueue, -⟩ := noteConnected_same w
  unfold Served.onWritable
  simp only
  split
  · rename_i htrans
    rw [if_neg (by rw [hqueue, h (hstate.symm.trans htrans)]; exact fun hne => hne rfl)]
    exact hnoted.trans (carries_askClient _)
  · exact hnoted.trans ((carries_sendS5 _ _ _).trans (carries_switchS5State _ _))
  · rename_i hother _
    split
    · refine hnoted.trans (carries_of_state rfl open_closeWrite ?_)
      show (Socks5Proxy.closeWrite w.noteConnected.proxy).mS5State ≠ .trans
      rw [mS5State_closeWrite]
      exact hother
    · refine hnoted.trans (carries_of_state rfl (fun h => (open_sendSocks5 h).1) ?_)
      show (Socks5Proxy.sendSocks5 w.noteConnected.proxy).mS5State ≠ .trans
      rw [mS5State_sendSocks5]
      exact hother

-- The branch of `onWritable` that sends payload.
theorem onWritable_sends {w : Served UDPSession} (hstate : w.proxy.mS5State = .trans)
    (hqueue : w.proxy.mOutQueue ≠ []) :
    w.onWritable = w.noteConnected.onProxy .sendOut := by
  obtain ⟨-, hstate', hqueue', -⟩ := noteConnected_same w
  unfold Served.onWritable
  simp only [hstate', hstate]
  exact if_pos (by rw [hqueue']; exact hqueue)

/-! ## A direct session -/

-- The socket is registered as long as the session lives, and written to while datagrams wait.
def Wired (s : UDPSession) : Prop :=
  s.mAlive = true → s.hasReactor = true ∧ Listens s.reactor s.mSocket ∧
    (s.mOutBuffer ≠ [] → WriteOn s.reactor s.mSocket)

theorem Wired.closed {s' : UDPSession} (h : s'.mAlive = false) : s'.Wired := by
  intro halive
  rw [h] at halive
  exact absurd halive (by decide)

-- A change of nothing the socket is about; the queue may get shorter.
theorem Wired.congr (h : s.Wired) {s' : UDPSession} (halive : s'.mAlive = s.mAlive)
    (hhas : s'.hasReactor = s.hasReactor) (hreactor : s'.reactor = s.reactor)
    (hsocket : s'.mSocket = s.mSocket) (hout : s'.mOutBuffer ≠ [] → s.mOutBuffer ≠ []) :
    s'.Wired := by
  intro hlive
  obtain ⟨hset, hlistens, hwrite⟩ := h (halive.symm.trans hlive)
  rw [hreactor, hsocket]
  exact ⟨hhas.trans hset, hlistens, fun hne => hwrite (hout hne)⟩

theorem countAccepted_same (ip : Datagram) (s : UDPSession) :
    (s.countAccepted ip).mAlive = s.mAlive ∧ (s.countAccepted ip).hasReactor = s.hasReactor ∧
      (s.countAccepted ip).reactor = s.reactor ∧ (s.countAccepted ip).mSocket = s.mSocket ∧
      (s.countAccepted ip).mCtrlType = s.mCtrlType ∧
      (s.countAccepted ip).spinning = s.spinning ∧ (s.countAccepted ip).handler = s.handler := by
  unfold countAccepted
  simp only
  split <;> exact ⟨rfl, rfl, rfl, rfl, rfl, rfl, rfl⟩

theorem writable_new (ip : Datagram) :
    (Segment.new ip.payload.length).writable ip.payload.length = ip.payload.length := by
  have hfits := ip.fits
  apply Segment.writable_of_le
  unfold Segment.remain Segment.capacity Segment.new
  simp only
  by_cases hsmall : ip.payload.length < 1 ∨ 2 ^ 19 < ip.payload.length
  · rw [if_pos hsmall]
    omega
  · rw [if_neg hsmall, List.length_replicate]
    omega

theorem Wired.accept (h : s.Wired) (ip : Datagram) :
    (s.accept ip (none : Option Socks5Proxy)).1.Wired := by
  unfold UDPSession.accept
  split
  · exact h
  · rename_i halive
    simp only [Option.isSome_none, Bool.false_eq_true, and_false, if_false, writable_new, if_true]
    obtain ⟨halive', hhas, hreactor, hsocket, -⟩ := countAccepted_same ip s
    intro _
    obtain ⟨hset, hlistens, -⟩ := h (by simpa using halive)
    unfold UDPSession.withReactor
    simp only [hhas, hset, if_true]
    have hadded := keepsWrite_addEvent (s.countAccepted ip).mSocket evWRITE
      (s.countAccepted ip).handler 0 (s.countAccepted ip).reactor
    rw [← hreactor, ← hsocket] at hlistens
    exact ⟨rfl, (hadded hlistens).1, fun _ => writeOn_addEvent hlistens _ 0⟩

theorem sendLoop_left (queue : List Segment) (sends : Nat → SendOutcome)
    (h : (sendLoop queue sends).1 ≠ []) : queue ≠ [] := by
  cases queue with
  | nil => exact absurd rfl h
  | cons segment queue => exact List.cons_ne_nil segment queue

theorem Wired.onWritable (h : s.Wired) : s.onWritable.Wired := by
  unfold UDPSession.onWritable
  by_cases hout : s.mOutBuffer = []
  · rw [if_pos hout]
    intro halive
    unfold UDPSession.withReactor at halive ⊢
    split at halive
    · rename_i hset
      obtain ⟨-, hlistens, -⟩ := h halive
      rw [if_pos hset]
      exact ⟨hset, hlistens.delEvent (by decide), fun hne => absurd hout hne⟩
    · rename_i hset
      rw [if_neg hset]
      exact h halive
  · rw [if_neg hout]
    simp only
    unfold countSent
    split
    · exact h.congr rfl rfl rfl rfl (sendLoop_left _ _)
    · exact h.congr rfl rfl rfl rfl (sendLoop_left _ _)

theorem Wired.step (h : s.Wired) {e : UDPFlow.Event}
    (hother : ∀ call, e = .reactor call → call.target ≠ s.mSocket) :
    (UDPFlow.stepDirect s e).Wired := by
  cases e with
  | accept ip => exact h.accept ip
  | readable outcome =>
    cases outcome with
    | received data => exact h.congr rfl rfl rfl rfl id
    | error errno => exact .closed rfl
  | writable => exact h.onWritable
  | exception error => exact .closed rfl
  | periodicCheck =>
    show (if s.timeout then s.close else s).Wired
    split
    · exact .closed rfl
    · exact h
  | reactor call =>
    intro halive
    obtain ⟨hset, ⟨hfd, events, hregistered, herror⟩, hwrite⟩ := h halive
    have hkept := hregistered.call (hother call rfl)
    refine ⟨hset, ⟨hfd, events, hkept, herror⟩, fun hne => ?_⟩
    have hbefore := hwrite hne
    unfold WriteOn at hbefore ⊢
    rw [hregistered.containWrite_iff] at hbefore
    exact hkept.containWrite_iff.mpr hbefore
  | environment now settings cipher => exact h.congr rfl rfl rfl rfl id

end UDPSession

namespace UDPFlow

open UDPSession

variable {w w' : Served UDPSession} {flow flow' : UDPFlow}

/-! ## One step -/

-- The descriptor of the outlet is registered as long as the session lives.
def Sound : UDPFlow → Prop
  | direct s => s.Wired
  | proxied w => w.mClient.spinning = false ∧ (w.mClient.mAlive = true → Open w.proxy)

theorem fed_proxied : (proxied w).Fed ↔ (w.mClient.mAlive = true → Awake w) :=
  ⟨fun h halive hstate hout => h halive hout hstate, fun h halive hout hstate => h halive hstate hout⟩

theorem Sound.fed_direct {s : UDPSession} (h : (direct s).Sound) : (direct s).Fed :=
  fun halive hout _ => (h halive).2.2 hout

theorem Sound.carries (h : (proxied w).Sound) (hcarries : Carries w w')
    (hspinning : w'.mClient.spinning = false) : (proxied w').Sound := by
  refine ⟨hspinning, fun halive => ?_⟩
  have hlive : Live w' := ⟨hspinning, halive⟩
  exact hcarries.open_ hlive (h.2 (hcarries.live hlive).2)

theorem Sound.fed_carries (h : (proxied w).Sound) (hfed : (proxied w).Fed)
    (hcarries : Carries w w') (hspinning : w'.mClient.spinning = false) : (proxied w').Fed := by
  rw [fed_proxied] at hfed ⊢
  intro halive
  have hlive : Live w' := ⟨hspinning, halive⟩
  have hbefore := (hcarries.live hlive).2
  exact hcarries.awake hlive (h.2 hbefore) (hfed hbefore)

-- A datagram accepted by a session that is alive is queued; the proxy is asked to send it if the
-- whole mask is `PROXY`.
theorem acceptProxied_alive (ip : Datagram) (halive : w.mClient.mAlive = true) :
    (acceptProxied ip w).mClient.mAlive = true ∧
      (acceptProxied ip w).mClient.spinning = w.mClient.spinning ∧
      (acceptProxied ip w).mClient.mOutBuffer ≠ [] ∧
      (acceptProxied ip w).proxy =
        if w.mClient.mCtrlType = ctrlPROXY then w.proxy.requestSendData else w.proxy := by
  obtain ⟨halive', -, -, -, hctrl, hspinning, -⟩ := countAccepted_same ip w.mClient
  unfold acceptProxied UDPSession.accept
  simp only [halive, Bool.true_eq_false, if_false, writable_new, if_true, hctrl, Option.isSome_some,
    and_true]
  by_cases hmask : w.mClient.mCtrlType = ctrlPROXY
  · simp only [if_pos hmask]
    exact ⟨halive'.trans halive, hspinning, by simp [noteTime], rfl⟩
  · simp only [if_neg hmask]
    unfold UDPSession.withReactor
    split
    · exact ⟨halive'.trans halive, hspinning, by simp [noteTime], trivial⟩
    · exact ⟨halive'.trans halive, hspinning, by simp [noteTime], trivial⟩

theorem acceptProxied_closed (ip : Datagram) (hclosed : w.mClient.mAlive = false) :
    acceptProxied ip w = w := by
  unfold acceptProxied UDPSession.accept
  rw [if_pos hclosed]

theorem open_acceptProxied (ip : Datagram) (h : (proxied w).Sound) :
    (proxied (acceptProxied ip w)).Sound := by
  cases halive : w.mClient.mAlive with
  | false =>
    rw [acceptProxied_closed ip halive]
    exact h
  | true =>
    obtain ⟨-, hspinning, -, hproxy⟩ := acceptProxied_alive ip halive
    refine ⟨hspinning.trans h.1, fun _ => ?_⟩
    rw [hproxy]
    split
    · exact (keepsOutlet_requestSendData w.proxy).open_ (h.2 halive)
    · exact h.2 halive

theorem accept_fed_iff (ip : Datagram) (h : (proxied w).Sound) :
    (proxied (acceptProxied ip w)).Fed ↔
      (w.mClient.mAlive = true → w.proxy.mS5State = .trans →
        w.mClient.mCtrlType = ctrlPROXY ∨
          w.proxy.reactor.containEvent w.proxy.mSocket evWRITE = 1) := by
  rw [fed_proxied]
  cases halive : w.mClient.mAlive with
  | false =>
    rw [acceptProxied_closed ip halive, halive]
    exact iff_of_true (fun hfalse => absurd hfalse (by decide)) fun hfalse => absurd hfalse (by decide)
  | true =>
    obtain ⟨halive', -, hout, hproxy⟩ := acceptProxied_alive ip halive
    have hopen := h.2 halive
    by_cases hmask : w.mClient.mCtrlType = ctrlPROXY
    · rw [if_pos hmask] at hproxy
      refine iff_of_true (fun _ hstate _ => ?_) fun _ _ => Or.inl hmask
      rw [hproxy] at hstate ⊢
      exact writeOn_requestSendData hopen
        ((keepsOutlet_requestSendData w.proxy).state.symm.trans hstate)
    · rw [if_neg hmask] at hproxy
      unfold Awake
      rw [hproxy]
      constructor
      · exact fun hawake _ hstate => Or.inr (hawake halive' hstate hout)
      · exact fun hwrite _ hstate _ => (hwrite rfl hstate).resolve_left hmask

-- The writable event while payload is queued in the proxy.
theorem onWritable_sending (h : (proxied w).Sound) (hstate : w.proxy.mS5State = .trans)
    (hqueue : w.proxy.mOutQueue ≠ []) :
    (proxied w.onWritable).Sound ∧
      ((proxied w).Fed →
        ((proxied w.onWritable).Fed ↔
          (w.mClient.mAlive = true → w.mClient.mOutBuffer ≠ [] →
            ¬ Refused w.proxy.mOutQueue w.proxy.sends))) := by
  obtain ⟨hclient, hstate', hqueue', hsends, hreactor, hsocket⟩ := noteConnected_same w
  have hcarries := carries_noteConnected w
  rw [onWritable_sends hstate hqueue, fed_proxied, fed_proxied]
  have hsame : (w.noteConnected.onProxy .sendOut).mClient = w.mClient := hclient
  have hopened (halive : w.mClient.mAlive = true) : Open w.noteConnected.proxy := by
    have hlive : Live w.noteConnected := by
      unfold Live
      rw [hclient]
      exact ⟨h.1, halive⟩
    exact hcarries.open_ hlive (h.2 halive)
  refine ⟨⟨(congrArg spinning hsame).trans h.1, fun halive => ?_⟩, fun hfed => ?_⟩
  · rw [hsame] at halive
    exact (open_sendOut (hopened halive)).1
  · unfold Awake
    rw [hsame]
    constructor
    · intro hafter halive hout
      obtain ⟨-, hkept, hwrite⟩ := open_sendOut (hopened halive)
      rw [hqueue', hsends] at hwrite
      exact (hwrite.mp (hafter halive (hkept.trans (hstate'.trans hstate)) hout)).2
    · intro htaken halive _ hout
      obtain ⟨-, -, hwrite⟩ := open_sendOut (hopened halive)
      rw [hqueue', hsends, hreactor, hsocket] at hwrite
      exact hwrite.mpr ⟨hfed halive hstate hout, htaken halive hout⟩

-- What the others do with the reactor.
theorem carries_reactor {call : EpollReactor.Call} (hother : call.target ≠ w.proxy.mSocket) :
    Carries w (w.onProxy fun p => { p with reactor := call.run p.reactor }) := by
  refine carries_onProxy ⟨rfl, fun hopen => ?_, fun hopen hwrite => ?_⟩
  · obtain ⟨hfd, events, hregistered, herror⟩ := hopen.listens
    exact ⟨hopen.alive, hopen.reactor, hfd, events, hregistered.call hother, herror⟩
  · obtain ⟨hfd, events, hregistered, herror⟩ := hopen.listens
    unfold WriteOn at hwrite ⊢
    rw [hregistered.containWrite_iff] at hwrite
    exact (hregistered.call hother).containWrite_iff.mpr hwrite

-- The events that carry everything.
theorem stepProxied_carries {e : Event} (hstep : stepProxied w e = some w')
    (hother : ∀ call, e = .reactor call → call.target ≠ w.proxy.mSocket)
    (haccept : ∀ ip, e ≠ .accept ip)
    (hwritable : e = .writable → w.proxy.mS5State = .trans → w.proxy.mOutQueue = []) :
    Carries w w' := by
  cases e with
  | accept ip => exact absurd rfl (haccept ip)
  | readable outcome => exact carries_onReadable hstep
  | writable =>
    cases hstep
    exact carries_onWritable w (hwritable rfl)
  | exception error =>
    cases hstep
    exact carries_switchS5State _ w
  | periodicCheck =>
    cases hstep
    exact .refl w
  | reactor call =>
    cases hstep
    exact carries_reactor (hother call rfl)
  | environment now settings cipher =>
    cases hstep
    have hclient : Carries w ⟨{ w.mClient with now := now }, w.proxy⟩ :=
      carries_of_same ⟨rfl, rfl, rfl⟩ rfl
    exact hclient.trans (carries_onProxy
      (f := fun p => { p with settings := settings, cipher := cipher }) (.of_eq rfl rfl rfl rfl rfl))

-- What a step does to the flow, and whether it leaves datagrams behind.
theorem step_fed (h : flow.Sound) {e : Event} (hstep : flow.step e = some flow') :
    flow'.Sound ∧ (flow.Fed → (flow'.Fed ↔ flow.Wakes e)) := by
  cases flow with
  | direct s =>
    obtain ⟨heq, hother⟩ := step_direct hstep
    have hsound : (direct (stepDirect s e)).Sound := Wired.step h hother
    rw [heq]
    refine ⟨hsound, fun _ => iff_of_true hsound.fed_direct ?_⟩
    cases e <;> trivial
  | proxied w =>
    obtain ⟨w', hw', heq, hspinning, hother⟩ := step_proxied hstep
    rw [heq]
    have hcarried (hcarries : Carries w w') (hwakes : (proxied w).Wakes e) :
        (proxied w').Sound ∧ ((proxied w).Fed → ((proxied w').Fed ↔ (proxied w).Wakes e)) :=
      ⟨h.carries hcarries hspinning,
        fun hfed => iff_of_true (h.fed_carries hfed hcarries hspinning) hwakes⟩
    cases e with
    | accept ip =>
      cases hw'
      exact ⟨open_acceptProxied ip h, fun _ => accept_fed_iff ip h⟩
    | writable =>
      by_cases hsending : w.proxy.mS5State = .trans ∧ w.proxy.mOutQueue ≠ []
      · cases hw'
        obtain ⟨hsound, hiff⟩ := onWritable_sending h hsending.1 hsending.2
        refine ⟨hsound, fun hfed => (hiff hfed).trans ?_⟩
        exact ⟨fun htaken halive _ _ => htaken halive,
          fun htaken halive => htaken halive hsending.1 hsending.2⟩
      · refine hcarried (stepProxied_carries hw' hother (fun ip hip => by cases hip) ?_) ?_
        · exact fun _ hstate => not_not.mp fun hqueue => hsending ⟨hstate, hqueue⟩
        · exact fun _ hstate hqueue => absurd ⟨hstate, hqueue⟩ hsending
    | _ =>
      refine hcarried (stepProxied_carries hw' hother (fun ip hip => by cases hip) ?_) trivial
      exact fun hwritable => by cases hwritable

/-! ## Runs -/

/-- A session as `buildSession` makes it, before `init`. -/
structure Fresh (s : UDPSession) : Prop where
  reactor : s.hasReactor = true
  empty : s.mOutBuffer = []
  still : s.spinning = false

/-- What `establish` leaves of a proxy, and what `connectRemote` finds: the descriptor is registered,
    which the kernel has not refused. -/
def Registers (reactor : EpollReactor) (fd : Int) (handler : Nat) (reactor' : EpollReactor) : Prop :=
  reactor.mFd2Events.lookup fd = none ∧ reactor.addEvent fd evALL handler 0 = (0, reactor')

structure Established (p : Socks5Proxy) : Prop where
  state : p.mS5State = .init
  alive : p.mAlive = true
  reactor : p.hasReactor = true
  registered : ∃ reactor, Registers reactor p.mSocket p.handler p.reactor

/-- A flow that `init` has made, whatever the mask. -/
def Born (flow : UDPFlow) : Prop :=
  ∃ (s : UDPSession) (socket : Option Int) (proxy : Option Socks5Proxy),
    Fresh s ∧ init socket proxy s = some flow ∧ (∀ p ∈ proxy, Established p) ∧
      ∀ fd ∈ socket, ∃ reactor', Registers s.reactor fd s.handler reactor'

theorem Registers.listens {reactor reactor' : EpollReactor} {fd : Int} {handler : Nat}
    (h : Registers reactor fd handler reactor') : Listens reactor' fd := by
  obtain ⟨hfd, hregistered⟩ := EpollReactor.registered_of_addEvent h.1 h.2
  exact ⟨hfd, evALL, hregistered, by decide⟩

theorem Born.sound (h : Born flow) : flow.Sound ∧ flow.Fed := by
  obtain ⟨s, socket, proxy, hfresh, hinit, hproxy, hsocket⟩ := h
  unfold init at hinit
  split at hinit
  · obtain ⟨p, hp, rfl⟩ := Option.map_eq_some_iff.mp hinit
    obtain ⟨-, halive, hreactor, reactor, hregisters⟩ := hproxy p hp
    refine ⟨⟨hfresh.still, fun _ => ⟨halive, hreactor, hregisters.listens⟩⟩, fun _ hout => ?_⟩
    exact absurd hfresh.empty hout
  · obtain ⟨fd, hfd, rfl⟩ := Option.map_eq_some_iff.mp hinit
    obtain ⟨reactor', hregisters⟩ := hsocket fd hfd
    have hlistens := hregisters.listens
    have hwired : (direct { s.connectRemote fd with mAlive := true }).Sound := by
      intro _
      refine ⟨hfresh.reactor, ?_, fun hout => absurd hfresh.empty hout⟩
      show Listens (s.reactor.addEvent fd evALL s.handler 0).2 fd
      rw [hregisters.2]
      exact hlistens
    exact ⟨hwired, hwired.fed_direct⟩

-- A step that does not come back is none of those that leave datagrams behind.
theorem wakes_of_none (h : flow.Sound) {e : Event} (hstep : flow.step e = none) : flow.Wakes e := by
  cases flow with
  | direct s => cases e <;> trivial
  | proxied w =>
    have hsettled {w' : Served UDPSession} (hspinning : w'.mClient.spinning = false)
        (hnone : settle w' = none) : False := by
      unfold settle at hnone
      rw [hspinning] at hnone
      cases hnone
    cases e with
    | accept ip => exact (hsettled (open_acceptProxied ip h).1 hstep).elim
    | writable =>
      intro _ hstate hqueue
      exact (hsettled (onWritable_sending h hstate hqueue).1.1 hstep).elim
    | _ => trivial

/-- After every step of a run the datagrams of a session that could be sent wait for an event that is
    asked for, if and only if every step of the run wakes the outlet. -/
theorem run_fed_iff {es : List Event} (hborn : Born flow) :
    Lib.Along step (fun flow e => ∀ t, flow.step e = some t → t.Fed) flow es ↔
      Lib.Along step Wakes flow es := by
  refine Lib.Along.leaves_iff Sound Fed (fun _ _ _ h hstep => (step_fed h hstep).1) ?_
    hborn.sound.1 hborn.sound.2
  intro flow e h hfed
  cases hstep : flow.step e with
  | none => exact iff_of_true (fun t ht => by cases ht) (wakes_of_none h hstep)
  | some t =>
    have hiff := (step_fed h hstep).2 hfed
    constructor
    · exact fun hall => hiff.mp (hall t rfl)
    · intro hwakes t' ht'
      cases ht'
      exact hiff.mpr hwakes

/-! ## A datagram left behind -/

def sampleSession : UDPSession where
  mSrcPort := 1000
  mDestPort := 53
  mSrcAddr := 1
  mDestAddr := 2
  mCtrlType := ctrlPROXY ||| ctrlCAPTURE
  reactor := (Served.sampleProxy .init).reactor
  handler := 2
  now := 0
  sends _ := .accepted 0
  rounds := 8

def sampleTunnel : Socks5Proxy :=
  { Served.sampleProxy .init with
    reactor := ((Served.sampleProxy .init).reactor.addEvent 3 evALL 1 0).2 }

def sampleFlow (mask : U32) : Served UDPSession :=
  ⟨{ sampleSession with mAlive := true, mCtrlType := mask }, sampleTunnel⟩

theorem sampleFlow_born {mask : U32} (hmask : mask &&& ctrlPROXY ≠ 0) :
    Born (proxied (sampleFlow mask)) := by
  have hproxied : (mask &&& ctrlPROXY != 0) = true := bne_iff_ne.mpr hmask
  refine ⟨{ sampleSession with mCtrlType := mask }, none, some sampleTunnel, ⟨rfl, rfl, rfl⟩,
    if_pos hproxied, ?_, ?_⟩
  · intro p hp
    cases hp
    exact ⟨rfl, rfl, rfl, (Served.sampleProxy .init).reactor, rfl, rfl⟩
  · intro fd hfd
    cases hfd

def sampleChosen : Sealed := Served.sampleSealed [5, 0] (by decide) (by decide)

theorem handle_chosen {b d : Bytes} (h : w.Stands .greet b d)
    (hsettings : w.proxy.settings = ⟨0, none, none⟩) :
    (w.handle [5, 0]).Stands .connect b d ∧ (w.handle [5, 0]).mClient = w.mClient := by
  have hhandled := h.handled [5, 0]
  have hhandle : w.handle [5, 0] =
      (w.onProxy (.emit (.handled [5, 0]))).sendS5Connect.2.switchS5State .connect := by
    unfold Served.handle
    simp only
    rw [hhandled.state]
    simp only
    unfold Served.handleS5GreetBack
    have hmask : byteAt [5, 0] 0 = 0x05 ∧ Served.containS5Verify
        (w.onProxy (.emit (.handled [5, 0]))).proxy.settings.verifyMethod (byteAt [5, 0] 1) := by
      show byteAt [5, 0] 0 = 0x05 ∧
        Served.containS5Verify w.proxy.settings.verifyMethod (byteAt [5, 0] 1)
      rw [hsettings]
      decide
    rw [if_neg (by decide), if_pos hmask, if_pos (by decide)]
  have hsent : (w.onProxy (.emit (.handled [5, 0]))).sendS5Connect.2.Stands .greet b d :=
    (hhandled.sendS5 .connect _).1
  obtain ⟨hentered, hswitch⟩ := hsent.enter (Or.inr (Or.inr rfl)) (by decide)
  rw [hhandle]
  have hclient := congrArg Served.mClient hswitch
  exact ⟨hentered, hclient⟩

theorem pauseSendData_open {p : Socks5Proxy} (hopen : Open p) (hstate : p.mS5State = .trans) :
    p.pauseSendData = { p with reactor := (p.reactor.delEvent p.mSocket evWRITE).2 } := by
  unfold Socks5Proxy.pauseSendData Socks5Proxy.whileTrans Socks5Proxy.withReactor
  rw [if_pos ⟨hopen.alive, hstate⟩, if_pos hopen.reactor]

-- The session is asked for data, has none, and lets the proxy pause.
theorem enter_trans {old : S5State} {b d : Bytes} (h : w.Stands old b d) (hne : old ≠ .trans)
    (hout : w.mClient.mOutBuffer = []) :
    w.switchS5State .trans = ⟨w.mClient, Socks5Proxy.pauseSendData
      (.emit (.switched old .trans) { w.proxy with mS5State := .trans })⟩ := by
  have hcall (p : Socks5Proxy) :
      (ITunnelClient.onTunnelWritable w.mClient p).2 = (w.mClient, p.pauseSendData) := by
    show (w.mClient.onTunnelWritable p).2 = _
    unfold onTunnelWritable
    rw [if_pos hout]
    rfl
  unfold Served.switchS5State
  rw [h.state, if_neg hne]
  simp only [Served.onProxy, h.state]
  unfold Served.callBack
  simp only [hcall]

-- The connection stands, and nothing waits to be sent.
theorem handle_connected {b d : Bytes} (h : w.Stands .connect b d) (hopen : Open w.proxy)
    (hout : w.mClient.mOutBuffer = []) :
    (∃ d', (w.handle [5, 0, 0, 1]).Stands .trans b d') ∧
      (w.handle [5, 0, 0, 1]).mClient = w.mClient ∧
      ¬ WriteOn (w.handle [5, 0, 0, 1]).proxy.reactor (w.handle [5, 0, 0, 1]).proxy.mSocket := by
  have hhandled := h.handled [5, 0, 0, 1]
  have hhandle : w.handle [5, 0, 0, 1] =
      (w.onProxy (.emit (.handled [5, 0, 0, 1]))).switchS5State .trans := by
    unfold Served.handle
    simp only
    rw [hhandled.state]
    simp only
    unfold Served.handleS5ConnBack
    rw [if_neg (by decide), if_neg (by decide), if_neg (by decide)]
  rw [hhandle, enter_trans hhandled (by decide) hout]
  have hkept : Open (Socks5Proxy.emit (.switched .connect .trans)
      { (w.onProxy (.emit (.handled [5, 0, 0, 1]))).proxy with mS5State := .trans }) :=
    ⟨hopen.alive, hopen.reactor, hopen.listens⟩
  rw [pauseSendData_open hkept rfl]
  exact ⟨⟨_, rfl, hhandled.buffered, rfl⟩, rfl, not_writeOn_delEvent hopen.listens⟩

-- The proxy with the greeting queued.
theorem sampleFlow_greets (mask : U32) :
    (∃ d, (sampleFlow mask).onWritable.Stands .greet [] d) ∧
      (sampleFlow mask).onWritable.mClient = (sampleFlow mask).mClient ∧
      (sampleFlow mask).onWritable.proxy.settings = ⟨0, none, none⟩ := by
  have hstart : (sampleFlow mask).Stands .init [] [] := ⟨rfl, Segment.readable_new _, rfl⟩
  have hsent : (sampleFlow mask).sendS5Greet.2.Stands .init [] [] ∧
      (sampleFlow mask).sendS5Greet.2.proxy.settings = (sampleFlow mask).proxy.settings := hstart.sendS5 .greet _
  obtain ⟨hentered, hswitch⟩ := hsent.1.enter (Or.inl rfl) (by decide)
  have hwritable : (sampleFlow mask).onWritable = (sampleFlow mask).sendS5Greet.2.switchS5State .greet := rfl
  have hclient := congrArg Served.mClient hswitch
  have hproxy := congrArg (fun w => w.proxy.settings) hswitch
  rw [hwritable]
  exact ⟨⟨[], hentered⟩, hclient, hproxy.trans hsent.2⟩

-- A read of the proxied session that has come back.
theorem step_readable {outcome : Served.ReadOutcome} (h : w.onReadable outcome = some w')
    (hspinning : w'.mClient.spinning = false) :
    (proxied w).step (.readable outcome) = some (proxied w') := by
  show (w.onReadable outcome).bind settle = _
  rw [h]
  show settle w' = _
  unfold settle
  rw [hspinning]
  rfl

theorem noteConnected_open (hopen : Open w.proxy) : Open w.noteConnected.proxy := by
  unfold Served.noteConnected
  split
  · exact hopen
  · exact ⟨hopen.alive, hopen.reactor, hopen.listens⟩

-- What `noteConnected` and a round without a message leave alone.
theorem unmoved_same (h : Served.Unmoved w.noteConnected w') :
    w'.mClient = w.mClient ∧ w'.proxy.settings = w.proxy.settings ∧
      (Open w.proxy → Open w'.proxy) := by
  obtain ⟨hclient, -⟩ := noteConnected_same w
  obtain ⟨c, b, rfl⟩ := h
  refine ⟨hclient, (Served.noteConnected_kept w).settings, fun hopen => ?_⟩
  obtain ⟨halive, hreactor, hlistens⟩ := noteConnected_open hopen
  exact ⟨halive, hreactor, hlistens⟩

theorem unmoved_outlet (h : Served.Unmoved w w') :
    w'.mClient = w.mClient ∧ w'.proxy.mS5State = w.proxy.mS5State ∧
      w'.proxy.reactor = w.proxy.reactor ∧ w'.proxy.mSocket = w.proxy.mSocket := by
  obtain ⟨c, b, rfl⟩ := h
  exact ⟨rfl, rfl, rfl, rfl⟩

def sampleReplies : List Event :=
  [.writable, .readable (.received sampleChosen.wire), .readable (.received Served.sampleReply.wire)]

-- The proxy is connected, and has nothing to send.
theorem sampleFlow_connects {mask : U32} (hmask : mask &&& ctrlPROXY ≠ 0) :
    ∃ w, Lib.run step (proxied (sampleFlow mask)) sampleReplies = some (proxied w) ∧
      w.mClient = (sampleFlow mask).mClient ∧ w.proxy.mS5State = .trans ∧
      ¬ WriteOn w.proxy.reactor w.proxy.mSocket := by
  obtain ⟨⟨d, hgreet⟩, hclient, hsettings⟩ := sampleFlow_greets mask
  have hwritable : (proxied (sampleFlow mask)).step .writable = some (proxied (sampleFlow mask).onWritable) := by
    show settle (sampleFlow mask).onWritable = _
    unfold settle
    rw [hclient]
    rfl
  have hsound := (step_fed (sampleFlow_born hmask).sound.1 hwritable).1
  -- the reply to the greeting
  obtain ⟨w₁, w₂, hunmoved, hfront, hkept, hnext, hread⟩ := Served.onReadable_sealed sampleChosen hgreet
    fun w h hstands => ⟨_, d, (handle_chosen hstands ((unmoved_same h).2.1.trans hsettings)).1⟩
  obtain ⟨hclient₁, hsettings₁, -⟩ := unmoved_same hunmoved
  obtain ⟨hconnect, hclient₂⟩ := handle_chosen hfront (hsettings₁.trans hsettings)
  have hclient₂ : w₂.mClient = (sampleFlow mask).mClient :=
    (unmoved_outlet hkept).1.trans (hclient₂.trans (hclient₁.trans hclient))
  have hsecond := step_readable hread (by rw [hclient₂]; rfl)
  have hopen : Open w₂.proxy := (step_fed hsound hsecond).1.2 (by rw [hclient₂]; rfl)
  -- the reply to the request
  have hidle (w : Served UDPSession) (h : Served.Unmoved w₂.noteConnected w) :
      Open w.proxy ∧ w.mClient.mOutBuffer = [] := by
    obtain ⟨hsame, -, hopened⟩ := unmoved_same h
    rw [hsame, hclient₂]
    exact ⟨hopened hopen, rfl⟩
  obtain ⟨w₃, w₄, hunmoved', hfront', hkept', hlast, hread'⟩ :=
    Served.onReadable_sealed Served.sampleReply (hnext _ _ hconnect) fun w h hstands => by
      obtain ⟨⟨d', htrans⟩, -⟩ := handle_connected hstands (hidle w h).1 (hidle w h).2
      exact ⟨_, d', htrans⟩
  obtain ⟨⟨d', htrans⟩, hclient₄, hpaused⟩ :=
    handle_connected hfront' (hidle w₃ hunmoved').1 (hidle w₃ hunmoved').2
  obtain ⟨hsame, hstate, hreactor, hsocket⟩ := unmoved_outlet hkept'
  have hclient₄ : w₄.mClient = (sampleFlow mask).mClient :=
    hsame.trans (hclient₄.trans ((unmoved_same hunmoved').1.trans hclient₂))
  refine ⟨w₄, ?_, hclient₄, hstate.trans htrans.state, ?_⟩
  · have hthird := step_readable hread' (by rw [hclient₄]; rfl)
    rw [sampleReplies, Lib.run_cons _ hwritable, Lib.run_cons _ hsecond, Lib.run_cons _ hthird, Lib.run_nil]
  · rw [hreactor, hsocket]
    exact hpaused

def sampleDatagram : Datagram := ⟨[0x61], by decide⟩

-- A datagram for the connected proxy.
theorem sampleFlow_accepts {mask : U32} (hmask : mask &&& ctrlPROXY ≠ 0) :
    ∃ w w' : Served UDPSession,
      Lib.run step (proxied (sampleFlow mask)) (sampleReplies ++ [.accept sampleDatagram]) =
        some (proxied w') ∧
      w.mClient = (sampleFlow mask).mClient ∧ w.proxy.mS5State = .trans ∧
      ¬ WriteOn w.proxy.reactor w.proxy.mSocket ∧ w'.mClient.mAlive = true ∧
      w'.mClient.mOutBuffer ≠ [] ∧
      w'.proxy = if mask = ctrlPROXY then w.proxy.requestSendData else w.proxy := by
  obtain ⟨w, hrun, hclient, hstate, hpaused⟩ := sampleFlow_connects hmask
  have halive : w.mClient.mAlive = true := by
    rw [hclient]
    rfl
  obtain ⟨halive', hspinning, hout, hproxy⟩ := acceptProxied_alive sampleDatagram halive
  have haccepted : (proxied w).step (.accept sampleDatagram) =
      some (proxied (acceptProxied sampleDatagram w)) := by
    show settle (acceptProxied sampleDatagram w) = _
    unfold settle
    rw [hspinning, hclient]
    rfl
  rw [show w.mClient.mCtrlType = mask by rw [hclient]; rfl] at hproxy
  refine ⟨w, acceptProxied sampleDatagram w, ?_, hclient, hstate, hpaused, halive', hout, hproxy⟩
  rw [Lib.run_append _ hrun, Lib.run_cons [] haccepted, Lib.run_nil]

/-- The mask is not `PROXY` alone: nobody asks for the event of the proxy. -/
theorem run_unfed :
    Born (proxied (sampleFlow (ctrlPROXY ||| ctrlCAPTURE))) ∧
      ∃ flow, Lib.run step (proxied (sampleFlow (ctrlPROXY ||| ctrlCAPTURE)))
        (sampleReplies ++ [.accept sampleDatagram]) = some flow ∧ ¬ flow.Fed := by
  have hmask : (ctrlPROXY ||| ctrlCAPTURE) &&& ctrlPROXY ≠ 0 := by decide
  obtain ⟨w, w', hrun, -, hstate, hpaused, halive, hout, hproxy⟩ := sampleFlow_accepts hmask
  rw [if_neg (by decide)] at hproxy
  refine ⟨sampleFlow_born hmask, proxied w', hrun, fun hfed => ?_⟩
  have hwrite := fed_proxied.mp hfed halive (by rw [hproxy]; exact hstate) hout
  rw [hproxy] at hwrite
  exact hpaused hwrite

/-- The mask is `PROXY` alone. -/
theorem run_fed_sample :
    ∃ w', Lib.run step (proxied (sampleFlow ctrlPROXY)) (sampleReplies ++ [.accept sampleDatagram]) =
        some (proxied w') ∧ w'.mClient.mOutBuffer ≠ [] ∧
      Lib.Along step (fun flow e => ∀ t, flow.step e = some t → t.Fed) (proxied (sampleFlow ctrlPROXY))
        (sampleReplies ++ [.accept sampleDatagram]) := by
  have hmask : ctrlPROXY &&& ctrlPROXY ≠ 0 := by decide
  obtain ⟨-, w', hrun, -, -, -, -, hout, -⟩ := sampleFlow_accepts hmask
  refine ⟨w', hrun, hout, (run_fed_iff (sampleFlow_born hmask)).mpr ?_⟩
  have hreads : ∀ e ∈ sampleReplies.tail, ∀ flow : UDPFlow, flow.Wakes e := by
    intro e he flow
    rcases List.mem_pair.mp he with rfl | rfl <;> cases flow <;> trivial
  have hreplies : Lib.Along step Wakes (proxied (sampleFlow ctrlPROXY)) sampleReplies := by
    refine ⟨fun _ hstate => absurd hstate (by decide), ?_⟩
    split
    · trivial
    · exact .of_forall hreads _
  refine hreplies.append fun flow hflow => .single ?_
  obtain ⟨w, hconnected, hclient, -, -⟩ := sampleFlow_connects hmask
  cases hconnected.symm.trans hflow
  exact fun _ _ => .inl (congrArg UDPSession.mCtrlType hclient)

end UDPFlow

end NetCore
