import NetCore.Socks5Proxy.Message
import NetCore.Socks5Proxy.Outlet
import NetCore.UDPSession

/-!
# The outlet of a UDP session

`mOutBuffer` is drained on the write event of one descriptor: the socket of a direct session, or the
socket of the proxy once it passes payload on.  `Open` says that the descriptor is registered for as
long as the session lives, `Awake` that the write event is asked for while datagrams wait.
-/

namespace NetCore

open EpollReactor (Listens WriteOn KeepsWrite)
open Socks5Proxy (Open KeepsOutlet keepsOutlet_sendData keepsOutlet_encryptAndQueue
  open_pauseSendData)

namespace UDPSession

variable {s : UDPSession} {p p' : Socks5Proxy}

/-! ## The loop over the proxy -/

def leftOf (segment : Segment) (n : Nat) (queue : List Segment) : List Segment :=
  if (segment.consume n).size ≤ 0 then queue else segment.consume n :: queue

theorem tunnelLoop_sent {τ : Type} [ITunnel τ] (rounds : Nat) {segment : Segment}
    (queue : List Segment) {tunnel tunnel' : τ} {n : Nat}
    (h : ITunnel.sendData tunnel segment.readable false = .sent n tunnel') :
    tunnelLoop (rounds + 1) (segment :: queue) tunnel =
      { tunnelLoop rounds (leftOf segment n queue) tunnel' with
        sent := n + (tunnelLoop rounds (leftOf segment n queue) tunnel').sent } := by
  simp only [tunnelLoop, h]
  rfl

-- A loop of `onTunnelWritable` that comes back leaves an empty queue: a proxy never fails.
theorem tunnelLoop_proxy (rounds : Nat) (queue : List Segment) (p : Socks5Proxy) :
    KeepsOutlet p (tunnelLoop rounds queue p).tunnel ∧
      (tunnelLoop rounds queue p).failed = none ∧
      ((tunnelLoop rounds queue p).spinning = false → (tunnelLoop rounds queue p).queue = []) := by
  induction rounds generalizing queue p with
  | zero =>
    cases queue with
    | nil => exact ⟨.refl p, rfl, fun _ => rfl⟩
    | cons segment queue => exact ⟨.refl p, rfl, fun h => absurd h (by simp [tunnelLoop])⟩
  | succ rounds ih =>
    cases queue with
    | nil => exact ⟨.refl p, rfl, fun _ => rfl⟩
    | cons segment queue =>
      cases hsend : ITunnel.sendData p segment.readable false with
      | failed reason p' => exact absurd hsend Socks5Proxy.sendData_ne_failed
      | sent n p' =>
        have hloop := ih (leftOf segment n queue) p'
        rw [tunnelLoop_sent rounds queue hsend]
        exact ⟨(keepsOutlet_sendData hsend).trans hloop.1, hloop.2⟩

/-! ## A proxied session -/

variable {w w' : Served UDPSession}

-- Nothing is asked of a session that is closed, or whose loop never comes back.
def Live (w : Served UDPSession) : Prop := w.mClient.spinning = false ∧ w.mClient.mAlive = true

def Awake (w : Served UDPSession) : Prop :=
  w.proxy.mS5State = .trans → w.mClient.mOutBuffer ≠ [] → WriteOn w.proxy.reactor w.proxy.mSocket

-- What a call may do to a session and its proxy.
structure Carries (w w' : Served UDPSession) : Prop where
  live : Live w' → Live w
  open_ : Live w' → Open w.proxy → Open w'.proxy
  awake : Live w' → Open w.proxy → Awake w → Awake w'

theorem Carries.refl (w : Served UDPSession) : Carries w w := ⟨id, fun _ => id, fun _ _ => id⟩

theorem Carries.trans {w'' : Served UDPSession} (h : Carries w w') (h' : Carries w' w'') :
    Carries w w'' where
  live hlive := h.live (h'.live hlive)
  open_ hlive hopen := h'.open_ hlive (h.open_ (h'.live hlive) hopen)
  awake hlive hopen hawake :=
    h'.awake hlive (h.open_ (h'.live hlive) hopen) (h.awake (h'.live hlive) hopen hawake)

-- A session that is closed carries everything.
theorem Carries.closed (h : w'.mClient.mAlive = false) : Carries w w' := by
  have hnot : ¬ Live w' := fun hlive => by
    have halive := hlive.2
    rw [h] at halive
    exact absurd halive (by decide)
  exact ⟨fun hlive => absurd hlive hnot, fun hlive => absurd hlive hnot,
    fun hlive => absurd hlive hnot⟩

theorem carries_onProxy {f : Socks5Proxy → Socks5Proxy} (h : KeepsOutlet w.proxy (f w.proxy)) :
    Carries w (w.onProxy f) where
  live := id
  open_ _ := h.open_
  awake _ hopen hawake hstate hout := h.write hopen (hawake (h.state.symm.trans hstate) hout)

-- Outside `S_TRANS` only the registration counts.
theorem carries_of_state (hclient : w'.mClient = w.mClient)
    (hopen : Open w.proxy → Open w'.proxy) (hstate : w'.proxy.mS5State ≠ .trans) : Carries w w' where
  live hlive := by
    unfold Live at hlive ⊢
    rw [← hclient]
    exact hlive
  open_ _ := hopen
  awake _ _ _ htrans := absurd htrans hstate

-- An empty queue waits for nothing.
theorem carries_of_drained (hlive : Live w' → Live w) (hopen : Live w' → Open w.proxy → Open w'.proxy)
    (hout : Live w' → w'.mClient.mOutBuffer = []) : Carries w w' where
  live := hlive
  open_ := hopen
  awake hlive' _ _ _ hnonempty := absurd (hout hlive') hnonempty

@[simp] theorem mAlive_countSent (n : Nat) (s : UDPSession) : (s.countSent n).mAlive = s.mAlive := by
  unfold countSent
  split <;> rfl

@[simp] theorem spinning_countSent (n : Nat) (s : UDPSession) :
    (s.countSent n).spinning = s.spinning := by
  unfold countSent
  split <;> rfl

@[simp] theorem mOutBuffer_countSent (n : Nat) (s : UDPSession) :
    (s.countSent n).mOutBuffer = s.mOutBuffer := by
  unfold countSent
  split <;> rfl

-- `onTunnelWritable` of a session served by a proxy: unless its loop goes on for ever, nothing is
-- left to send.
theorem onTunnelWritable_proxy (s : UDPSession) (p : Socks5Proxy) :
    (s.onTunnelWritable p).2.1.mAlive = s.mAlive ∧
      ((s.onTunnelWritable p).2.1.spinning = false →
        s.spinning = false ∧ (s.onTunnelWritable p).2.1.mOutBuffer = []) ∧
      (Open p → Open (s.onTunnelWritable p).2.2) := by
  unfold onTunnelWritable
  by_cases hout : s.mOutBuffer = []
  · rw [if_pos hout]
    exact ⟨rfl, fun h => ⟨h, hout⟩, open_pauseSendData⟩
  · obtain ⟨hkeeps, hfailed, hqueue⟩ := tunnelLoop_proxy s.rounds s.mOutBuffer p
    rw [if_neg hout]
    simp only [hfailed, mAlive_countSent, spinning_countSent, mOutBuffer_countSent]
    refine ⟨trivial, fun hspinning => ?_, hkeeps.open_⟩
    rw [Bool.or_eq_false_iff] at hspinning
    exact ⟨hspinning.1, hqueue hspinning.2⟩

-- The client is asked for data.
theorem carries_onTunnelWritable (w : Served UDPSession) :
    Carries w (w.callBack fun c p => (c.onTunnelWritable p).2) := by
  obtain ⟨halive, hspinning, hopen⟩ := onTunnelWritable_proxy w.mClient w.proxy
  refine carries_of_drained (fun hlive => ⟨(hspinning hlive.1).1, ?_⟩) (fun _ => hopen)
    fun hlive => (hspinning hlive.1).2
  exact halive.symm.trans hlive.2

theorem carries_switchS5State (state : S5State) (w : Served UDPSession) :
    Carries w (w.switchS5State state) := by
  unfold Served.switchS5State
  by_cases hsame : w.proxy.mS5State = state
  · rw [if_pos hsame]
    exact .refl w
  · rw [if_neg hsame]
    have hopen (state : S5State) (hopen : Open w.proxy) :
        Open (Socks5Proxy.emit (.switched w.proxy.mS5State state)
          { w.proxy with mS5State := state }) := ⟨hopen.alive, hopen.reactor, hopen.listens⟩
    cases state with
    | trans =>
      -- the change of state alone would leave the datagrams waiting
      have hcalled := carries_onTunnelWritable (w.onProxy fun p =>
        .emit (.switched p.mS5State .trans) { p with mS5State := .trans })
      obtain ⟨halive, hspinning, -⟩ := onTunnelWritable_proxy w.mClient
        (Socks5Proxy.emit (.switched w.proxy.mS5State .trans) { w.proxy with mS5State := .trans })
      refine carries_of_drained hcalled.live (fun hlive h => hcalled.open_ hlive (hopen .trans h)) ?_
      exact fun hlive => (hspinning hlive.1).2
    | failed => exact .closed rfl
    | ended => exact .closed rfl
    | init => exact carries_of_state rfl (hopen .init) (by simp [Served.onProxy, Socks5Proxy.emit])
    | greet => exact carries_of_state rfl (hopen .greet) (by simp [Served.onProxy, Socks5Proxy.emit])
    | verify => exact carries_of_state rfl (hopen .verify) (by simp [Served.onProxy, Socks5Proxy.emit])
    | connect =>
      exact carries_of_state rfl (hopen .connect) (by simp [Served.onProxy, Socks5Proxy.emit])

theorem carries_sendS5 (kind : S5Message) (data : Bytes) (w : Served UDPSession) :
    Carries w (w.sendS5 kind data).2 :=
  carries_onProxy (f := fun p => (p.encryptAndQueue (.socks5 kind) data).2)
    (keepsOutlet_encryptAndQueue _ data w.proxy)

theorem carries_sendS5Account (w : Served UDPSession) : Carries w w.sendS5Account.2 := by
  unfold Served.sendS5Account
  split
  · exact carries_sendS5 _ _ w
  · exact .refl w

-- The fields of a session its outlet is about.
structure SameOut (s s' : UDPSession) : Prop where
  mAlive : s'.mAlive = s.mAlive
  spinning : s'.spinning = s.spinning
  mOutBuffer : s'.mOutBuffer = s.mOutBuffer

theorem SameOut.refl (s : UDPSession) : SameOut s s := ⟨rfl, rfl, rfl⟩

theorem SameOut.trans {s s' s'' : UDPSession} (h : SameOut s s') (h' : SameOut s' s'') :
    SameOut s s'' :=
  ⟨h'.mAlive.trans h.mAlive, h'.spinning.trans h.spinning, h'.mOutBuffer.trans h.mOutBuffer⟩

theorem replyLoop_same (length : U32) (fuel : Nat) (data : Bytes) (s : UDPSession) :
    SameOut s (replyLoop length fuel data s) := by
  induction fuel generalizing data s with
  | zero => exact .refl s
  | succ fuel ih =>
    rw [replyLoop]
    split
    · exact .refl s
    · have hemitted (points : List UDPPoint) : SameOut s (s.emit points) := ⟨rfl, rfl, rfl⟩
      simp only
      exact (hemitted _).trans (ih _ _)

theorem carries_of_same (hclient : SameOut w.mClient w'.mClient) (hproxy : w'.proxy = w.proxy) :
    Carries w w' where
  live hlive := ⟨hclient.spinning.symm.trans hlive.1, hclient.mAlive.symm.trans hlive.2⟩
  open_ _ hopen := by
    rw [hproxy]
    exact hopen
  awake _ _ hawake hstate hout := by
    rw [hproxy] at hstate ⊢
    rw [hclient.mOutBuffer] at hout
    exact hawake hstate hout

theorem carries_passBack (data : Bytes) (w : Served UDPSession) : Carries w (w.passBack data) := by
  unfold Served.passBack
  have hcounted : Carries w (w.onProxy fun p =>
      .emit (.dataBack data)
        { p with mPayloadDataBack := p.mPayloadDataBack + BitVec.ofNat 32 data.length }) :=
    carries_onProxy (.of_eq rfl rfl rfl rfl rfl)
  refine hcounted.trans ?_
  show Carries _ (Served.callBack (fun c p => c.onTunnelDataBack data p) _)
  unfold onTunnelDataBack
  by_cases hdata : data = []
  · simp only [if_pos hdata]
    exact .closed rfl
  · simp only [if_neg hdata]
    refine carries_of_same ?_ rfl
    exact (replyLoop_same _ _ _ _).trans ⟨rfl, rfl, rfl⟩

theorem carries_noteConnected (w : Served UDPSession) : Carries w w.noteConnected := by
  unfold Served.noteConnected
  split
  · exact .refl w
  · exact carries_onProxy (f := fun p => { p with mConnected := true }) (.of_eq rfl rfl rfl rfl rfl)

theorem carries_reads : ReadRelation Carries where
  refl := .refl
  trans := Carries.trans
  handled _ _ := carries_onProxy (.of_eq rfl rfl rfl rfl rfl)
  ends w _ := carries_switchS5State _ w
  connect {w} _ := (carries_sendS5 _ _ w).trans (carries_switchS5State _ _)
  account {w state} _ _ := (carries_sendS5Account w).trans (carries_switchS5State state _)
  established {w} _ := carries_switchS5State .trans w
  passBack data w _ := carries_passBack data w
  cipher _ _ := carries_onProxy (.of_eq rfl rfl rfl rfl rfl)
  buffer _ _ := carries_onProxy (.of_eq rfl rfl rfl rfl rfl)
  noteConnected := carries_noteConnected

theorem carries_onReadable {outcome : Served.ReadOutcome} (h : w.onReadable outcome = some w') :
    Carries w w' := carries_reads.onReadable h

end UDPSession

/-! ## Steps of a flow -/

namespace UDPFlow

variable {flow : UDPFlow} {w : Served UDPSession}

theorem settle_eq (h : settle w = some flow) : flow = proxied w ∧ w.mClient.spinning = false := by
  unfold settle at h
  split at h
  · cases h
  · rename_i hspinning
    cases h
    exact ⟨rfl, by simpa using hspinning⟩

theorem step_direct {s : UDPSession} {e : Event} (hstep : (direct s).step e = some flow) :
    flow = direct (stepDirect s e) ∧ ∀ call, e = .reactor call → call.target ≠ s.mSocket := by
  cases e with
  | reactor call =>
    by_cases htarget : call.target = s.mSocket
    · exact absurd ((if_pos htarget).symm.trans hstep) (by simp)
    · cases (if_neg htarget).symm.trans hstep
      refine ⟨rfl, fun call' heq => ?_⟩
      cases heq
      exact htarget
  | _ =>
    cases hstep
    exact ⟨rfl, fun call heq => by cases heq⟩

theorem step_proxied {e : Event} (hstep : (proxied w).step e = some flow) :
    ∃ w', stepProxied w e = some w' ∧ flow = proxied w' ∧ w'.mClient.spinning = false ∧
      ∀ call, e = .reactor call → call.target ≠ w.proxy.mSocket := by
  have hbind (h : (stepProxied w e).bind settle = some flow) :
      ∃ w', stepProxied w e = some w' ∧ flow = proxied w' ∧ w'.mClient.spinning = false := by
    obtain ⟨w', hw', hsettle⟩ := Option.bind_eq_some_iff.mp h
    exact ⟨w', hw', settle_eq hsettle⟩
  cases e with
  | reactor call =>
    by_cases htarget : call.target = w.proxy.mSocket
    · exact absurd ((if_pos htarget).symm.trans hstep) (by simp)
    · obtain ⟨w', hw', heq, hspinning⟩ := hbind ((if_neg htarget).symm.trans hstep)
      refine ⟨w', hw', heq, hspinning, fun call' hcall => ?_⟩
      cases hcall
      exact htarget
  | _ =>
    obtain ⟨w', hw', heq, hspinning⟩ := hbind hstep
    exact ⟨w', hw', heq, hspinning, fun call heq => by cases heq⟩

end UDPFlow

end NetCore
