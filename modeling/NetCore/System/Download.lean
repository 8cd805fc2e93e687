import NetCore.Lib.Reaches
import NetCore.Socks5Proxy.Delivery
import NetCore.System.Reassembly
import NetCore.TCPSession.Interest

/-!
# From the parcels of the proxy to the packets of the application

A session behind a proxy is a session whose tunnel changes on its own: every event of the two is a
few events of the session, and the payload that comes with them is what the proxy passes back.  So
what holds of the packets of a session holds behind the parcels of the proxy's server.
-/

namespace NetCore
namespace ProxiedSession

open Lib (Assembled Reaches)
open Socks5Proxy (Kept delivered_emit kept_of_calls kept_whileTrans)
open TCPSession (onTunnelWritable_calls calls_relation)

variable {w w' : ProxiedSession}

/-! ## The session in the two of them -/

-- The joined session takes steps of its own, and the tunnel delivers to it what the proxy passes
-- back.
def Follows (w w' : ProxiedSession) : Prop :=
  Lib.Follows TCPSession.step TCPSession.Event.download joined (fun w => w.proxy.delivered) w w'

theorem Follows.refl (w : ProxiedSession) : Follows w w := Lib.Follows.refl w

theorem Follows.trans {w'' : ProxiedSession} (h : Follows w w') (h' : Follows w' w'') :
    Follows w w'' := Lib.Follows.trans h h'

-- One step of the session, with which nothing is passed back.
theorem Follows.of_step {e : TCPSession.Event Socks5Proxy}
    (hstep : TCPSession.step w.joined e = some w'.joined) (hsilent : e.download = [])
    (hdelivered : w'.proxy.delivered = w.proxy.delivered) : Follows w w' := by
  refine ⟨[], by rw [List.append_nil]; exact hdelivered, ?_⟩
  have hreaches : Reaches TCPSession.step TCPSession.Event.download w.joined w'.joined e.download :=
    .single hstep
  rw [hsilent] at hreaches
  exact hreaches

-- The proxy by itself.
theorem follows_onProxy {f : Socks5Proxy → Socks5Proxy} (w : ProxiedSession)
    (hdelivered : (f w.proxy).delivered = w.proxy.delivered) : Follows w (w.onProxy f) :=
  .of_step (e := .environment (f w.proxy) w.mClient.now w.mClient.rand) rfl rfl hdelivered

theorem follows_kept {f : Socks5Proxy → Socks5Proxy} (w : ProxiedSession)
    (h : Kept w.proxy (f w.proxy)) : Follows w (w.onProxy f) := follows_onProxy w h.delivered

theorem delivered_switched (old state : S5State) (p : Socks5Proxy) :
    (Socks5Proxy.emit (.switched old state) { p with mS5State := state }).delivered = p.delivered :=
  (delivered_emit _ _).trans (List.append_nil _)

theorem follows_disconnected (w : ProxiedSession) :
    Follows w (w.callBack (ITunnelClient.onTunnelDisconnected 0)) := by
  refine .of_step (e := .tunnelDisconnected 0) rfl rfl ?_
  exact (kept_of_calls (ITunnelClient.disconnected_calls 0 w.mClient w.proxy)).delivered

theorem follows_writable (w : ProxiedSession) :
    Follows w (w.callBack fun c p => (ITunnelClient.onTunnelWritable c p).2) := by
  refine .of_step (e := .tunnelWritable) rfl rfl ?_
  exact (kept_of_calls (ITunnelClient.writable_calls w.mClient w.proxy)).delivered

theorem follows_switchS5State (state : S5State) (w : ProxiedSession) :
    Follows w (w.switchS5State state) := by
  have hentered (state : S5State) (w : ProxiedSession) : Follows w
      (w.onProxy fun p => .emit (.switched p.mS5State state) { p with mS5State := state }) :=
    follows_onProxy w (delivered_switched _ _ _)
  have hdestroyed (w : ProxiedSession) : Follows w (w.onProxy .destroyTunnel) :=
    follows_kept w (Socks5Proxy.kept_destroyTunnel w.proxy)
  unfold Served.switchS5State
  split
  · exact .refl w
  · cases state with
    | trans => exact (hentered _ w).trans (follows_writable _)
    | failed => exact ((hentered _ w).trans (follows_disconnected _)).trans (hdestroyed _)
    | ended => exact ((hentered _ w).trans (follows_disconnected _)).trans (hdestroyed _)
    | _ => exact hentered _ w

-- A message of the handshake is queued.
theorem follows_sendS5 (kind : S5Message) (data : Bytes) (w : ProxiedSession) :
    Follows w (w.sendS5 kind data).2 := by
  refine follows_onProxy (f := fun p => (p.encryptAndQueue (.socks5 kind) data).2) w ?_
  rcases Socks5Proxy.encryptAndQueue_cases (.socks5 kind) data w.proxy with
    ⟨-, hkept⟩ | ⟨p, taken, hkept, heq⟩
  · exact hkept.delivered
  · rw [heq, delivered_emit]
    exact (List.append_nil _).trans hkept.delivered

theorem follows_passBack (data : Bytes) (w : ProxiedSession) : Follows w (w.passBack data) := by
  -- the proxy counts the bytes, and the session gets them
  let p := Socks5Proxy.emit (.dataBack data)
    { w.proxy with mPayloadDataBack := w.proxy.mPayloadDataBack + BitVec.ofNat 32 data.length }
  let counted : ProxiedSession := ⟨w.mClient, p⟩
  have hcounted : TCPSession.step w.joined (.environment p w.mClient.now w.mClient.rand) =
      some counted.joined := rfl
  have hcalled : TCPSession.step counted.joined (.tunnelDataBack data) =
      some (joined (w.passBack data)) := rfl
  have hreaches : Reaches TCPSession.step TCPSession.Event.download w.joined
      (joined (w.passBack data)) ([] ++ data) :=
    .trans (.single hcounted) (.single hcalled)
  refine ⟨data, ?_, hreaches⟩
  have hkept := kept_of_calls (ITunnelClient.dataBack_calls data w.mClient p)
  exact hkept.delivered.trans (delivered_emit _ _)

theorem follows_noteConnected (w : ProxiedSession) : Follows w w.noteConnected := by
  obtain ⟨connected, hnoted⟩ := noteConnected_eq w
  rw [hnoted]
  exact follows_kept (f := fun p => { p with mConnected := connected }) w (.of_trace rfl rfl rfl rfl)

theorem follows_reads : ReadRelation Follows where
  refl := .refl
  trans := .trans
  handled data w := follows_onProxy w ((delivered_emit _ _).trans (List.append_nil _))
  ends w _ := follows_switchS5State _ w
  connect {w} _ := (follows_sendS5 .connect _ w).trans (follows_switchS5State _ _)
  account {w state} _ _ := by
    refine Follows.trans ?_ (follows_switchS5State state _)
    unfold Served.sendS5Account
    split
    · exact follows_sendS5 .account _ w
    · exact .refl w
  established {w} _ := follows_switchS5State .trans w
  passBack data w _ := follows_passBack data w
  cipher c w := follows_kept w (.of_trace rfl rfl rfl rfl)
  buffer b w := follows_onProxy w rfl
  noteConnected := follows_noteConnected

/-! ### The write event -/

-- What `onReadable` goes by, and what it has passed back.
structure SameInlet (p p' : Socks5Proxy) : Prop where
  state : p'.mS5State = p.mS5State
  buffer : p'.mDecryptBuffer = p.mDecryptBuffer
  delivered : p'.delivered = p.delivered

theorem sameInlet_of_kept {p p' : Socks5Proxy} (h : Kept p p') : SameInlet p p' :=
  ⟨h.state, h.buffer, h.delivered⟩

theorem SameInlet.trans {p p' p'' : Socks5Proxy} (h : SameInlet p p') (h' : SameInlet p' p'') :
    SameInlet p p'' :=
  ⟨h'.state.trans h.state, h'.buffer.trans h.buffer, h'.delivered.trans h.delivered⟩

theorem sameInlet_countSent (sent : Bytes) (p : Socks5Proxy) : SameInlet p (p.countSent sent) := by
  unfold Socks5Proxy.countSent
  split
  · exact ⟨rfl, rfl, rfl⟩
  · exact sameInlet_of_kept (Socks5Proxy.kept_withReactor _ _)

-- `sendQueue` reads nothing.
theorem sameInlet_wrote {p p' : Socks5Proxy} (sent : Bytes) (h : SameInlet p p') :
    SameInlet p ((p'.emit (.wrote sent)).countSent sent) := by
  have hwrote : SameInlet p' (p'.emit (.wrote sent)) :=
    ⟨rfl, rfl, (delivered_emit _ _).trans (List.append_nil _)⟩
  exact (h.trans hwrote).trans (sameInlet_countSent sent _)

theorem sameInlet_sendOut (p : Socks5Proxy) : SameInlet p p.sendOut := by
  obtain ⟨sends, hproxy⟩ := Socks5Proxy.sendLoop_proxy (Socks5Proxy.sendFuel p.mOutQueue) p.mOutQueue p
  unfold Socks5Proxy.sendOut
  simp only [hproxy]
  exact sameInlet_wrote _ ⟨rfl, rfl, rfl⟩

theorem sameInlet_sendSocks5 (p : Socks5Proxy) : SameInlet p p.sendSocks5 := by
  obtain ⟨sends, hproxy⟩ := Socks5Proxy.sendLoop_proxy (Socks5Proxy.sendFuel p.mSocks5) p.mSocks5 p
  unfold Socks5Proxy.sendSocks5
  simp only [hproxy]
  exact sameInlet_wrote _ ⟨rfl, rfl, rfl⟩

theorem sameInlet_closeWrite (p : Socks5Proxy) : SameInlet p p.closeWrite :=
  sameInlet_of_kept (Socks5Proxy.kept_withReactor _ p)

-- The call with which an idle proxy asks its session.
def called (w : ProxiedSession) : ProxiedSession :=
  w.callBack fun c p => (ITunnelClient.onTunnelWritable c p).2

theorem sameInlet_called (w : ProxiedSession) : SameInlet w.proxy w.called.proxy :=
  sameInlet_of_kept (kept_of_calls (ITunnelClient.writable_calls w.mClient w.proxy))

theorem ofSession_asked (w : ProxiedSession) :
    ofSession w.asked = w.called ∨ ofSession w.asked = w.called.onProxy .closeWrite := by
  unfold asked
  simp only
  split
  · exact .inr rfl
  · exact .inl rfl

-- What a write event is made of: the proxy sends, or it asks its session, or the greeting is
-- queued.
theorem onWritable_parts (w : ProxiedSession) :
    (∃ f : Socks5Proxy → Socks5Proxy, w.onWritable = w.noteConnected.onProxy f ∧
      SameInlet w.noteConnected.proxy (f w.noteConnected.proxy)) ∨
    (w.proxy.mS5State = .trans ∧ (w.onWritable = called w.noteConnected ∨
      w.onWritable = (called w.noteConnected).onProxy .closeWrite)) ∨
    (w.proxy.mS5State = .init ∧
      w.onWritable = w.noteConnected.sendS5Greet.2.switchS5State .greet) := by
  rcases onWritable_cases w with ⟨-, -, heq⟩ | ⟨htrans, -, heq⟩ | ⟨hinit, heq⟩ | ⟨-, -, -, heq⟩ |
    ⟨-, -, -, heq⟩
  · exact .inl ⟨_, heq, sameInlet_sendOut _⟩
  · have hasked : w.onWritable = ofSession (asked w.noteConnected) := congrArg ofSession heq
    rw [hasked]
    exact .inr (.inl ⟨htrans, ofSession_asked _⟩)
  · exact .inr (.inr ⟨hinit, heq⟩)
  · exact .inl ⟨_, heq, sameInlet_closeWrite _⟩
  · exact .inl ⟨_, heq, sameInlet_sendSocks5 _⟩

theorem follows_onWritable (w : ProxiedSession) : Follows w w.onWritable := by
  refine (follows_noteConnected w).trans ?_
  have hcalled : Follows w.noteConnected (called w.noteConnected) := follows_writable _
  rcases onWritable_parts w with ⟨f, heq, hinlet⟩ | ⟨-, heq | heq⟩ | ⟨-, heq⟩
  · rw [heq]
    exact follows_onProxy _ hinlet.delivered
  · rw [heq]
    exact hcalled
  · rw [heq]
    exact hcalled.trans (follows_onProxy _ (sameInlet_closeWrite _).delivered)
  · rw [heq]
    exact (follows_sendS5 .greet _ _).trans (follows_switchS5State .greet _)

-- A packet may queue a payload, and then the session asks for the write event.
theorem accept_kept {ip : Packet} {s t : TCPSession Socks5Proxy} (h : s.accept ip = some t) :
    Kept s.mTunnel t.mTunnel := by
  rcases calls_relation.accept h with hframe | ⟨u, hsu, -, hut⟩
  · exact kept_of_calls hframe.tunnel
  · have hqueued : Kept u.mTunnel (u.uploaded ip).mTunnel := by
      show Kept u.mTunnel (if _ then u.mTunnel.requestSendData else u.mTunnel)
      split
      · exact kept_whileTrans _ _
      · exact .refl _
    exact ((kept_of_calls hsu.tunnel).trans hqueued).trans (kept_of_calls hut.tunnel)

-- Every step of the two is some steps of the session.
theorem step_follows {e : Event} (hstep : w.step e = some w') : Follows w w' := by
  cases e with
  | accept ip =>
    obtain ⟨s, hs, rfl⟩ := Option.map_eq_some_iff.mp hstep
    refine .of_step (e := .accept ip) hs rfl ?_
    exact (accept_kept hs).delivered
  | readable outcome => exact follows_reads.onReadable hstep
  | writable =>
    cases hstep
    exact follows_onWritable w
  | exception error =>
    cases hstep
    exact follows_switchS5State .ended w
  | written i n =>
    cases hstep
    exact .of_step (e := .written i n) rfl rfl rfl
  | reactor call =>
    unfold step at hstep
    simp only at hstep
    split at hstep
    · cases hstep
    · cases hstep
      exact follows_kept w (.of_trace rfl rfl rfl rfl)
  | environment now rand settings cipher =>
    cases hstep
    exact .of_step (e := .environment { w.proxy with settings := settings, cipher := cipher } now rand)
      rfl rfl rfl

theorem run_follows {es : List Event} (hrun : Lib.run step w es = some w') : Follows w w' :=
  Lib.Follows.run (fun _ _ _ hstep => step_follows hstep) hrun

/-! ## The parcels -/

def Event.read : Event → Bytes
  | .readable (.received data) => data
  | _ => []

@[simp] theorem read_received (data : Bytes) : Event.read (.readable (.received data)) = data := rfl

-- The proxy is through with its server, and has passed back `passed`.
def Through (passed : Bytes) (w : ProxiedSession) : Prop :=
  (w.proxy.mS5State = .ended ∨ w.proxy.mS5State = .failed) ∧ w.proxy.delivered = passed

variable {b d : Bytes}

theorem Through.inlet (h : w.Through d) (hinlet : SameInlet w.proxy w'.proxy) : w'.Through d := by
  refine ⟨?_, hinlet.delivered.trans h.2⟩
  rw [hinlet.state]
  exact h.1

theorem Stands.inlet {state : S5State} (h : w.Stands state b d) (hinlet : SameInlet w.proxy w'.proxy) :
    w'.Stands state b d where
  state := hinlet.state.trans h.state
  buffered := (congrArg (fun buffer => buffer.val.readable) hinlet.buffer).trans h.buffered
  passed := hinlet.delivered.trans h.passed

-- The end of a proxy, from whatever state.
theorem through_ends {state : S5State} (hend : state = .ended ∨ state = .failed)
    (hdelivered : w.proxy.delivered = d) : Through d (w.switchS5State state) := by
  have hended : Through d (w.onProxy fun p =>
      .emit (.switched p.mS5State state) { p with mS5State := state }) :=
    ⟨hend, (delivered_switched _ _ _).trans hdelivered⟩
  have hcalled {w : ProxiedSession} (h : w.Through d) :
      Through d ((w.callBack (ITunnelClient.onTunnelDisconnected 0)).onProxy .destroyTunnel) := by
    have hkept := kept_of_calls (ITunnelClient.disconnected_calls 0 w.mClient w.proxy)
    exact h.inlet (sameInlet_of_kept (hkept.trans (Socks5Proxy.kept_destroyTunnel _)))
  unfold Served.switchS5State
  split
  next heq => exact ⟨heq ▸ hend, hdelivered⟩
  next =>
    rcases hend with rfl | rfl
    · exact hcalled hended
    · exact hcalled hended

-- Nothing more is passed back.
theorem through_reads : ReadRelation fun w w' : ProxiedSession =>
    w.Through d → w'.Through d where
  refl _ := id
  trans h h' h'' := h' (h h'')
  handled data w h := ⟨h.1, ((delivered_emit _ _).trans (List.append_nil _)).trans h.2⟩
  ends w hend h := through_ends hend h.2
  connect {w} hstate h := by
    rcases hstate with hstate | hstate <;> rw [Through, hstate] at h <;> simp at h
  account {w state} hstate _ h := by
    rw [Through, hstate] at h
    simp at h
  established {w} hstate h := by
    rw [Through, hstate] at h
    simp at h
  passBack data w hstate h := by
    rw [Through, hstate] at h
    simp at h
  cipher c w h := h.inlet ⟨rfl, rfl, rfl⟩
  buffer b w h := h
  noteConnected w h := by
    obtain ⟨connected, hnoted⟩ := noteConnected_eq w
    rw [hnoted]
    exact h.inlet ⟨rfl, rfl, rfl⟩

-- An event that neither reads nor ends the proxy leaves its inlet alone.
theorem step_inlet {e : Event} (hinit : w.proxy.mS5State ≠ .init)
    (hread : ∀ outcome, e ≠ .readable outcome) (hexception : ∀ error, e ≠ .exception error)
    (hstep : w.step e = some w') : SameInlet w.proxy w'.proxy := by
  cases e with
  | accept ip =>
    obtain ⟨s, hs, rfl⟩ := Option.map_eq_some_iff.mp hstep
    exact sameInlet_of_kept (accept_kept hs)
  | readable outcome => exact absurd rfl (hread outcome)
  | writable =>
    cases hstep
    have hnoted : SameInlet w.proxy w.noteConnected.proxy :=
      sameInlet_of_kept w.noteConnected_kept
    rcases onWritable_parts w with ⟨f, heq, hinlet⟩ | ⟨-, heq | heq⟩ | ⟨hstate, -⟩
    · rw [heq]
      exact hnoted.trans hinlet
    · rw [heq]
      exact hnoted.trans (sameInlet_called _)
    · rw [heq]
      exact (hnoted.trans (sameInlet_called _)).trans (sameInlet_closeWrite _)
    · exact absurd hstate hinit
  | exception error => exact absurd rfl (hexception error)
  | written i n =>
    cases hstep
    exact ⟨rfl, rfl, rfl⟩
  | reactor call =>
    unfold step at hstep
    simp only at hstep
    split at hstep
    · cases hstep
    · cases hstep
      exact ⟨rfl, rfl, rfl⟩
  | environment now rand settings cipher =>
    cases hstep
    exact ⟨rfl, rfl, rfl⟩

theorem step_through {e : Event} (h : w.Through d) (hstep : w.step e = some w') :
    w'.Through d := by
  have hinit : w.proxy.mS5State ≠ .init := by
    rcases h.1 with hstate | hstate <;> rw [hstate] <;> decide
  cases e with
  | readable outcome => exact through_reads.onReadable hstep h
  | exception error =>
    cases hstep
    exact through_ends (.inl rfl) h.2
  | _ => exact h.inlet (step_inlet hinit (by simp) (by simp) hstep)

-- Without anything read, the proxy stays as it is or comes to its end.
theorem step_unread {e : Event} (h : w.Stands .trans b d) (hread : e.read = [])
    (hstep : w.step e = some w') : w'.Stands .trans b d ∨ w'.Through d := by
  have hinit : w.proxy.mS5State ≠ .init := by
    rw [h.state]
    decide
  cases e with
  | readable outcome =>
    rw [step] at hstep
    cases outcome with
    | error errno =>
      rw [Served.onReadable] at hstep
      split at hstep
      · cases hstep
        exact .inr (through_ends (.inr rfl) h.passed)
      · cases hstep
        exact .inl h
    | received data =>
      -- the server has closed the connection
      have hnothing : data = [] := hread
      rw [hnothing, Served.onReadable, if_pos rfl] at hstep
      cases hstep
      exact .inr (through_ends (.inl rfl) h.passed)
  | exception error =>
    cases hstep
    exact .inr (through_ends (.inl rfl) h.passed)
  | _ => exact .inl (Stands.inlet h (step_inlet hinit (by simp) (by simp) hstep))

-- The messages of the parcels that have come in completely have been passed back, whatever has
-- happened in between, unless the proxy has come to its end before.
theorem run_passedBack {es : List Event} {parcels : List Sealed} {later : Bytes}
    (h : w.Stands .trans b d) (hshort : ∀ z ∈ parcels.head?, b.length < z.wire.length)
    (hreads : ∀ e ∈ es, e.read.length ≤ SOCKS5_SHARE_BUFFER_SZ)
    (hstream : b ++ es.flatMap Event.read ++ later = Sealed.stream parcels)
    (hrun : Lib.run step w es = some w') :
    ∃ ys zs, parcels = ys ++ zs ∧ (w'.Through (d ++ Sealed.messages ys) ∨
      ∃ b', w'.Stands .trans b' (d ++ Sealed.messages ys) ∧ b' ++ later = Sealed.stream zs ∧
        ∀ z ∈ zs.head?, b'.length < z.wire.length) := by
  induction es generalizing w b d parcels with
  | nil =>
    cases hrun
    have hnone : d ++ Sealed.messages [] = d := List.append_nil d
    refine ⟨[], parcels, rfl, .inr ⟨b, ?_, ?_, hshort⟩⟩
    · rw [hnone]
      exact h
    · rw [← hstream, List.flatMap_nil, List.append_nil]
  | cons e es ih =>
    obtain ⟨hlen, hlater⟩ := List.forall_mem_cons.mp hreads
    cases hstep : w.step e with
    | none =>
      rw [Lib.run, hstep] at hrun
      cases hrun
    | some next =>
      rw [Lib.run_cons es hstep] at hrun
      rw [List.flatMap_cons] at hstream
      by_cases hread : e.read = []
      · rw [hread, List.nil_append] at hstream
        rcases step_unread h hread hstep with hstands | hthrough
        · exact ih hstands hshort hlater hstream hrun
        · -- nothing is passed back from here on
          have hlast := Lib.run_invariant (fun w : ProxiedSession => w.Through d)
            (fun _ _ _ h hstep => step_through h hstep) hthrough hrun
          refine ⟨[], parcels, rfl, .inl ?_⟩
          rw [show Sealed.messages [] = [] from rfl, List.append_nil]
          exact hlast
      · obtain ⟨data, rfl⟩ : ∃ data, e = .readable (.received data) := by
          unfold Event.read at hread
          split at hread
          · exact ⟨_, rfl⟩
          · exact absurd rfl hread
        have hone : b ++ [data].flatten ++ (es.flatMap Event.read ++ later) =
            Sealed.stream parcels := by
          rw [← hstream, List.flatten_singleton]
          rw [read_received, List.append_assoc, List.append_assoc, List.append_assoc]
        obtain ⟨ys, zs, b', v, rfl, hchunk, -, hv, hrest, hshort'⟩ := Served.readChunks_trans h hone hshort
          (List.forall_mem_singleton.mpr ⟨hread, hlen⟩)
        have hnext : next = v := by
          have hsame : Served.readChunks [data] w = some next := Lib.run_cons [] hstep
          rw [hchunk] at hsame
          exact (Option.some.inj hsame).symm
        subst hnext
        rw [← List.append_assoc] at hrest
        obtain ⟨ys', zs, rfl, hlast⟩ := ih hv hshort' hlater hrest hrun
        rw [List.append_assoc, ← Sealed.messages_append] at hlast
        exact ⟨ys ++ ys', zs, (List.append_assoc _ _ _).symm, hlast⟩

-- A part of the next parcel is left, or nothing.
theorem partOfNext {zs : List Sealed} {unfinished later : Bytes}
    (hrest : unfinished ++ later = Sealed.stream zs)
    (hshort : ∀ z ∈ zs.head?, unfinished.length < z.wire.length) :
    Served.PartOfNext zs unfinished := by
  cases zs with
  | nil => exact (List.append_eq_nil_iff.mp hrest).1
  | cons z zs =>
    have hlt := hshort z rfl
    rw [Sealed.stream_cons] at hrest
    have hgrown : unfinished <+: z.wire ++ Sealed.stream zs := ⟨later, hrest⟩
    exact ⟨List.prefix_of_prefix_length_le hgrown (List.prefix_append z.wire _)
      (Nat.le_of_lt hlt), hlt⟩

/-- From the server of the proxy to the application: however the parcels are cut into reads and
    whatever comes in between, what the application can put together from the packets is what the
    messages of the parcels start with; and while the proxy lives all that has come in completely
    has its number. -/
theorem run_downloaded {w₀ : ProxiedSession} {opening es : List Event} {parcels : List Sealed}
    {later : Bytes} (hborn : w₀.joined.Born) (hnew : w₀.proxy.delivered = [])
    (hopening : Lib.run step w₀ opening = some w) (hstate : w.proxy.mS5State = .trans)
    (hshort : ∀ z ∈ parcels.head?, w.proxy.mDecryptBuffer.val.readable.length < z.wire.length)
    (hreads : ∀ e ∈ es, e.read.length ≤ SOCKS5_SHARE_BUFFER_SZ)
    (hstream : w.proxy.mDecryptBuffer.val.readable ++ es.flatMap Event.read ++ later =
      Sealed.stream parcels)
    (hrun : Lib.run step w es = some w') (hreset : .reset ∉ w'.joined.trace)
    (hfits : w'.joined.sequence.length ≤ 2 ^ 32) :
    (∀ out, Assembled 1 w'.joined.pieces out →
        out <+: w.proxy.delivered ++ Sealed.messages parcels) ∧
      (w'.proxy.mS5State = .trans → w'.joined.mLocalNext ≤ w'.joined.mLocalSeq →
        ∃ complete rest unfinished, parcels = complete ++ rest ∧
          w.proxy.mDecryptBuffer.val.readable ++ es.flatMap Event.read =
            Sealed.stream complete ++ unfinished ∧
          Served.PartOfNext rest unfinished ∧
          w'.joined.downloaded = w.proxy.delivered ++ Sealed.messages complete) := by
  -- the packets carry what the proxy has passed back
  obtain ⟨x, hlog, events, hevents, rfl⟩ := run_follows ((Lib.run_append es hopening).trans hrun)
  have hpassed : w'.proxy.delivered = events.flatMap TCPSession.Event.download := by
    rw [show w'.proxy.delivered = w₀.proxy.delivered ++ _ from hlog, hnew, List.nil_append]
  obtain ⟨hplaced, hsyn, hnumbers⟩ := TCPSession.run_numbers hborn hevents
  rw [← hpassed] at hnumbers
  obtain ⟨hout, hall⟩ := hnumbers.assembled hplaced hsyn hreset hfits
  -- and that is what the parcels say
  have hstands : w.Stands .trans w.proxy.mDecryptBuffer.val.readable w.proxy.delivered :=
    ⟨hstate, rfl, rfl⟩
  obtain ⟨ys, zs, rfl, hlast⟩ := run_passedBack hstands hshort hreads hstream hrun
  have hdelivered : w'.proxy.delivered = w.proxy.delivered ++ Sealed.messages ys := by
    rcases hlast with hthrough | ⟨b', hstands', -⟩
    · exact hthrough.2
    · exact hstands'.passed
  refine ⟨fun out h => (hout out h).trans ?_, fun halive hnext => ?_⟩
  · rw [hdelivered, Sealed.messages_append, ← List.append_assoc]
    exact List.prefix_append _ _
  · obtain ⟨b', -, hrest, hshort'⟩ := hlast.resolve_left fun h => by
      rcases h.1 with hover | hover <;> rw [halive] at hover <;> cases hover
    refine ⟨ys, zs, b', rfl, ?_, partOfNext hrest hshort', ?_⟩
    · rw [Sealed.stream_append, ← hrest, ← List.append_assoc] at hstream
      exact List.append_cancel_right hstream
    · rw [← hdelivered]
      exact hall hnext

def sampleConstructed : TCPSession Socks5Proxy :=
  .init 40000 80 0x0A000002 0x5DB8D822 ctrlPROXY (Served.sampleProxy .trans) 0 1000

def sampleBehind : ProxiedSession :=
  ofSession ((sampleConstructed.accept TCPSession.sampleSYN).getD sampleConstructed)

theorem sampleBehind_born : sampleBehind.joined.Born := by
  have haccepted : (sampleConstructed.accept TCPSession.sampleSYN).isSome := by decide
  obtain ⟨s, hs⟩ := Option.isSome_iff_exists.mp haccepted
  have hjoined : sampleBehind.joined = s := by
    unfold sampleBehind
    rw [hs, Option.getD_some, joined_ofSession]
  rw [hjoined]
  exact ⟨sampleConstructed, TCPSession.sampleSYN, TCPSession.init_fresh _ _ _ _ _ _ _ _,
    by decide, hs⟩

theorem wire_samplePayload : Served.samplePayload.wire = Cipher.sampleParcel [1, 2] := by
  have hwire {m : Bytes} (hne : m ≠ []) (hle : m.length ≤ MAX_ENCRYPT_SIZE) :
      (Served.sampleSealed m hne hle).wire = Cipher.sampleParcel m := rfl
  exact hwire _ _

/-- A parcel with two bytes, once the application has acknowledged the SYN. -/
theorem run_downloaded_sample :
    ∃ w w' : ProxiedSession,
      Lib.run step sampleBehind [.accept (TCPSession.samplePacket 101 1001 ACK [] (by decide))] =
        some w ∧
      Lib.run step w [.readable (.received Served.samplePayload.wire)] = some w' ∧
      Assembled 1 w'.joined.pieces [1, 2] ∧
      ([1, 2] : Bytes) <+: w.proxy.delivered ++ Sealed.messages [Served.samplePayload] := by
  have hopening : ∃ w, Lib.run step sampleBehind
        [.accept (TCPSession.samplePacket 101 1001 ACK [] (by decide))] = some w ∧
      w.proxy.mS5State = .trans ∧ w.proxy.mDecryptBuffer.val.readable = [] :=
    Lib.run_reaches (by decide +kernel)
  have hall : ∃ w', Lib.run step sampleBehind
        [.accept (TCPSession.samplePacket 101 1001 ACK [] (by decide)),
          .readable (.received (Cipher.sampleParcel [1, 2]))] = some w' ∧
      .reset ∉ w'.joined.trace ∧ w'.joined.sequence.length ≤ 2 ^ 32 ∧
      Assembled 1 w'.joined.pieces [1, 2] :=
    Lib.run_reaches (by decide +kernel)
  obtain ⟨w, hw, hstate, hempty⟩ := hopening
  obtain ⟨w', hw', hreset, hfits, hout⟩ := hall
  rw [← List.singleton_append, Lib.run_append _ hw, ← wire_samplePayload] at hw'
  have hshort : ∀ z ∈ [Served.samplePayload].head?,
      w.proxy.mDecryptBuffer.val.readable.length < z.wire.length := by
    rw [hempty]
    exact fun z _ => z.wire_pos
  have hstream : w.proxy.mDecryptBuffer.val.readable ++
      [Event.readable (.received Served.samplePayload.wire)].flatMap Event.read ++ [] =
        Sealed.stream [Served.samplePayload] := by
    rw [hempty, List.append_nil, List.nil_append, List.flatMap_singleton, read_received,
      Sealed.stream_cons]
    exact (List.append_nil _).symm
  have hreads : ∀ e ∈ [Event.readable (.received Served.samplePayload.wire)],
      e.read.length ≤ SOCKS5_SHARE_BUFFER_SZ := by
    refine List.forall_mem_singleton.mpr ?_
    rw [read_received]
    exact Served.samplePayload.wire_le
  have hnew : sampleBehind.proxy.delivered = [] := by decide +kernel
  exact ⟨w, w', hw, hw', hout, (run_downloaded sampleBehind_born hnew hw hstate hshort hreads hstream
    hw' hreset hfits).1 _ hout⟩

end ProxiedSession
end NetCore
