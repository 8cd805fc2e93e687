import NetCore.Router.Sessions

/-!
# One open session for a flow

A list of sessions is orderly: a session with a newer one of its flow is closed.  For UDP every step
keeps it so, since a closed UDP session stays closed.  A TCP session that has timed out is opened again
by `onTunnelDataBack`, which notes the time, and this is the only way back: as long as no data comes back
for a session that has timed out and been replaced, the TCP sessions stay orderly, too.
-/

namespace NetCore

namespace SessionList

variable {σ : Type} [ISession σ] {r r' : SessionList σ} {sID : Nat}

-- `Closed` as the library wants it.
def Closed (s : σ) : Prop := ISession.hasClosed s = true

def Orderly (sID : Nat) (r : SessionList σ) : Prop :=
  Lib.Registry.Orderly (ISession.flow (σ := σ)) Closed sID r

/-- The session has a newer one of its flow in the list. -/
def Replaced (r : SessionList σ) (x : Lib.Numbered σ) : Prop :=
  Lib.Registry.Replaced (ISession.flow (σ := σ)) r x

instance (r : SessionList σ) (x : Lib.Numbered σ) : Decidable (r.Replaced x) :=
  inferInstanceAs (Decidable (Lib.Registry.Replaced _ r x))

/-- What one live session per flow is good for. -/
structure OneLive (r : SessionList σ) : Prop where
  single : r.items.Pairwise fun x y => ISession.hasClosed x.item = false →
    ISession.hasClosed y.item = false → ISession.flow x.item ≠ ISession.flow y.item
  anyOrder : ∀ ip (sessions : List (Lib.Numbered σ)), sessions.Perm r.items →
    findSession ip sessions = findSession ip r.items
  /-- A packet goes to the session that got the last one of its flow, or to a younger one. -/
  onward : r.given.Pairwise fun earlier later => earlier.1 = later.1 → earlier.2 ≤ later.2

theorem open_iff {s : σ} : ISession.hasClosed s = false ↔ ¬ Closed s := by
  unfold Closed
  rw [Bool.not_eq_true]

theorem findSession_some {ip : FlowHeader} {x : Lib.Numbered σ}
    (h : findSession ip r.items = some x) :
    x ∈ r.items ∧ ¬ Closed x.item ∧ ISession.flow x.item = ip.flow := by
  unfold findSession at h
  split at h
  · cases h
  · have hfound := List.find?_some h
    obtain ⟨hopen, hflow⟩ := Bool.and_eq_true_iff.mp hfound
    refine ⟨List.mem_of_find?_eq_some h, ?_, of_decide_eq_true hflow⟩
    apply open_iff.mp
    simpa using hopen

theorem findSession_none {ip : FlowHeader} (hversion : ip.ipVer = 4)
    (h : findSession ip r.items = none) {x : Lib.Numbered σ} (hx : x ∈ r.items)
    (hflow : ISession.flow x.item = ip.flow) : Closed x.item := by
  unfold findSession at h
  rw [if_neg (fun hne => hne hversion)] at h
  have hnot := List.find?_eq_none.mp h x hx
  by_contra hopen
  apply hnot
  rw [open_iff.mpr hopen, Bool.not_false, Bool.true_and]
  exact decide_eq_true hflow

theorem Orderly.oneLive (h : r.Orderly sID) : r.OneLive where
  single := by
    refine h.pairwise_open.imp ?_
    intro x y hdistinct hx hy
    exact hdistinct (open_iff.mp hx) (open_iff.mp hy)
  anyOrder ip sessions hperm := by
    unfold findSession
    split
    · rfl
    · refine h.find_perm (k := ip.flow) ?_ hperm
      intro x hx
      obtain ⟨hopen, hflow⟩ := Bool.and_eq_true_iff.mp hx
      refine ⟨open_iff.mp ?_, of_decide_eq_true hflow⟩
      simpa using hopen
  onward := h.onward

/-! ## What the router does to a list -/

theorem route_le {ip : FlowHeader} {build : Option σ} {accept : σ → Option σ}
    {routed : Nat × SessionList σ} (hroute : route ip build accept sID r = some routed) :
    sID ≤ routed.1 := by
  unfold route at hroute
  cases hfind : findSession ip r.items with
  | some x =>
    rw [hfind] at hroute
    obtain ⟨t, -, rfl⟩ := Option.map_eq_some_iff.mp hroute
    exact Nat.le_refl sID
  | none =>
    rw [hfind] at hroute
    cases build with
    | none =>
      cases hroute
      exact Nat.le_succ sID
    | some s =>
      obtain ⟨t, -, rfl⟩ := Option.map_eq_some_iff.mp hroute
      exact Nat.le_succ sID

-- A packet goes to the open session of its flow, or to a new one behind all the closed ones.
theorem route_orderly {ip : FlowHeader} {build : Option σ} {accept : σ → Option σ}
    {routed : Nat × SessionList σ} (h : r.Orderly sID)
    (hbuild : ∀ s, build = some s → ip.ipVer = 4 ∧ ISession.flow s = ip.flow)
    (haccept : ∀ s t, accept s = some t → ISession.flow t = ISession.flow s)
    (hroute : route ip build accept sID r = some routed) :
    routed.2.Orderly routed.1 := by
  unfold route at hroute
  cases hfind : findSession ip r.items with
  | some x =>
    rw [hfind] at hroute
    obtain ⟨t, ht, rfl⟩ := Option.map_eq_some_iff.mp hroute
    obtain ⟨hx, hopen, hflow⟩ := findSession_some hfind
    have hnewest : ¬ r.Replaced x := fun hreplaced => hopen (h.replaced x hx hreplaced)
    have hgiven := Lib.Registry.Orderly.give h hx hnewest
    rw [hflow] at hgiven
    exact hgiven.put hx (haccept x.item t ht) fun _ hclosed => absurd hclosed hopen
  | none =>
    rw [hfind] at hroute
    cases hbuilt : build with
    | none =>
      rw [hbuilt] at hroute
      cases hroute
      exact Lib.Registry.Orderly.later h (Nat.le_succ sID)
    | some s =>
      rw [hbuilt] at hroute
      obtain ⟨t, ht, rfl⟩ := Option.map_eq_some_iff.mp hroute
      obtain ⟨hversion, hflow⟩ := hbuild s hbuilt
      have hflow' : ISession.flow t = ip.flow := (haccept s t ht).trans hflow
      have hadded : SessionList.Orderly (sID + 1) (r.add (sID + 1) t) :=
        Lib.Registry.Orderly.add h (Nat.lt_succ_self sID)
          fun x hx hsame => findSession_none hversion hfind hx (hsame.trans hflow')
      have hgiven := hadded.give (x := ⟨sID + 1, t⟩)
        (List.mem_append_right _ (List.mem_singleton_self _))
        (fun hreplaced => by
          obtain ⟨y, hy, hlt, -⟩ := hreplaced
          exact absurd (hadded.made y hy) (Nat.not_le_of_lt hlt))
      dsimp only at hgiven
      rw [hflow'] at hgiven
      exact hgiven

theorem cleanDeadSessions_orderly (h : r.Orderly sID) : r.cleanDeadSessions.Orderly sID := by
  refine Lib.Registry.Orderly.filter h ?_
  intro s hs
  apply open_iff.mp
  simpa using hs

omit [ISession σ] in
theorem call_some {mID : Nat} {f : σ → Option σ} (h : r.call mID f = some r') :
    ∃ x s, x ∈ r.items ∧ x.number = mID ∧ f x.item = some s ∧ r' = r.put x.number s := by
  unfold call at h
  cases hfind : r.items.find? fun x => x.number = mID with
  | none =>
    rw [hfind] at h
    cases h
  | some x =>
    rw [hfind] at h
    obtain ⟨s, hs, rfl⟩ := Option.map_eq_some_iff.mp h
    have hnumber : decide (x.number = mID) = true :=
      List.find?_some (p := fun y : Lib.Numbered σ => decide (y.number = mID)) hfind
    exact ⟨x, s, List.mem_of_find?_eq_some hfind, of_decide_eq_true hnumber, hs, rfl⟩

end SessionList

namespace Sessions

open SessionList

variable {τ : Type} [ITunnel τ] {r r' : Sessions τ}

/-! ## UDP -/

theorem buildUDP_some {ip : FlowHeader} {setup : UDPSetup} {now : Nat} {f : UDPFlow}
    (h : buildUDP ip setup now = some f) : ip.ipVer = 4 ∧ ISession.flow f = ip.flow := by
  unfold buildUDP at h
  split at h
  · cases h
  next hversion =>
    refine ⟨not_not.mp hversion, ?_⟩
    unfold UDPFlow.init at h
    split at h
    · obtain ⟨proxy, -, rfl⟩ := Option.map_eq_some_iff.mp h
      rfl
    · obtain ⟨fd, -, rfl⟩ := Option.map_eq_some_iff.mp h
      rfl

theorem wait_ages (seconds : Nat) (f : UDPFlow) :
    UDPSession.Ages f.session (f.wait seconds).session := by
  cases f <;> exact .of_eq rfl rfl

theorem call_ages {f f' : UDPFlow} {e : UDPFlow.Event} (h : f.call e = some f') :
    UDPSession.Ages f.session f'.session := by
  cases e with
  | accept ip => cases h
  | readable outcome => exact UDPFlow.step_ages (e := .readable outcome) h
  | writable => exact UDPFlow.step_ages (e := .writable) h
  | exception error => exact UDPFlow.step_ages (e := .exception error) h
  | periodicCheck => exact UDPFlow.step_ages (e := .periodicCheck) h
  | reactor call => exact UDPFlow.step_ages (e := .reactor call) h
  | environment now settings cipher =>
    exact UDPFlow.step_ages (e := .environment f.session.now settings cipher) h

-- Whatever happens, the UDP sessions stay orderly.
theorem step_udp {e : Event τ} (h : r.mUDPSessions.Orderly r.sID) (hstep : r.step e = some r') :
    r'.mUDPSessions.Orderly r'.sID := by
  cases e with
  | routeTCP ip tcp setup =>
    obtain ⟨routed, hroute, rfl⟩ := Option.map_eq_some_iff.mp hstep
    have hle : r.sID ≤ routed.1 := route_le hroute
    exact Lib.Registry.Orderly.later h hle
  | routeUDP ip udp setup =>
    obtain ⟨routed, hroute, rfl⟩ := Option.map_eq_some_iff.mp hstep
    refine route_orderly h (fun f hf => buildUDP_some hf) ?_ hroute
    intro f f' hf
    exact (UDPFlow.step_ages hf).flow
  | tcp mID c =>
    obtain ⟨called, -, rfl⟩ := Option.map_eq_some_iff.mp hstep
    exact h
  | udp mID e =>
    obtain ⟨called, hcall, rfl⟩ := Option.map_eq_some_iff.mp hstep
    obtain ⟨x, f, hx, -, hf, rfl⟩ := call_some hcall
    have hages := call_ages hf
    exact Lib.Registry.Orderly.put h hx hages.flow (fun _ hclosed => hages.hasClosed hclosed)
  | periodicCheck =>
    cases hstep
    exact cleanDeadSessions_orderly h
  | tick seconds =>
    cases hstep
    refine Lib.Registry.Orderly.map (f := fun _ f => f.wait seconds) h ?_ ?_
    · intro x _
      exact (wait_ages seconds x.item).flow
    · intro x _ _ hclosed
      exact (wait_ages seconds x.item).hasClosed hclosed

/-! ## TCP -/

omit [ITunnel τ] in
theorem buildTCP_some {ip : FlowHeader} {tcp : Packet} {setup : TCPSetup τ} {now : Nat}
    {s : TCPSession τ} (h : buildTCP ip tcp setup now = some s) :
    ip.ipVer = 4 ∧ ISession.flow s = ip.flow := by
  unfold buildTCP at h
  split at h
  · cases h
  next hversion =>
    refine ⟨not_not.mp hversion, ?_⟩
    split at h
    · obtain ⟨tunnel, -, rfl⟩ := Option.map_eq_some_iff.mp h
      rfl
    · cases h

end Sessions

namespace TunnelCall

variable {τ : Type} [ITunnel τ]

open TCPSession

def BringsData : TunnelCall τ → Prop
  | dataBack _ => True
  | _ => False

theorem run_ages {c : TunnelCall τ} (h : ¬ c.BringsData) (s : TCPSession τ) : Ages s (c.run s) := by
  cases c with
  | connected => exact .refl s
  | disconnected reason => exact ages_onTunnelDisconnected reason s
  | writable => exact ages_onTunnelWritable s
  | dataBack data => exact absurd trivial h
  | written i n => exact .of_eq rfl rfl rfl rfl rfl
  | environment tunnel rand => exact .of_eq rfl rfl rfl rfl rfl

-- Data changes no more than the flow allows, and brings nothing back from the dead.
theorem run_dataBack (data : Bytes) (s : TCPSession τ) :
    SameFlow s ((dataBack data).run s) ∧ (s.mAlive = false → ((dataBack data).run s).mAlive = false) := by
  obtain ⟨t, hages, heq⟩ := onTunnelDataBack_ages data s
  show SameFlow s (s.onTunnelDataBack data) ∧ (s.mAlive = false → (s.onTunnelDataBack data).mAlive = false)
  rw [heq]
  exact ⟨⟨hages.flow, hages.now⟩, hages.dead⟩

theorem run_flow (c : TunnelCall τ) (s : TCPSession τ) :
    (c.run s).toSession.flow = s.toSession.flow := by
  by_cases hdata : c.BringsData
  · cases c with
    | dataBack data => exact (run_dataBack data s).1.flow
    | _ => exact absurd hdata id
  · exact (run_ages hdata s).flow

end TunnelCall

namespace Sessions

open SessionList

variable {τ : Type}

/-- No data comes back for a session that has timed out after it was replaced: what is said of the state
    before the step. -/
def InTime (r : Sessions τ) : Event τ → Prop
  | .tcp mID (.dataBack _) =>
      ∀ x ∈ r.mTCPSessions.items, x.number = mID → x.item.mAlive → x.item.timeout →
        ¬ r.mTCPSessions.Replaced x
  | _ => True

instance (r : Sessions τ) (e : Event τ) : Decidable (r.InTime e) := by
  unfold InTime
  split <;> infer_instance

variable [ITunnel τ] {r r' : Sessions τ}

theorem step_tcp {e : Event τ} (h : r.mTCPSessions.Orderly r.sID) (hintime : r.InTime e)
    (hstep : r.step e = some r') : r'.mTCPSessions.Orderly r'.sID := by
  cases e with
  | routeTCP ip tcp setup =>
    obtain ⟨routed, hroute, rfl⟩ := Option.map_eq_some_iff.mp hstep
    refine route_orderly h (fun s hs => buildTCP_some hs) ?_ hroute
    intro s t ht
    exact (TCPSession.sameFlow_accept ht).flow
  | routeUDP ip udp setup =>
    obtain ⟨routed, hroute, rfl⟩ := Option.map_eq_some_iff.mp hstep
    have hle : r.sID ≤ routed.1 := route_le hroute
    exact Lib.Registry.Orderly.later h hle
  | tcp mID c =>
    obtain ⟨called, hcall, rfl⟩ := Option.map_eq_some_iff.mp hstep
    obtain ⟨x, s, hx, hnumber, hs, rfl⟩ := call_some hcall
    cases hs
    refine Lib.Registry.Orderly.put h hx (c.run_flow x.item) ?_
    intro hreplaced hclosed
    by_cases hdata : c.BringsData
    · cases c with
      | dataBack data =>
        -- it has been replaced, so it cannot just have timed out
        cases halive : x.item.mAlive with
        | false =>
          have hdead := (TunnelCall.run_dataBack data x.item).2 halive
          show TCPSession.hasClosed _ = true
          rw [TCPSession.hasClosed, hdead, Bool.not_false, Bool.true_or]
        | true =>
          have htimeout : x.item.timeout := by
            have hclosed' : TCPSession.hasClosed x.item = true := hclosed
            rw [TCPSession.hasClosed, halive, Bool.not_true, Bool.false_or] at hclosed'
            exact hclosed'
          exact absurd hreplaced (hintime x hx hnumber halive htimeout)
      | _ => exact absurd hdata id
    · exact (TunnelCall.run_ages hdata x.item).hasClosed hclosed
  | udp mID e =>
    obtain ⟨called, -, rfl⟩ := Option.map_eq_some_iff.mp hstep
    exact h
  | periodicCheck =>
    cases hstep
    exact cleanDeadSessions_orderly h
  | tick seconds =>
    cases hstep
    refine Lib.Registry.Orderly.map
      (f := fun _ (s : TCPSession τ) => { s with now := s.now + seconds }) h ?_ ?_
    · intro x _
      rfl
    · intro x _ _ hclosed
      exact TCPSession.hasClosed_later (Nat.le_add_right _ _) hclosed

/-! ## Runs -/

/-- In every state of a run in which no session that has timed out and been replaced gets data, at most one
    open session has a flow. -/
theorem one_live_session {sID now : Nat} {es : List (Event τ)}
    (hintime : Lib.Along step InTime (start sID now) es)
    (hrun : Lib.run step (start sID now) es = some r) :
    r.mTCPSessions.OneLive ∧ r.mUDPSessions.OneLive := by
  have horderly : r.mTCPSessions.Orderly r.sID ∧ r.mUDPSessions.Orderly r.sID := by
    refine Lib.Along.invariant
      (fun r : Sessions τ => r.mTCPSessions.Orderly r.sID ∧ r.mUDPSessions.Orderly r.sID) ?_ ?_
      hintime hrun
    · intro r e r' h hintime hstep
      exact ⟨step_tcp h.1 hintime hstep, step_udp h.2 hstep⟩
    · exact ⟨.empty sID, .empty sID⟩
  exact ⟨horderly.1.oneLive, horderly.2.oneLive⟩

/-! ### A server that speaks first, slowly -/

def sampleHeader : FlowHeader := ⟨4, ⟨0x0A000002, 0x5DB8D822, 40000, 80⟩⟩

-- The SYN of one connection, as often as the application sends it.
def sampleRoute : Event TCPTunnel :=
  .routeTCP sampleHeader TCPSession.sampleSYN ⟨0, some TCPSession.sampleTunnel, 1000⟩

-- Eleven seconds after the first SYN it is sent again, which makes a second session.
def sampleReplaced : List (Event TCPTunnel) := [sampleRoute, .tick 11, sampleRoute]

/-- The periodic check drops the first session before the second gets its data. -/
theorem one_live_session_sample : ∃ r : Sessions TCPTunnel,
    Lib.run step (start 0 0) (sampleReplaced ++ [.periodicCheck, .tcp 2 (.dataBack [0])]) = some r ∧
      r.mTCPSessions.OneLive ∧ r.mUDPSessions.OneLive := by
  obtain ⟨r, hrun⟩ := Option.isSome_iff_exists.mp
    (show (Lib.run step (start 0 0) (sampleReplaced ++ [.periodicCheck, .tcp 2 (.dataBack [0])])).isSome
      by decide)
  exact ⟨r, hrun, one_live_session (by decide) hrun⟩

/-- Data for the first session opens it again: both are open, and the next SYN goes back to the
    first. -/
theorem replaced_session_returns : ∃ r : Sessions TCPTunnel,
    Lib.run step (start 0 0) (sampleReplaced ++ [.tcp 1 (.dataBack [0]), sampleRoute]) = some r ∧
      r.mTCPSessions.items.map (fun x => (x.item.flow, x.item.hasClosed)) =
        [(sampleHeader.flow, false), (sampleHeader.flow, false)] ∧
      ¬ r.mTCPSessions.OneLive := by
  have hreach : ∃ r : Sessions TCPTunnel,
      Lib.run step (start 0 0) (sampleReplaced ++ [.tcp 1 (.dataBack [0]), sampleRoute]) = some r ∧
        r.mTCPSessions.given =
          [(sampleHeader.flow, 1), (sampleHeader.flow, 2), (sampleHeader.flow, 1)] ∧
        r.mTCPSessions.items.map (fun x => (x.item.flow, x.item.hasClosed)) =
          [(sampleHeader.flow, false), (sampleHeader.flow, false)] :=
    Lib.run_reaches (by decide)
  obtain ⟨r, hrun, hback⟩ := hreach
  refine ⟨r, hrun, hback.2, fun hlive => ?_⟩
  have honward := hlive.onward
  rw [hback.1] at honward
  revert honward
  decide

end Sessions

end NetCore
