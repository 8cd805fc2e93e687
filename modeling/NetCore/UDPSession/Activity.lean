import NetCore.Lib.Run
import NetCore.UDPSession.StepRelation

/-!
# Activity and the timeout

`timeout` goes by `mLastTime`, which `accept` and `onTunnelDataBack` bring up to date and `onReadable`
does not.  `Timed` keeps the times of all datagrams beside the session: the check of a session with a
tunnel closes it only if it has been idle, that of a direct one looks at the application's half only.
-/

namespace NetCore

/-- A session with the times at which it has accepted and received datagrams. -/
structure Timed (τ : Type) where
  link : UDPLink τ
  accepted : List Nat
  received : List Nat

namespace UDPSession

variable {s t u : UDPSession}

structure SameClock (s t : UDPSession) : Prop where
  now : t.now = s.now
  lastTime : t.mLastTime = s.mLastTime

theorem SameClock.refl (s : UDPSession) : SameClock s s := ⟨rfl, rfl⟩

theorem SameClock.trans (h : SameClock s t) (h' : SameClock t u) : SameClock s u :=
  ⟨h'.now.trans h.now, h'.lastTime.trans h.lastTime⟩

theorem withReactor_sameClock (f : EpollReactor → EpollReactor) (s : UDPSession) :
    SameClock s (s.withReactor f) := by
  unfold withReactor
  split <;> exact ⟨rfl, rfl⟩

theorem close_sameClock (s : UDPSession) : SameClock s s.close := by
  unfold close
  dsimp only
  split
  · exact ⟨(withReactor_sameClock _ s).now, (withReactor_sameClock _ s).lastTime⟩
  · exact ⟨rfl, rfl⟩

theorem sameClock_parts : PartRelation SameClock where
  refl := .refl
  trans := .trans
  reactor := withReactor_sameClock
  close := close_sameClock
  queue _ _ _ _ := ⟨rfl, rfl⟩
  count ip s := by
    unfold countAccepted
    dsimp only
    split <;> exact ⟨rfl, rfl⟩
  sent n s := by
    unfold countSent
    split <;> exact ⟨rfl, rfl⟩

theorem replyLoop_sameClock (length : U32) (fuel : Nat) (data : Bytes) (s : UDPSession) :
    SameClock s (replyLoop length fuel data s) := by
  induction fuel generalizing data s with
  | zero => exact .refl s
  | succ fuel ih =>
    rw [replyLoop]
    split
    · exact .refl s
    · refine SameClock.trans ?_ (ih _ _)
      exact ⟨rfl, rfl⟩

-- Whatever a tunnel hands over is activity.
theorem onTunnelDataBack_clock {τ : Type} [ITunnel τ] (data : Bytes) (s : UDPSession) (tunnel : τ) :
    (s.onTunnelDataBack data tunnel).1.now = s.now ∧
      (s.onTunnelDataBack data tunnel).1.mLastTime = s.now := by
  unfold onTunnelDataBack
  split
  · have hclosed := (close_sameClock s).now
    exact ⟨hclosed, hclosed⟩
  · have hreplied := (replyLoop_sameClock (BitVec.ofNat 32 data.length) data.length data s).now
    exact ⟨hreplied, hreplied⟩

theorem accept_clock {τ : Type} [ITunnel τ] (ip : Datagram) (tunnel : Option τ) (s : UDPSession) :
    (s.accept ip tunnel).1.now = s.now ∧
      (s.accept ip tunnel).1.mLastTime = if s.mAlive then s.now else s.mLastTime := by
  cases halive : s.mAlive with
  | false =>
    rw [accept_closed ip tunnel halive]
    exact ⟨rfl, rfl⟩
  | true =>
    obtain ⟨t, ht, heq⟩ := sameClock_parts.accept ip tunnel halive
    rw [heq]
    exact ⟨ht.now, ht.now⟩

theorem accept_isSome {τ : Type} [ITunnel τ] (ip : Datagram) (tunnel : Option τ) (s : UDPSession) :
    (s.accept ip tunnel).2.isSome = tunnel.isSome := by
  unfold accept
  split
  · rfl
  · dsimp only
    split
    · split
      · exact Option.isSome_map
      · rfl
    · rfl

end UDPSession

namespace UDPLink

variable {τ : Type} [ITunnel τ] {w w' : UDPLink τ}

-- A session keeps its tunnel, or stays without one.
theorem step_isSome {e : Event τ} (hstep : w.step e = some w') :
    w'.mTunnel.isSome = w.mTunnel.isSome := by
  cases e with
  | accept ip =>
    cases hstep
    exact UDPSession.accept_isSome ip w.mTunnel w.session
  | periodicCheck =>
    cases hstep
    rfl
  | environment =>
    cases hstep
    exact Option.isSome_map
  | tunnelDataBack data =>
    obtain ⟨tunnel, htunnel, rfl⟩ := onTunnel_eq_some hstep
    rw [htunnel]
    rfl
  | tunnelWritable =>
    obtain ⟨tunnel, htunnel, rfl⟩ := onTunnel_eq_some (Option.filter_eq_some_iff.mp hstep).1
    rw [htunnel]
    rfl
  | tunnelDisconnected reason =>
    obtain ⟨tunnel, htunnel, rfl⟩ :=
      onTunnel_eq_some (f := fun s tunnel => (s.onTunnelDisconnected reason, tunnel)) hstep
    rw [htunnel]
  | _ =>
    obtain ⟨hnone, rfl⟩ := onSocket_eq_some hstep
    rw [hnone]

-- Time does not go back, and `mLastTime` moves for a packet of the application and for one of the
-- tunnel only.
theorem step_clock {e : Event τ} (hstep : w.step e = some w') :
    w.session.now ≤ w'.session.now ∧
      ((∀ ip, e ≠ .accept ip) → (∀ data, e ≠ .tunnelDataBack data) →
        w'.session.mLastTime = w.session.mLastTime) := by
  have hparts : UDPSession.PartRelation fun s t => s.now ≤ t.now ∧ t.mLastTime = s.mLastTime :=
    UDPSession.sameClock_parts.weaken (fun _ => ⟨Nat.le_refl _, rfl⟩)
      (fun h h' => ⟨h.1.trans h'.1, h'.2.trans h.2⟩) fun h => ⟨h.now.ge, h.lastTime⟩
  cases e with
  | accept ip =>
    cases hstep
    exact ⟨(UDPSession.accept_clock ip w.mTunnel w.session).1.ge, fun h => absurd rfl (h ip)⟩
  | tunnelDataBack data =>
    obtain ⟨tunnel, -, rfl⟩ := onTunnel_eq_some hstep
    exact ⟨(UDPSession.onTunnelDataBack_clock data w.session tunnel).1.ge,
      fun _ h => absurd rfl (h data)⟩
  | _ =>
    have hkept := step_relation hparts (fun _ he => by cases he)
      (fun _ _ => ⟨Nat.le_refl _, rfl⟩) (fun _ _ he => by cases he)
      (fun _ _ _ _ _ => ⟨Nat.le_add_right _ _, rfl⟩) hstep
    exact ⟨hkept.1, fun _ _ => hkept.2⟩

end UDPLink

namespace Timed

variable {τ : Type}

/-- The datagrams of these times are more than 120 seconds old. -/
def Past (w : Timed τ) (times : List Nat) : Prop := ∀ time ∈ times, time + 120 < w.link.session.now

variable [ITunnel τ]

def step (w : Timed τ) (e : UDPLink.Event τ) : Option (Timed τ) :=
  (w.link.step e).map fun link =>
    { link := link
      accepted :=
        match e with
        | .accept _ =>
            if w.link.session.mAlive then w.link.session.now :: w.accepted else w.accepted
        | _ => w.accepted
      received :=
        match e with
        | .readable (some _) => w.link.session.now :: w.received
        | .tunnelDataBack data =>
            if data = [] then w.received else w.link.session.now :: w.received
        | _ => w.received }

/-- A check that closes the session closes an idle one. -/
def ClosesIdle (w : Timed τ) (e : UDPLink.Event τ) : Prop :=
  ∀ w', w.step e = some w' → e = .periodicCheck → w.link.session.mAlive →
    w'.link.session.mAlive = false → w.Past w.accepted ∧ w.Past w.received

omit [ITunnel τ] in
/-- The application has been silent for more than 120 seconds, from `start` on if it has not sent
    anything yet. -/
def Silent (start : Nat) (w : Timed τ) : Prop :=
  w.accepted.headD start + 120 < w.link.session.now

omit [ITunnel τ] in
/-- A check of a direct session with a silent application finds no datagram read from its socket in
    the last 120 seconds. -/
def Unanswered (start : Nat) (w : Timed τ) : UDPLink.Event τ → Prop
  | .periodicCheck =>
      w.link.session.mAlive → w.link.mTunnel = none → w.Silent start → w.Past w.received
  | _ => True

omit [ITunnel τ] in
-- No datagram is of later than now, and the ones `mLastTime` knows of are not later than it; it is
-- the time of the last one accepted, unless a tunnel has brought it up to date.
structure Stamped (start : Nat) (w : Timed τ) : Prop where
  accepted_le : ∀ time ∈ w.accepted, time ≤ w.link.session.now
  received_le : ∀ time ∈ w.received, time ≤ w.link.session.now
  accepted_last : ∀ time ∈ w.accepted, time ≤ w.link.session.mLastTime
  received_last : w.link.mTunnel ≠ none → ∀ time ∈ w.received, time ≤ w.link.session.mLastTime
  direct_last : w.link.mTunnel = none → w.link.session.mLastTime = w.accepted.headD start

variable {start : Nat} {w w' : Timed τ}

theorem step_stamped {e : UDPLink.Event τ} (h : w.Stamped start) (hstep : w.step e = some w') :
    w'.Stamped start := by
  obtain ⟨link, hlink, rfl⟩ := Option.map_eq_some_iff.mp hstep
  obtain ⟨hnow, hlast⟩ := UDPLink.step_clock hlink
  have htunnel : link.mTunnel ≠ none → w.link.mTunnel ≠ none := by
    rw [← Option.isSome_iff_ne_none, ← Option.isSome_iff_ne_none, UDPLink.step_isSome hlink]
    exact id
  have hnone : link.mTunnel = none → w.link.mTunnel = none := by
    rw [← Option.not_isSome_iff_eq_none, ← Option.not_isSome_iff_eq_none, UDPLink.step_isSome hlink]
    exact id
  have hold : ∀ time ∈ w.accepted, time ≤ link.session.now :=
    fun time ht => (h.accepted_le time ht).trans hnow
  have hreply : ∀ time ∈ w.received, time ≤ link.session.now :=
    fun time ht => (h.received_le time ht).trans hnow
  cases e with
  | accept ip =>
    cases hlink
    obtain ⟨-, hclock⟩ := UDPSession.accept_clock ip w.link.mTunnel w.link.session
    cases halive : w.link.session.mAlive with
    | false =>
      rw [if_neg (by rw [halive]; exact Bool.false_ne_true)] at hclock
      refine ⟨?_, hreply, ?_, fun hsome => ?_, fun hdirect => ?_⟩ <;> dsimp only
      · rw [if_neg Bool.false_ne_true]
        exact hold
      · rw [if_neg Bool.false_ne_true, hclock]
        exact h.accepted_last
      · rw [hclock]
        exact h.received_last (htunnel hsome)
      · rw [if_neg Bool.false_ne_true, hclock]
        exact h.direct_last (hnone hdirect)
    | true =>
      rw [if_pos halive] at hclock
      refine ⟨?_, hreply, ?_, fun hsome => ?_, fun _ => ?_⟩ <;> dsimp only
      · rw [if_pos rfl]
        exact List.forall_mem_cons.mpr ⟨hnow, hold⟩
      · rw [if_pos rfl, hclock]
        exact List.forall_mem_cons.mpr ⟨Nat.le_refl _, h.accepted_le⟩
      · rw [hclock]
        exact h.received_le
      · rw [if_pos rfl, hclock]
        rfl
  | tunnelDataBack data =>
    obtain ⟨tunnel, hproxied, rfl⟩ := UDPLink.onTunnel_eq_some hlink
    obtain ⟨-, hclock⟩ := UDPSession.onTunnelDataBack_clock data w.link.session tunnel
    refine ⟨hold, ?_, ?_, fun _ => ?_, fun hdirect => ?_⟩ <;> dsimp only
    · split
      · exact hreply
      · exact List.forall_mem_cons.mpr ⟨hnow, hreply⟩
    · rw [hclock]
      exact h.accepted_le
    · rw [hclock]
      split
      · exact h.received_le
      · exact List.forall_mem_cons.mpr ⟨Nat.le_refl _, h.received_le⟩
    · rw [hnone hdirect] at hproxied
      cases hproxied
  | readable outcome =>
    have hsame := hlast (fun _ => by simp) fun _ => by simp
    obtain ⟨hdirect, -⟩ := UDPLink.onSocket_eq_some hlink
    refine ⟨hold, ?_, ?_, fun hsome => absurd hdirect (htunnel hsome), fun _ => ?_⟩ <;> dsimp only
    · cases outcome with
      | none => exact hreply
      | some received => exact List.forall_mem_cons.mpr ⟨hnow, hreply⟩
    · rw [hsame]
      exact h.accepted_last
    · rw [hsame]
      exact h.direct_last hdirect
  | _ =>
    have hsame := hlast (fun _ => by simp) fun _ => by simp
    refine ⟨hold, hreply, ?_, fun hsome => ?_, fun hdirect => ?_⟩
    · dsimp only
      rw [hsame]
      exact h.accepted_last
    · dsimp only
      rw [hsame]
      exact h.received_last (htunnel hsome)
    · dsimp only
      rw [hsame]
      exact h.direct_last (hnone hdirect)

-- A check closes an open session exactly if it has timed out.
theorem check_closes_iff (h : w.link.session.mAlive) (hstep : w.step .periodicCheck = some w') :
    w'.link.session.mAlive = false ↔ w.link.session.timeout := by
  obtain ⟨link, hlink, rfl⟩ := Option.map_eq_some_iff.mp hstep
  cases hlink
  show (if w.link.session.timeout then w.link.session.close else w.link.session).mAlive = false ↔ _
  split
  next htimeout => exact iff_of_true rfl htimeout
  next htimeout => exact iff_of_false (by rw [h]; exact Bool.true_eq_false.mp) htimeout

omit [ITunnel τ] in
-- The application of a direct session is silent exactly if the session has timed out.
theorem Stamped.silent_iff (h : w.Stamped start) (hdirect : w.link.mTunnel = none) :
    w.Silent start ↔ w.link.session.timeout := by
  unfold Silent UDPSession.timeout
  rw [← h.direct_last hdirect]
  exact decide_eq_true_iff.symm

theorem closesIdle_iff {e : UDPLink.Event τ} (h : w.Stamped start) :
    w.ClosesIdle e ↔ w.Unanswered start e := by
  have hpast (times : List Nat) (hlast : ∀ time ∈ times, time ≤ w.link.session.mLastTime)
      (htimeout : w.link.session.timeout) : w.Past times := by
    intro time ht
    have hle := hlast time ht
    have hlate : w.link.session.mLastTime + 120 < w.link.session.now := of_decide_eq_true htimeout
    omega
  cases e with
  | periodicCheck =>
    constructor
    · intro hidle halive hdirect hsilent
      have hstep : ∃ w', w.step .periodicCheck = some w' := ⟨_, rfl⟩
      obtain ⟨w', hw'⟩ := hstep
      have htimeout := (h.silent_iff hdirect).mp hsilent
      exact (hidle w' hw' rfl halive ((check_closes_iff halive hw').mpr htimeout)).2
    · rintro hanswered w' hw' - halive hclosed
      have htimeout := (check_closes_iff halive hw').mp hclosed
      refine ⟨hpast _ h.accepted_last htimeout, ?_⟩
      by_cases hdirect : w.link.mTunnel = none
      · exact hanswered halive hdirect ((h.silent_iff hdirect).mpr htimeout)
      · exact hpast _ (h.received_last hdirect) htimeout
  | _ => exact iff_of_true (fun _ _ hcheck => nomatch hcheck) trivial

/-- In every run the checks close idle sessions only, exactly if none of them finds a direct session
    whose application has been silent for 120 seconds and whose remote has not. -/
theorem run_closesIdle_iff {es : List (UDPLink.Event τ)} (haccepted : w.accepted = [])
    (hreceived : w.received = []) :
    Lib.Along step ClosesIdle w es ↔
      Lib.Along step (Unanswered w.link.session.mLastTime) w es := by
  have hstamped : w.Stamped w.link.session.mLastTime := by
    refine ⟨?_, ?_, ?_, fun _ => ?_, fun _ => ?_⟩
    · rw [haccepted]
      exact List.forall_mem_nil _
    · rw [hreceived]
      exact List.forall_mem_nil _
    · rw [haccepted]
      exact List.forall_mem_nil _
    · rw [hreceived]
      exact List.forall_mem_nil _
    · rw [haccepted]
      rfl
  constructor
  · exact Lib.Along.mono_of_invariant (Stamped w.link.session.mLastTime)
      (fun _ _ _ => step_stamped) (fun _ _ hs => (closesIdle_iff hs).mp) hstamped
  · exact Lib.Along.mono_of_invariant (Stamped w.link.session.mLastTime)
      (fun _ _ _ => step_stamped) (fun _ _ hs => (closesIdle_iff hs).mpr) hstamped

instance (start : Nat) (w : Timed TCPTunnel) : ∀ e, Decidable (w.Unanswered start e)
  | .periodicCheck => inferInstanceAs (Decidable (_ = true → _ = none → _ < _ → ∀ _ ∈ _, _))
  | .accept _ | .readable _ | .writable | .exception | .tunnelDataBack _ | .tunnelWritable
  | .tunnelDisconnected _ | .environment _ _ _ _ => inferInstanceAs (Decidable True)

def sampleIdle : Timed TCPTunnel := ⟨UDPLink.sampleSocket, [], []⟩

def samplePause (elapsed : Nat) : UDPLink.Event TCPTunnel :=
  .environment elapsed (fun _ => .accepted 0) UDPLink.sampleSocket.session.reactor id

-- Two datagrams and a reply to each; of the two checks the second closes the session.
def sampleExchange : List (UDPLink.Event TCPTunnel) :=
  [.accept (UDPLink.sampleOctet 0x61), samplePause 60, .readable (some [0x62]),
    .accept (UDPLink.sampleOctet 0x63), samplePause 110, .readable (some [0x64]), .periodicCheck,
    samplePause 121, .periodicCheck]

theorem run_closesIdle_sample : Lib.Along step ClosesIdle sampleIdle sampleExchange := by
  have hstart : sampleIdle.link.session.mLastTime = 0 := rfl
  apply (run_closesIdle_iff rfl rfl).mpr
  rw [hstart]
  decide

-- A datagram, the reply after 100 seconds, and a check after 21 more.
def sampleAnswered : List (UDPLink.Event TCPTunnel) :=
  [.accept (UDPLink.sampleOctet 0x61), samplePause 100, .readable (some [0x62]), samplePause 21,
    .periodicCheck]

/-- The reply does not keep its session open. -/
theorem answered_session_closed : ¬ Lib.Along step ClosesIdle sampleIdle sampleAnswered := by
  intro h
  have hclosed := (h.2.2.2.2.1 _ rfl rfl rfl rfl).2
  unfold Past at hclosed
  revert hclosed
  decide

end Timed

end NetCore
