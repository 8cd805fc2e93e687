import NetCore.Lib.Loop
import NetCore.TCPSession.Upload
import NetCore.UDPSession.Wakeup

/-!
# The end of `onTunnelWritable`

Both sessions hand the front of a queue to the tunnel again and again.  The TCP session takes 0 for
"not now" and comes back.  The UDP session breaks on a negative number only: it takes nothing off
the queue and asks again, and a tunnel that still takes nothing is asked for ever.
-/

namespace NetCore

open Lib (Lap Visits Stops)

def SendResult.TakesNothing {τ : Type} : SendResult τ → Prop
  | .sent s _ => s = 0
  | .failed _ _ => True

structure LoopLeft (α τ : Type) where
  queue : List α
  tunnel : τ
  /-- The last `sendData` has failed. -/
  failed : Option U8

/-- The loop comes to an end with a queue that is what `onTunnelWritable` leaves; a call that takes
    no byte is the last one, and the queue stays as it is. -/
structure ComesBack {α τ : Type} (round : List α × τ → Lap (List α × τ) (LoopLeft α τ))
    (call : α → τ → SendResult τ) (leaves : List α → Prop) (queue : List α) (tunnel : τ) : Prop where
  stops : ∃ r, Stops round (queue, tunnel) r ∧ leaves r.queue
  last : ∀ {front rest t}, Visits round (queue, tunnel) (front :: rest, t) →
    (call front t).TakesNothing → ∃ r, round (front :: rest, t) = .done r ∧ r.queue = front :: rest

/-! ## The TCP session -/

namespace TCPSession

variable {τ : Type} [ITunnel τ]

def drainRound : List TCPDatagram × τ → Lap (List TCPDatagram × τ) (LoopLeft TCPDatagram τ)
  | ([], tunnel) => .done ⟨[], tunnel, none⟩
  | (segment :: queue, tunnel) =>
      match ITunnel.sendData tunnel segment.readable (!segment.hasFlag PSH) with
      | .failed reason tunnel => .done ⟨segment :: queue, tunnel, some reason⟩
      | .sent s tunnel =>
          if s = 0 then .done ⟨segment :: queue, tunnel, none⟩
          else .again (leftOver segment s queue, tunnel)

def Returns (s : TCPSession τ) : Prop :=
  ComesBack drainRound
    (fun segment tunnel => ITunnel.sendData tunnel segment.readable (!segment.hasFlag PSH))
    (s.onTunnelWritable.mForwardQueue = ·) s.mForwardQueue s.mTunnel

-- `drain` is the loop of these rounds.
theorem drainLoop_stops {fuel : Nat} (queue : List TCPDatagram) (tunnel : τ)
    (h : (BufferQueue.bytes queue).length < fuel) :
    Stops drainRound (queue, tunnel) ⟨(drainLoop fuel queue tunnel).queue,
      (drainLoop fuel queue tunnel).tunnel, (drainLoop fuel queue tunnel).failed⟩ := by
  induction fuel generalizing queue tunnel with
  | zero => exact absurd h (Nat.not_lt_zero _)
  | succ fuel ih =>
    cases queue with
    | nil => exact .done rfl
    | cons segment queue =>
      rw [drainLoop_cons]
      cases hsend : ITunnel.sendData tunnel segment.readable (!segment.hasFlag PSH) with
      | failed reason tunnel' =>
        apply Stops.done
        simp only [drainRound, hsend]
      | sent s tunnel' =>
        by_cases hzero : s = 0
        · apply Stops.done
          simp only [drainRound, hsend, if_pos hzero]
        · have hagain : drainRound (segment :: queue, tunnel) =
              .again (leftOver segment s queue, tunnel') := by
            simp only [drainRound, hsend, if_neg hzero]
          have hle := ITunnel.sendData_le hsend
          rw [Segment.length_readable] at hle
          -- the bytes sent are gone from the rest
          have hlen := congrArg List.length (leftOver_bytes queue hle)
          rw [List.length_append, List.length_take, Segment.length_readable] at hlen
          simp only [if_neg hzero]
          exact .again hagain (ih _ tunnel' (by omega))

theorem onTunnelWritable_queue (s : TCPSession τ) :
    s.onTunnelWritable.mForwardQueue = (drain s.mForwardQueue s.mTunnel).queue := by
  unfold onTunnelWritable
  split
  next hempty =>
    rw [hempty]
    rfl
  next =>
    simp only
    split
    · exact ((onTunnelDisconnected_upload _ _).trans (countSent_upload _ _)).forwardQueue
    · exact (countSent_upload _ _).forwardQueue

-- The loop of the TCP session always comes back.
theorem returns (s : TCPSession τ) : s.Returns where
  stops := ⟨_, drainLoop_stops s.mForwardQueue s.mTunnel (Nat.lt_succ_self _),
    onTunnelWritable_queue s⟩
  last := by
    intro segment queue tunnel _ hnothing
    cases hsend : ITunnel.sendData tunnel segment.readable (!segment.hasFlag PSH) with
    | failed reason tunnel' =>
      refine ⟨⟨segment :: queue, tunnel', some reason⟩, ?_, rfl⟩
      simp only [drainRound, hsend]
    | sent s tunnel' =>
      have hzero : s = 0 := by
        rw [hsend] at hnothing
        exact hnothing
      refine ⟨⟨segment :: queue, tunnel', none⟩, ?_, rfl⟩
      simp only [drainRound, hsend, if_pos hzero]

end TCPSession

/-! ## The UDP session -/

namespace UDPSession

variable {τ : Type} [ITunnel τ]

-- A round of the loop of `onTunnelWritable`: there is no branch for 0.
def tunnelRound : List Segment × τ → Lap (List Segment × τ) (LoopLeft Segment τ)
  | ([], tunnel) => .done ⟨[], tunnel, none⟩
  | (segment :: queue, tunnel) =>
      match ITunnel.sendData tunnel segment.readable false with
      | .failed reason tunnel => .done ⟨segment :: queue, tunnel, some reason⟩
      | .sent s tunnel => .again (leftOf segment s queue, tunnel)

def Returns (s : UDPSession) (tunnel : τ) : Prop :=
  ComesBack tunnelRound (fun segment tunnel => ITunnel.sendData tunnel segment.readable false)
    (fun queue => ∃ rounds, ∀ more, rounds ≤ more →
      ({ s with rounds := more }.onTunnelWritable tunnel).2.1.mOutBuffer = queue)
    s.mOutBuffer tunnel

/-- Call after call, the tunnel takes bytes off the front of the queue. -/
inductive Takes : List Segment × τ → List Segment × τ → Prop where
  | here (state : List Segment × τ) : Takes state state
  | sent {segment : Segment} {queue : List Segment} {tunnel tunnel' : τ} {s : Nat}
      {state : List Segment × τ} :
      ITunnel.sendData tunnel segment.readable false = .sent s tunnel' → s ≠ 0 →
      Takes (leftOf segment s queue, tunnel') state → Takes (segment :: queue, tunnel) state

/-- Offered the queue, the tunnel comes to a call that it answers with 0. -/
def Refuses (queue : List Segment) (tunnel : τ) : Prop :=
  ∃ segment rest tunnel' tunnel'', Takes (queue, tunnel) (segment :: rest, tunnel') ∧
    ITunnel.sendData tunnel' segment.readable false = .sent 0 tunnel''

-- The bytes left are fewer by the bytes sent.
theorem length_leftOf {segment : Segment} {s : Nat} (queue : List Segment) (h : s ≤ segment.size) :
    s + ((leftOf segment s queue).flatMap Segment.readable).length =
      ((segment :: queue).flatMap Segment.readable).length := by
  have hleft : (segment.consume s).readable.length = segment.size - s := by
    rw [Segment.readable_consume h, List.length_drop, Segment.length_readable]
  rw [List.flatMap_cons, List.length_append, Segment.length_readable]
  unfold leftOf
  split
  next hempty =>
    rw [Segment.length_readable] at hleft
    omega
  next =>
    rw [List.flatMap_cons, List.length_append, hleft]
    omega

theorem tunnelRound_sent {segment : Segment} (queue : List Segment) {tunnel tunnel' : τ} {s : Nat}
    (h : ITunnel.sendData tunnel segment.readable false = .sent s tunnel') :
    tunnelRound (segment :: queue, tunnel) = .again (leftOf segment s queue, tunnel') := by
  simp only [tunnelRound, h]

theorem tunnelRound_failed {segment : Segment} (queue : List Segment) {tunnel tunnel' : τ}
    {reason : U8} (h : ITunnel.sendData tunnel segment.readable false = .failed reason tunnel') :
    tunnelRound (segment :: queue, tunnel) = .done ⟨segment :: queue, tunnel', some reason⟩ := by
  simp only [tunnelRound, h]

-- `tunnelLoop` follows the rounds.
theorem tunnelLoop_of_stops {state : List Segment × τ} {r : LoopLeft Segment τ}
    (h : Stops tunnelRound state r) :
    ∃ rounds, ∀ more, rounds ≤ more → (tunnelLoop more state.1 state.2).queue = r.queue := by
  induction h with
  | @done state r hdone =>
    refine ⟨1, fun more hmore => ?_⟩
    obtain ⟨more, rfl⟩ := Nat.exists_eq_succ_of_ne_zero (Nat.ne_of_gt hmore)
    obtain ⟨queue, tunnel⟩ := state
    cases queue with
    | nil =>
      cases hdone
      rfl
    | cons segment queue =>
      cases hsend : ITunnel.sendData tunnel segment.readable false with
      | failed reason tunnel' =>
        rw [tunnelRound_failed queue hsend] at hdone
        cases hdone
        simp only [tunnelLoop, hsend]
      | sent s tunnel' =>
        rw [tunnelRound_sent queue hsend] at hdone
        cases hdone
  | @again state next r hagain _ ih =>
    obtain ⟨rounds, hrest⟩ := ih
    refine ⟨rounds + 1, fun more hmore => ?_⟩
    obtain ⟨more, rfl⟩ := Nat.exists_eq_succ_of_ne_zero (Nat.ne_of_gt (Nat.zero_lt_of_lt hmore))
    obtain ⟨queue, tunnel⟩ := state
    cases queue with
    | nil => cases hagain
    | cons segment queue =>
      cases hsend : ITunnel.sendData tunnel segment.readable false with
      | failed reason tunnel' =>
        rw [tunnelRound_failed queue hsend] at hagain
        cases hagain
      | sent s tunnel' =>
        rw [tunnelRound_sent queue hsend] at hagain
        cases hagain
        rw [Nat.succ_eq_add_one, tunnelLoop_sent more queue hsend]
        exact hrest more (Nat.le_of_succ_le_succ hmore)

omit [ITunnel τ] in
theorem mOutBuffer_close (s : UDPSession) : s.close.mOutBuffer = s.mOutBuffer := by
  unfold close
  split
  next =>
    unfold withReactor
    split <;> rfl
  next => rfl

theorem onTunnelWritable_queue (s : UDPSession) (tunnel : τ) :
    (s.onTunnelWritable tunnel).2.1.mOutBuffer =
      (tunnelLoop s.rounds s.mOutBuffer tunnel).queue := by
  unfold onTunnelWritable
  split
  next hempty =>
    have hnone : (tunnelLoop s.rounds [] tunnel).queue = [] := by
      cases s.rounds <;> rfl
    rw [hempty, hnone]
  next =>
    simp only [mOutBuffer_countSent]
    split
    · exact mOutBuffer_close _
    · rfl

theorem Takes.visits {state state' : List Segment × τ} (h : Takes state state') :
    Visits tunnelRound state state' := by
  induction h with
  | here state => exact .here state
  | @sent segment queue tunnel tunnel' s state hsend _ _ ih =>
    exact .again (tunnelRound_sent queue hsend) ih

-- As long as no call is answered with 0, every round of the loop takes bytes.
theorem takes_of_visits {state state' : List Segment × τ} (h : Visits tunnelRound state state')
    (hnever : ¬ Refuses state.1 state.2) : Takes state state' := by
  induction h with
  | here state => exact .here state
  | @again state next state' hagain _ ih =>
    obtain ⟨queue, tunnel⟩ := state
    cases queue with
    | nil => cases hagain
    | cons segment queue =>
      cases hsend : ITunnel.sendData tunnel segment.readable false with
      | failed reason tunnel' =>
        rw [tunnelRound_failed queue hsend] at hagain
        cases hagain
      | sent s tunnel' =>
        rw [tunnelRound_sent queue hsend] at hagain
        cases hagain
        have hpos : s ≠ 0 := by
          rintro rfl
          exact hnever ⟨segment, queue, tunnel, tunnel', .here _, hsend⟩
        apply Takes.sent hsend hpos
        apply ih
        rintro ⟨segment', rest, t', t'', htakes, hzero⟩
        exact hnever ⟨segment', rest, t', t'', .sent hsend hpos htakes, hzero⟩

-- The loop of the UDP session comes back as it should unless it meets a 0.
theorem returns_iff (s : UDPSession) (tunnel : τ) :
    s.Returns tunnel ↔ ¬ Refuses s.mOutBuffer tunnel := by
  constructor
  · rintro ⟨-, hlast⟩ ⟨segment, rest, t', t'', htakes, hzero⟩
    have hnothing : (ITunnel.sendData t' segment.readable false).TakesNothing := by
      rw [hzero]
      exact rfl
    obtain ⟨r, hdone, -⟩ := hlast htakes.visits hnothing
    rw [tunnelRound_sent rest hzero] at hdone
    cases hdone
  · intro hnever
    have hstops : ∃ r, Stops tunnelRound (s.mOutBuffer, tunnel) r := by
      apply Lib.stops_of_measure fun state => (state.1.flatMap Segment.readable).length
      intro state next hvisits hagain
      have htakes := takes_of_visits hvisits hnever
      obtain ⟨queue, t⟩ := state
      cases queue with
      | nil => cases hagain
      | cons segment queue =>
        cases hsend : ITunnel.sendData t segment.readable false with
        | failed reason t' =>
          rw [tunnelRound_failed queue hsend] at hagain
          cases hagain
        | sent n t' =>
          rw [tunnelRound_sent queue hsend] at hagain
          cases hagain
          have hpos : n ≠ 0 := by
            rintro rfl
            exact hnever ⟨segment, queue, t, t', htakes, hsend⟩
          have hle := ITunnel.sendData_le hsend
          rw [Segment.length_readable] at hle
          have hbytes := length_leftOf queue hle
          simp only
          omega
    obtain ⟨r, hr⟩ := hstops
    refine ⟨⟨r, hr, ?_⟩, ?_⟩
    · obtain ⟨rounds, hrounds⟩ := tunnelLoop_of_stops hr
      refine ⟨rounds, fun more hmore => ?_⟩
      rw [onTunnelWritable_queue]
      exact hrounds more hmore
    · intro segment queue t hvisits hnothing
      cases hsend : ITunnel.sendData t segment.readable false with
      | failed reason t' => exact ⟨_, tunnelRound_failed queue hsend, rfl⟩
      | sent n t' =>
        have hzero : n = 0 := by
          rw [hsend] at hnothing
          exact hnothing
        rw [hzero] at hsend
        exact absurd ⟨segment, queue, t, t', takes_of_visits hvisits hnever, hsend⟩ hnever

-- A tunnel that takes nothing of a datagram and stays as it is is asked for ever.
theorem tunnelRound_spins {segment : Segment} {queue : List Segment} {tunnel : τ}
    (hne : segment.size ≠ 0)
    (h : ITunnel.sendData tunnel segment.readable false = .sent 0 tunnel)
    (r : LoopLeft Segment τ) : ¬ Stops tunnelRound (segment :: queue, tunnel) r := by
  have hsame : leftOf segment 0 queue = segment :: queue := by
    have hconsume : segment.consume 0 = segment := by
      unfold Segment.consume
      exact dif_pos segment.pos_le
    unfold leftOf
    rw [hconsume, if_neg (by omega)]
  refine Lib.not_stops_of_invariant (· = (segment :: queue, tunnel)) ?_ rfl
  rintro state rfl
  refine ⟨_, tunnelRound_sent queue h, ?_⟩
  rw [hsame]

-- A proxy that is dead or full takes nothing and stays as it is.
theorem sendData_refused {p : Socks5Proxy} {data : Bytes} {more : Bool}
    (h : p.mAlive = false ∨ p.getAvailableBufferSize.toNat < data.length) :
    ITunnel.sendData p data more = .sent 0 p := by
  show p.sendData data more = _
  unfold Socks5Proxy.sendData
  rcases h with hdead | hfull
  · rw [hdead]
    rfl
  · rw [if_pos hfull, ite_self]

def sampleWaiting : UDPSession :=
  { UDPFlow.sampleSession with mOutBuffer := [Segment.ofBytes [0x61]] }

def sampleFull : Socks5Proxy := { UDPFlow.sampleTunnel with mBufferedSize := 0x40000 }

/-- The loop asks the full proxy for ever. -/
theorem sampleWaiting_spins :
    (∀ r, ¬ Stops tunnelRound (sampleWaiting.mOutBuffer, sampleFull) r) ∧
      ¬ sampleWaiting.Returns sampleFull := by
  have hfull : sampleFull.getAvailableBufferSize.toNat <
      (Segment.ofBytes [0x61]).readable.length := by decide
  have hspins (r : LoopLeft Segment Socks5Proxy) :
      ¬ Stops tunnelRound (sampleWaiting.mOutBuffer, sampleFull) r :=
    tunnelRound_spins (by decide) (sendData_refused (.inr hfull)) r
  refine ⟨hspins, fun hreturns => ?_⟩
  obtain ⟨r, hstops, -⟩ := hreturns.stops
  exact hspins r hstops

end UDPSession

/-- `onTunnelWritable` of a TCP session always comes back; that of a UDP session does exactly if its
    tunnel does not come to a call it answers with 0. -/
theorem onTunnelWritable_returns {τ σ : Type} [ITunnel τ] [ITunnel σ] (s : TCPSession τ)
    (u : UDPSession) (tunnel : σ) :
    s.Returns ∧ (u.Returns tunnel ↔ ¬ UDPSession.Refuses u.mOutBuffer tunnel) :=
  ⟨s.returns, u.returns_iff tunnel⟩

end NetCore
