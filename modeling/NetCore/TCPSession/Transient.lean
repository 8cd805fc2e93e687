import NetCore.TCPSession.Birth
import NetCore.TCPSession.Drain
import NetCore.TCPSession.TunnelCalls

/-!
# Errors of the socket

`TCPTunnel::sendData` destroys the tunnel on every error of `send`, EAGAIN and EINTR included, where
`onReadable` lets these two pass.  The drain loop of `onTunnelWritable` sends until the queue is
empty, so an upload comes out unharmed exactly when the kernel takes every queued byte before it
answers with its first error.
-/

namespace NetCore

instance (r : EpollReactor) (fd : Int) (events : U32) : Decidable (r.Watches fd events) :=
  decidable_of_iff ((r.mFd2Events.lookup fd).any fun stub =>
    stub.listener ≠ none ∧ stub.events &&& events = events) <| by
      simp [EpollReactor.Watches, Option.any_eq_true]

/-- Bytes taken, or an error that passes. -/
def SendOutcome.Transient : SendOutcome → Prop
  | .accepted n => 0 < n
  | .error errno => errno = EAGAIN ∨ errno = EINTR

instance : ∀ outcome : SendOutcome, Decidable outcome.Transient
  | .accepted _ => inferInstanceAs (Decidable (_ < _))
  | .error _ => inferInstanceAs (Decidable (_ ∨ _))

/-- The answers take segments of these sizes to the end before an error comes.  A segment without
    bytes, which nothing queues, ends the loop. -/
inductive Absorbs : List Nat → (Nat → SendOutcome) → Prop
  | nil {sends} : Absorbs [] sends
  | empty {sizes sends n} : sends 0 = .accepted n → Absorbs (0 :: sizes) sends
  | part {size sizes sends n} : sends 0 = .accepted n → n < size →
      Absorbs ((size - n) :: sizes) (fun k => sends (k + 1)) → Absorbs (size :: sizes) sends
  | whole {size sizes sends n} : sends 0 = .accepted n → 0 < size → size ≤ n →
      Absorbs sizes (fun k => sends (k + 1)) → Absorbs (size :: sizes) sends

namespace TCPTunnel

/-- Alive, with an open socket the reactor watches. -/
structure Standing (t : TCPTunnel) : Prop where
  alive : t.mAlive
  opened : 0 ≤ t.mSocket
  reacts : t.hasReactor
  watched : t.reactor.Watches t.mSocket evERROR

theorem withReactor_mAlive (f : EpollReactor → EpollReactor) (t : TCPTunnel) :
    (t.withReactor f).mAlive = t.mAlive := by
  unfold withReactor
  split <;> rfl

-- Giving up writing keeps the registration for errors.
theorem pauseSendData_standing {t : TCPTunnel} (h : t.Standing) :
    t.pauseSendData.Standing ∧ t.pauseSendData.mSocket = t.mSocket := by
  have hkept : (t.reactor.delEvent t.mSocket evWRITE).2.Watches t.mSocket evERROR :=
    EpollReactor.delEvent_watches h.watched (by decide) (by decide)
  unfold pauseSendData withReactor
  rw [if_pos ⟨h.opened, h.reacts⟩]
  exact ⟨⟨h.alive, h.opened, h.reacts, hkept⟩, rfl⟩

def afterSend (t : TCPTunnel) : TCPTunnel :=
  { t with sends := fun k => t.sends (k + 1), mLastTime := t.now + TIMEOUT }

theorem afterSend_standing {t : TCPTunnel} (h : t.Standing) : t.afterSend.Standing :=
  ⟨h.alive, h.opened, h.reacts, h.watched⟩

theorem sendData_accepted {t : TCPTunnel} (hopen : 0 ≤ t.mSocket) {n : Nat}
    (h : t.sends 0 = .accepted n) (data : Bytes) (more : Bool) :
    t.sendData data more = .sent (min n data.length) t.afterSend := by
  unfold sendData send
  rw [if_pos hopen, h]
  rfl

theorem sendData_error {t : TCPTunnel} (hopen : 0 ≤ t.mSocket) {errno : Nat}
    (h : t.sends 0 = .error errno) (data : Bytes) (more : Bool) :
    ∃ reason t', t.sendData data more = .failed reason t' ∧ t'.mAlive = false := by
  unfold sendData send
  rw [if_pos hopen, h]
  exact ⟨_, _, rfl, rfl⟩

end TCPTunnel

namespace TCPSession

/-! ## The drain loop over a direct tunnel -/

-- Without an error the tunnel stands as before, after one it is dead.
theorem drainLoop_tunnel (fuel : Nat) (queue : List TCPDatagram) {t : TCPTunnel}
    (h : t.Standing) :
    ((drainLoop fuel queue t).failed = none →
      (drainLoop fuel queue t).tunnel.Standing ∧
        (drainLoop fuel queue t).tunnel.mSocket = t.mSocket) ∧
    ((drainLoop fuel queue t).failed ≠ none → (drainLoop fuel queue t).tunnel.mAlive = false) := by
  induction fuel generalizing queue t with
  | zero => exact ⟨fun _ => ⟨h, rfl⟩, fun hfailed => absurd rfl hfailed⟩
  | succ fuel ih =>
    cases queue with
    | nil => exact ⟨fun _ => ⟨h, rfl⟩, fun hfailed => absurd rfl hfailed⟩
    | cons d queue =>
      rw [drainLoop_cons]
      cases hsend : t.sends 0 with
      | error errno =>
        obtain ⟨reason, t', hfailed, hdead⟩ :=
          t.sendData_error h.opened hsend d.readable (!d.hasFlag PSH)
        rw [show ITunnel.sendData t d.readable (!d.hasFlag PSH) = .failed reason t' from hfailed]
        exact ⟨fun hnone => absurd hnone (by simp), fun _ => hdead⟩
      | accepted n =>
        have hafter := TCPTunnel.afterSend_standing h
        rw [show ITunnel.sendData t d.readable (!d.hasFlag PSH) = .sent _ t.afterSend from
          TCPTunnel.sendData_accepted h.opened hsend d.readable (!d.hasFlag PSH)]
        simp only
        split
        · exact ⟨fun _ => ⟨hafter, rfl⟩, fun hfailed => absurd rfl hfailed⟩
        · exact ih (leftOver d _ queue) hafter

def sizes (queue : List TCPDatagram) : List Nat := queue.map fun d => d.size

theorem leftOver_sizes {d : TCPDatagram} {n : Nat} (h : n ≤ d.size) (queue : List TCPDatagram) :
    sizes (leftOver d n queue) =
      if n = d.size then sizes queue else (d.size - n) :: sizes queue := by
  have hsize : (d.withSegment (d.consume n)).size = d.size - n := Segment.size_consume h
  unfold leftOver
  simp only [hsize]
  by_cases heq : n = d.size
  · rw [if_pos (show d.size - n ≤ 0 by omega), if_pos heq]
  · rw [if_neg (show ¬ d.size - n ≤ 0 by omega), if_neg heq]
    show (d.withSegment (d.consume n)).size :: sizes queue = _
    rw [hsize]

theorem absorbs_part {size n : Nat} {sizes : List Nat} {sends : Nat → SendOutcome}
    (hsend : sends 0 = .accepted n) (hlt : n < size) :
    Absorbs (size :: sizes) sends ↔ Absorbs ((size - n) :: sizes) (fun k => sends (k + 1)) := by
  refine ⟨fun h => ?_, .part hsend hlt⟩
  cases h with
  | empty => omega
  | part hsend' _ h =>
    rw [hsend, SendOutcome.accepted.injEq] at hsend'
    rw [hsend']
    exact h
  | whole hsend' _ hle =>
    rw [hsend, SendOutcome.accepted.injEq] at hsend'
    omega

theorem absorbs_whole {size n : Nat} {sizes : List Nat} {sends : Nat → SendOutcome}
    (hsend : sends 0 = .accepted n) (hpos : 0 < size) (hle : size ≤ n) :
    Absorbs (size :: sizes) sends ↔ Absorbs sizes (fun k => sends (k + 1)) := by
  refine ⟨fun h => ?_, .whole hsend hpos hle⟩
  cases h with
  | empty => omega
  | part hsend' hlt =>
    rw [hsend, SendOutcome.accepted.injEq] at hsend'
    omega
  | whole _ _ _ h => exact h

theorem not_absorbs_error {size errno : Nat} {sizes : List Nat} {sends : Nat → SendOutcome}
    (hsend : sends 0 = .error errno) : ¬ Absorbs (size :: sizes) sends := by
  intro h
  cases h with
  | empty hsend' | part hsend' | whole hsend' =>
    rw [hsend] at hsend'
    cases hsend'

-- The loop ends without an error when the kernel takes everything before it.
theorem drainLoop_failed_iff {fuel : Nat} {queue : List TCPDatagram} {t : TCPTunnel}
    (hopen : 0 ≤ t.mSocket) (hanswers : ∀ k, (t.sends k).Transient)
    (hfuel : (BufferQueue.bytes queue).length < fuel) :
    (drainLoop fuel queue t).failed = none ↔ Absorbs (sizes queue) t.sends := by
  induction fuel generalizing queue t with
  | zero => omega
  | succ fuel ih =>
    cases queue with
    | nil => exact ⟨fun _ => .nil, fun _ => rfl⟩
    | cons d queue =>
      rw [drainLoop_cons]
      cases hsend : t.sends 0 with
      | error errno =>
        obtain ⟨reason, t', hfailed, -⟩ :=
          t.sendData_error hopen hsend d.readable (!d.hasFlag PSH)
        rw [show ITunnel.sendData t d.readable (!d.hasFlag PSH) = .failed reason t' from hfailed]
        exact ⟨fun hnone => absurd hnone (by simp), fun h => absurd h (not_absorbs_error hsend)⟩
      | accepted n =>
        have hn : 0 < n := by
          have hfirst := hanswers 0
          rw [hsend] at hfirst
          exact hfirst
        rw [show ITunnel.sendData t d.readable (!d.hasFlag PSH) = .sent _ t.afterSend from
          TCPTunnel.sendData_accepted hopen hsend d.readable (!d.hasFlag PSH)]
        rw [Segment.length_readable]
        simp only
        show _ ↔ Absorbs (d.size :: sizes queue) t.sends
        by_cases hempty : d.size = 0
        · rw [if_pos (by omega), hempty]
          exact ⟨fun _ => .empty hsend, fun _ => rfl⟩
        · -- what is left has fewer bytes, so the fuel lasts
          have hbytes := leftOver_bytes queue (Nat.min_le_right n d.size)
          have hlen := congrArg List.length hbytes
          rw [List.length_append, List.length_take, Segment.length_readable] at hlen
          have hrest : (drainLoop fuel (leftOver d (min n d.size) queue) t.afterSend).failed = none ↔
              _ := ih hopen (fun k => hanswers (k + 1)) (by omega)
          rw [if_neg (by omega)]
          refine hrest.trans ?_
          rw [leftOver_sizes (by omega)]
          by_cases hlt : n < d.size
          · rw [if_neg (by omega), absorbs_part hsend hlt, Nat.min_eq_left (by omega)]
            rfl
          · rw [if_pos (by omega), absorbs_whole hsend (by omega) (by omega)]
            rfl

-- None of these calls brings a tunnel back to life.
theorem dead_rule : BackTunnelRule fun t : TCPTunnel => t.mAlive = false where
  resume h := (TCPTunnel.withReactor_mAlive ..).trans h
  destroy _ := rfl

/-! ## A writable tunnel -/

structure Unharmed (s s' : TCPSession TCPTunnel) : Prop where
  standing : s'.mTunnel.Standing
  socket : s'.mTunnel.mSocket = s.mTunnel.mSocket
  state : s'.mState = s.mState
  remoteFinished : s'.mRemoteFinished = s.mRemoteFinished
  kept : ∃ accepted, s'.taken = s.taken ++ accepted ∧
    accepted ++ BufferQueue.bytes s'.mForwardQueue = BufferQueue.bytes s.mForwardQueue

theorem countSent_unharmed {s t : TCPSession TCPTunnel} (h : Unharmed s t) (n : Nat) :
    Unharmed s (t.countSent n) := by
  unfold countSent
  split
  · obtain ⟨accepted, htaken, hbytes⟩ := h.kept
    refine ⟨h.standing, h.socket, h.state, h.remoteFinished, accepted, ?_, hbytes⟩
    rw [taken_emit]
    exact (List.append_nil _).trans htaken
  · obtain ⟨hstanding, hsocket⟩ := TCPTunnel.pauseSendData_standing h.standing
    exact ⟨hstanding, hsocket.trans h.socket, h.state, h.remoteFinished, h.kept⟩

theorem countSent_dead (n : Nat) {s : TCPSession TCPTunnel} (h : s.mTunnel.mAlive = false) :
    (s.countSent n).mTunnel.mAlive = false := by
  unfold countSent
  split
  · exact h
  · exact (TCPTunnel.withReactor_mAlive ..).trans h

theorem drained_unharmed {s : TCPSession TCPTunnel} (hstanding : s.mTunnel.Standing)
    (h : (drain s.mForwardQueue s.mTunnel).failed = none) : Unharmed s s.drained := by
  obtain ⟨hkept, hsocket⟩ := (drainLoop_tunnel _ s.mForwardQueue hstanding).1 h
  refine ⟨hkept, hsocket, rfl, rfl, (drain s.mForwardQueue s.mTunnel).taken, ?_, ?_⟩
  · unfold drained
    simp only
    rw [taken_emit, List.flatMap_singleton]
    rfl
  · exact drain_bytes s.mForwardQueue s.mTunnel

/-- An upload over a direct tunnel whose `send` meets transient errors only is unharmed exactly when
    the kernel takes everything queued before the first of them. -/
theorem onTunnelWritable_unharmed_iff {s : TCPSession TCPTunnel} (hstanding : s.mTunnel.Standing)
    (hanswers : ∀ k, (s.mTunnel.sends k).Transient) :
    Unharmed s s.onTunnelWritable ↔ Absorbs (sizes s.mForwardQueue) s.mTunnel.sends := by
  have hfailed : (drain s.mForwardQueue s.mTunnel).failed = none ↔ _ :=
    drainLoop_failed_iff hstanding.opened hanswers (Nat.lt_succ_self _)
  rw [← hfailed]
  unfold onTunnelWritable
  by_cases hempty : s.mForwardQueue = []
  · rw [if_pos hempty]
    obtain ⟨hkept, hsocket⟩ := TCPTunnel.pauseSendData_standing hstanding
    refine ⟨fun _ => by rw [hempty]; rfl, fun _ => ?_⟩
    exact ⟨hkept, hsocket, rfl, rfl, [], (List.append_nil _).symm, rfl⟩
  · rw [if_neg hempty]
    simp only
    cases hreason : (drain s.mForwardQueue s.mTunnel).failed with
    | none =>
      refine ⟨fun _ => rfl, fun _ => ?_⟩
      exact countSent_unharmed (drained_unharmed hstanding hreason) _
    | some reason =>
      refine ⟨fun h => ?_, fun h => by cases h⟩
      -- the tunnel has been destroyed in the middle of the loop
      have hdead := (drainLoop_tunnel _ s.mForwardQueue hstanding).2 (by
        rw [show (drainLoop _ s.mForwardQueue s.mTunnel).failed = some reason from hreason]
        simp)
      have hdead' := dead_rule.onTunnelDisconnected (s := s.drained) reason hdead
      have halive := h.standing.alive
      rw [countSent_dead _ hdead'] at halive
      cases halive

def sampleQueued (sends : Nat → SendOutcome) : TCPSession TCPTunnel :=
  let s := sampleBorn { sampleTunnel with sends := sends }
  (s.accept (samplePacket 101 1001 ACK [0x61, 0x62] (by decide))).getD s

-- The kernel takes `n` single bytes, then its buffer is full.
def sampleAnswers (n k : Nat) : SendOutcome := if k < n then .accepted 1 else .error EAGAIN

theorem sampleAnswers_transient (n k : Nat) : (sampleAnswers n k).Transient := by
  unfold sampleAnswers
  split
  · exact Nat.zero_lt_one
  · exact .inl rfl

theorem onTunnelWritable_unharmed_sample :
    Unharmed (sampleQueued (sampleAnswers 2)) (sampleQueued (sampleAnswers 2)).onTunnelWritable ↔
      Absorbs (sizes (sampleQueued (sampleAnswers 2)).mForwardQueue)
        (sampleQueued (sampleAnswers 2)).mTunnel.sends :=
  onTunnelWritable_unharmed_iff ⟨by decide, by decide, by decide, by decide⟩
    (sampleAnswers_transient 2)

/-- One byte of two is taken, then EAGAIN comes: the tunnel is gone. -/
theorem onTunnelWritable_again :
    (sampleQueued (sampleAnswers 1)).mTunnel.Standing ∧
      (∀ k, ((sampleQueued (sampleAnswers 1)).mTunnel.sends k).Transient) ∧
      ¬ Unharmed (sampleQueued (sampleAnswers 1)) (sampleQueued (sampleAnswers 1)).onTunnelWritable := by
  refine ⟨⟨by decide, by decide, by decide, by decide⟩, sampleAnswers_transient 1, fun h => ?_⟩
  exact absurd h.standing.alive (by decide)

end TCPSession

end NetCore
