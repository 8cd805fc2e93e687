import NetCore.Lib.Ledger
import NetCore.UDPSession.StepRelation

/-!
# The traffic a UDP session reports

The sizes of its events against its totals.  Every event carries what has just been added, but for
those of `onTunnelDataBack`, which tells the whole length for every part of the data and once more at
the end.
-/

namespace NetCore

open Lib (Ledger)

def UDPPoint.told (id : EventID) : UDPPoint → Nat
  | .dispatched id' info => if id' = id then info.size.toNat else 0
  | _ => 0

def UDPPoint.silent (p : UDPPoint) : Prop :=
  p.told .connTrafficRecv = 0 ∧ p.told .connTrafficSent = 0

namespace UDPSession

variable {s t u : UDPSession}

def told (id : EventID) (s : UDPSession) : Nat := (s.trace.map (UDPPoint.told id)).sum

theorem told_emit (id : EventID) (points : List UDPPoint) (s : UDPSession) :
    told id (s.emit points) = told id s + (points.map (UDPPoint.told id)).sum := by
  unfold told emit
  rw [List.map_append, List.sum_append]

def ledger (s : UDPSession) : Ledger 32 :=
  ⟨s.mTotalRecv, s.mTotalSent, told .connTrafficRecv s, told .connTrafficSent s⟩

/-! ## What leaves the ledger as it is -/

theorem ledger_of_eq (hrecv : t.mTotalRecv = s.mTotalRecv) (hsent : t.mTotalSent = s.mTotalSent)
    (htrace : t.trace = s.trace) : t.ledger = s.ledger := by
  unfold ledger told
  rw [hrecv, hsent, htrace]

theorem ledger_emit {points : List UDPPoint} (h : ∀ p ∈ points, p.silent) (s : UDPSession) :
    (s.emit points).ledger = s.ledger := by
  have hrecv := Lib.sum_map_eq_zero fun p hp => (h p hp).1
  have hsent := Lib.sum_map_eq_zero fun p hp => (h p hp).2
  unfold ledger
  rw [told_emit, told_emit, hrecv, hsent]
  rfl

theorem ledger_withReactor (f : EpollReactor → EpollReactor) (s : UDPSession) :
    (s.withReactor f).ledger = s.ledger := by
  unfold withReactor
  split <;> exact ledger_of_eq rfl rfl rfl

theorem ledger_close (s : UDPSession) : s.close.ledger = s.ledger := by
  have hclosed : ledger (if 0 ≤ s.mSocket then
      s.withReactor fun r => (r.delEvent s.mSocket evALL).2 else s) = s.ledger := by
    split
    · exact ledger_withReactor _ s
    · rfl
  refine Eq.trans ?_ hclosed
  exact ledger_of_eq rfl rfl rfl

theorem ledger_countAccepted (ip : Datagram) (s : UDPSession) :
    (s.countAccepted ip).ledger = s.ledger := by
  unfold countAccepted
  dsimp only
  refine (ledger_emit (by simp [UDPPoint.silent, UDPPoint.told]) _).trans ?_
  split
  · refine (ledger_emit (by simp [UDPPoint.silent, UDPPoint.told]) _).trans ?_
    exact ledger_of_eq rfl rfl rfl
  · exact ledger_of_eq rfl rfl rfl

theorem ledger_reply (data : Bytes) (s : UDPSession) : (s.reply data).ledger = s.ledger := by
  unfold reply
  dsimp only
  refine (ledger_emit (by simp [UDPPoint.silent, UDPPoint.told]) _).trans ?_
  exact ledger_of_eq rfl rfl rfl

/-! ## The calls that move data -/

theorem told_countSent (h : s.ledger.Told) (n : Nat) : (s.countSent n).ledger.Told := by
  unfold countSent
  split
  · dsimp only
    refine ⟨?_, ?_⟩
    · exact (congrArg (BitVec.ofNat 32) (told_emit _ _ _)).trans h.recv
    · exact (congrArg (BitVec.ofNat 32) (told_emit _ _ _)).trans (h.send (BitVec.ofNat 32 n)).sent
  · exact h

theorem countSent_mTotalRecv (n : Nat) (s : UDPSession) :
    (s.countSent n).mTotalRecv = s.mTotalRecv := by
  unfold countSent
  split <;> rfl

theorem replyLoop_mTotalRecv (length : U32) (fuel : Nat) (data : Bytes) (s : UDPSession) :
    (replyLoop length fuel data s).mTotalRecv = s.mTotalRecv := by
  induction fuel generalizing data s with
  | zero => rfl
  | succ fuel ih =>
    rw [replyLoop]
    split
    · rfl
    · exact ih _ _

-- The event and the total of a reply that has been read.
theorem told_countReply (h : s.ledger.Told) (length : U32) :
    (({ s with mTotalRecv := s.mTotalRecv + length } : UDPSession).emit
      [.dispatched .connTrafficRecv
        (({ s with mTotalRecv := s.mTotalRecv + length } : UDPSession).toConnInfo length)]).ledger.Told where
  recv := (congrArg (BitVec.ofNat 32) (told_emit _ _ _)).trans (h.receive length).recv
  sent := (congrArg (BitVec.ofNat 32) (told_emit _ _ _)).trans h.sent

theorem told_onReadable (h : s.ledger.Told) (received : Bytes) :
    (s.onReadable (some received)).ledger.Told :=
  (congrArg Ledger.Told (ledger_reply _ _)).mpr (told_countReply h _)

theorem told_relation : PartRelation fun s t => s.ledger.Told → t.ledger.Told where
  refl _ := id
  trans h h' hs := h' (h hs)
  reactor f s hs := (ledger_withReactor f s).symm ▸ hs
  close s hs := (ledger_close s).symm ▸ hs
  queue _ _ _ _ h := ⟨h.recv, h.sent⟩
  count ip s hs := (ledger_countAccepted ip s).symm ▸ hs
  sent n _ h := told_countSent h n

theorem recv_relation : PartRelation fun s t => t.mTotalRecv = s.mTotalRecv where
  refl _ := rfl
  trans h h' := h'.trans h
  reactor f s := congrArg Ledger.recv (ledger_withReactor f s)
  close s := congrArg Ledger.recv (ledger_close s)
  queue _ _ _ _ := rfl
  count ip s := congrArg Ledger.recv (ledger_countAccepted ip s)
  sent := countSent_mTotalRecv

end UDPSession

namespace UDPLink

variable {τ : Type} [ITunnel τ] {w w' : UDPLink τ}

def Event.received : Event τ → Nat
  | .readable (some data) => (data.take UDPSession.MAX_IP_SIZE).length
  | .tunnelDataBack data => data.length
  | _ => 0

-- Every call but `onTunnelDataBack` tells what it moves.
theorem step_told {e : Event τ} (hstep : w.step e = some w') (h : w.session.ledger.Told)
    (hquiet : ∀ data, e = .tunnelDataBack data → data = []) : w'.session.ledger.Told := by
  refine step_relation UDPSession.told_relation ?_
    (fun received _ h => UDPSession.told_onReadable h received) ?_
    (fun _ _ _ _ _ h => ⟨h.recv, h.sent⟩) hstep h
  · intro ip _ h
    cases halive : w.session.mAlive with
    | false =>
      rw [UDPSession.accept_closed ip w.mTunnel halive]
      exact h
    | true =>
      obtain ⟨t, ht, heq⟩ := UDPSession.told_relation.accept ip w.mTunnel halive
      rw [heq]
      exact ⟨(ht h).recv, (ht h).sent⟩
  · intro data tunnel he _ h
    rw [hquiet data he]
    have hclosed : w.session.close.ledger.Told := (UDPSession.ledger_close w.session).symm ▸ h
    exact ⟨hclosed.recv, hclosed.sent⟩

theorem accept_mTotalRecv (ip : Datagram) (tunnel : Option τ) (s : UDPSession) :
    (s.accept ip tunnel).1.mTotalRecv = s.mTotalRecv := by
  cases halive : s.mAlive with
  | false => rw [UDPSession.accept_closed ip tunnel halive]
  | true =>
    obtain ⟨t, ht, heq⟩ := UDPSession.recv_relation.accept ip tunnel halive
    rw [heq]
    exact ht

-- Only what comes from the remote is added.
theorem step_quiet {e : Event τ} (hstep : w.step e = some w')
    (hread : ∀ received, e ≠ .readable (some received)) (hback : ∀ data, e ≠ .tunnelDataBack data) :
    w'.session.mTotalRecv = w.session.mTotalRecv :=
  step_relation UDPSession.recv_relation (fun ip _ => accept_mTotalRecv ip w.mTunnel w.session)
    (fun received he => absurd he (hread received)) (fun data _ he _ => absurd he (hback data))
    (fun _ _ _ _ _ => rfl) hstep

-- A step adds what it receives.
theorem step_received {e : Event τ} (hstep : w.step e = some w') :
    w'.session.mTotalRecv = w.session.mTotalRecv + BitVec.ofNat 32 e.received := by
  have hkept {s : UDPSession} (h : s.mTotalRecv = w.session.mTotalRecv) :
      s.mTotalRecv = w.session.mTotalRecv + BitVec.ofNat 32 0 :=
    h.trans (BitVec.add_zero _).symm
  cases e with
  | readable outcome =>
    obtain ⟨-, rfl⟩ := onSocket_eq_some hstep
    cases outcome with
    | none => exact hkept (congrArg Ledger.recv (UDPSession.ledger_close w.session))
    | some received => rfl
  | tunnelDataBack data =>
    obtain ⟨tunnel, -, rfl⟩ := onTunnel_eq_some hstep
    dsimp only
    unfold UDPSession.onTunnelDataBack
    split
    next hempty =>
      rw [hempty]
      exact hkept (congrArg Ledger.recv (UDPSession.ledger_close w.session))
    next =>
      show (UDPSession.replyLoop _ _ _ _).mTotalRecv + _ = _
      rw [UDPSession.replyLoop_mTotalRecv]
      rfl
  | _ => exact hkept (step_quiet hstep (fun _ => by simp) fun _ => by simp)

end UDPLink

end NetCore
