import NetCore.Lib.Ledger
import NetCore.TCPSession.StepRelation

/-!
# The traffic a session reports

The sizes of the two traffic events of the tunnel's side against the two totals.  Only the calls that
move data touch either; both events are raised with what has just been added to the total.
-/

namespace NetCore

open Lib (Ledger)

def TracePoint.told (id : EventID) : TracePoint → Nat
  | .dispatched id' info => if id' = id then info.size.toNat else 0
  | _ => 0

-- No event of the tunnel's traffic.
def TracePoint.silent (p : TracePoint) : Prop :=
  p.told .connTrafficRecv = 0 ∧ p.told .connTrafficSent = 0

namespace TCPSession

variable {τ : Type} {s t u : TCPSession τ}

def told (id : EventID) (s : TCPSession τ) : Nat := (s.trace.map (TracePoint.told id)).sum

theorem told_emit (id : EventID) (points : List TracePoint) (s : TCPSession τ) :
    told id (s.emit points) = told id s + (points.map (TracePoint.told id)).sum := by
  unfold told emit
  rw [List.map_append, List.sum_append]

-- The totals of the tunnel's side, and what the events have told of them.
def ledger (s : TCPSession τ) : Ledger 32 :=
  ⟨s.mTotalRecv, s.mTotalSent, told .connTrafficRecv s, told .connTrafficSent s⟩

/-! ## What leaves the ledger as it is -/

theorem ledger_of_eq (hrecv : t.mTotalRecv = s.mTotalRecv) (hsent : t.mTotalSent = s.mTotalSent)
    (htrace : t.trace = s.trace) : t.ledger = s.ledger := by
  unfold ledger told
  rw [hrecv, hsent, htrace]

theorem ledger_emit {points : List TracePoint} (h : ∀ p ∈ points, p.silent) (s : TCPSession τ) :
    (s.emit points).ledger = s.ledger := by
  have hrecv := Lib.sum_map_eq_zero fun p hp => (h p hp).1
  have hsent := Lib.sum_map_eq_zero fun p hp => (h p hp).2
  unfold ledger
  rw [told_emit, told_emit, hrecv, hsent]
  rfl

theorem ledger_emitOne {p : TracePoint} (h : p.silent) (s : TCPSession τ) :
    (s.emit [p]).ledger = s.ledger := ledger_emit (List.forall_mem_singleton.mpr h) s

theorem ledger_emitPackage (d : TCPDatagram) (s v : TCPSession τ) :
    (s.emit (packagePoints d v)).ledger = s.ledger :=
  ledger_emit (by simp [packagePoints, TracePoint.silent, TracePoint.told]) s

theorem ledger_popAcked (s : TCPSession τ) : s.popAcked.ledger = s.ledger := by
  obtain ⟨_, _, points, heq, hpoints⟩ := s.popAcked_eq
  rw [heq]
  have hsilent : ∀ p ∈ points, p.silent := by
    intro p hp
    obtain ⟨d, rfl⟩ := hpoints p hp
    exact ⟨rfl, rfl⟩
  refine Eq.trans ?_ (ledger_emit hsilent s)
  exact ledger_of_eq rfl rfl rfl

variable [ITunnel τ]

theorem ledger_switchState (state : TCPState) (s : TCPSession τ) :
    (s.switchState state).ledger = s.ledger := by
  unfold switchState
  split
  · rfl
  · dsimp only
    refine (ledger_emit (by simp [TracePoint.silent, TracePoint.told]) _).trans ?_
    split <;> exact ledger_of_eq rfl rfl rfl

theorem ledger_rstSent (s : TCPSession τ) : s.rstSent.ledger = s.ledger := by
  have hupdated : ledger { s.updateWindowSize with mLocalSeq := s.mLocalNext } = s.ledger :=
    ledger_of_eq rfl rfl rfl
  exact (ledger_emitOne ⟨rfl, rfl⟩ _).trans ((ledger_emitPackage _ _ _).trans hupdated)

theorem ledger_sendBackData (s : TCPSession τ) : s.sendBackData.ledger = s.ledger := by
  have hhand (s : TCPSession τ) (d : TCPDatagram) : (sendBackSegment d s).2.2.ledger = s.ledger := by
    unfold sendBackSegment
    split
    · rfl
    · dsimp only
      split
      · rfl
      · exact ledger_emitPackage _ s s
  have hreset (s : TCPSession τ) : s.resetConnection.ledger = s.ledger := by
    rw [resetConnection_eq]
    exact (ledger_switchState .closed _).trans (ledger_rstSent s)
  have hresume (s : TCPSession τ) : s.resumeIfRoom.ledger = s.ledger := by
    unfold resumeIfRoom
    split <;> exact ledger_of_eq rfl rfl rfl
  exact sendBackData_relation (R := fun s t => t.ledger = s.ledger) (fun h h' => h'.trans h)
    (fun _ _ => ledger_of_eq rfl rfl rfl) hhand hreset hresume s

theorem ledger_enqueueBack (flag : U8) (data : Bytes) (s : TCPSession τ) :
    (s.enqueueBack flag data).ledger = s.ledger := by
  refine (ledger_emitOne ⟨rfl, rfl⟩ _).trans ?_
  exact ledger_of_eq rfl rfl rfl

theorem ledger_back : BackRelation fun s t : TCPSession τ => t.ledger = s.ledger where
  refl _ := rfl
  trans h h' := h'.trans h
  pop := ledger_popAcked
  send := ledger_sendBackData
  number flag s := ledger_enqueueBack flag [] s
  refuse _ s := ledger_emitOne ⟨rfl, rfl⟩ s
  switch := ledger_switchState
  rst := ledger_rstSent
  upload _ _ := ledger_of_eq rfl rfl rfl
  finish _ := ledger_of_eq rfl rfl rfl

omit [ITunnel τ] in
theorem ledger_countAccepted (ip : Packet) (s : TCPSession τ) :
    (s.countAccepted ip).ledger = s.ledger := by
  unfold countAccepted
  dsimp only
  refine (ledger_emitOne ⟨rfl, rfl⟩ _).trans ?_
  split
  · refine (ledger_emitOne ⟨rfl, rfl⟩ _).trans ?_
    exact ledger_of_eq rfl rfl rfl
  · exact ledger_of_eq rfl rfl rfl

theorem ledger_relayLoop (fuel : Nat) (data : Bytes) (s : TCPSession τ) :
    (relayLoop fuel data s).2.ledger = s.ledger :=
  ledger_back.relayLoop (fun data s => ledger_enqueueBack ACK data s) fuel data s

/-! ## What is told of both totals -/

omit [ITunnel τ] in
theorem told_countRecv (h : s.ledger.Told) (i : Nat) : (s.countRecv i).ledger.Told := by
  unfold countRecv
  split
  · dsimp only
    refine ⟨?_, ?_⟩
    · exact (congrArg (BitVec.ofNat 32) (told_emit _ _ _)).trans (h.receive (BitVec.ofNat 32 i)).recv
    · exact (congrArg (BitVec.ofNat 32) (told_emit _ _ _)).trans h.sent
  · exact h

theorem told_countSent (h : s.ledger.Told) (n : Nat) : (s.countSent n).ledger.Told := by
  unfold countSent
  split
  · dsimp only
    refine ⟨?_, ?_⟩
    · exact (congrArg (BitVec.ofNat 32) (told_emit _ _ _)).trans h.recv
    · exact (congrArg (BitVec.ofNat 32) (told_emit _ _ _)).trans (h.send (BitVec.ofNat 32 n)).sent
  · exact ⟨h.recv, h.sent⟩

theorem told_relation : RunRelation fun s t : TCPSession τ => s.ledger.Told → t.ledger.Told where
  toBackRelation :=
    ledger_back.weaken (fun _ => id) (fun h h' hs => h' (h hs)) fun h hs => h ▸ hs
  count ip s hs := (ledger_countAccepted ip s).symm ▸ hs
  environment _ _ _ _ _ _ _ _ h := ⟨h.recv, h.sent⟩
  written _ _ _ h := ⟨h.recv, h.sent⟩
  options _ _ _ _ h := ⟨h.recv, h.sent⟩
  bases _ _ h := ⟨h.recv, h.sent⟩

theorem step_told {e : Event τ} (hstep : s.step e = some t) (h : s.ledger.Told) :
    t.ledger.Told := by
  refine told_relation.step ?_ ?_ hstep h
  · intro data _ hdata
    have hpush (data : Bytes) (s : TCPSession τ) (hs : s.ledger.Told) :
        (s.enqueueBack ACK data).ledger.Told := (ledger_enqueueBack ACK data s).symm ▸ hs
    exact told_relation.toBackRelation.onTunnelDataBack hpush (fun i s hs => told_countRecv hs i)
      (fun _ _ hs => ⟨hs.recv, hs.sent⟩) (fun _ hs => ⟨hs.recv, hs.sent⟩) hdata s
  · intro _
    have hdrained (s : TCPSession τ) (hs : s.ledger.Told) : s.drained.ledger.Told := by
      have hsame : s.drained.ledger = s.ledger :=
        (ledger_emitOne (p := .taken _) ⟨rfl, rfl⟩ _).trans (ledger_of_eq rfl rfl rfl)
      exact hsame.symm ▸ hs
    exact told_relation.toBackRelation.onTunnelWritable hdrained (fun n s hs => told_countSent hs n)
      (fun _ _ hs => ⟨hs.recv, hs.sent⟩) s

/-! ## What comes from the remote -/

def Event.received : Event τ → Nat
  | .tunnelDataBack data => data.length
  | _ => 0

/-- The left edge is not ahead of what is numbered, and what the parts before the last one number
    stays below 2^32: then no push is refused. -/
def Relays (data : Bytes) (s : TCPSession τ) : Prop :=
  data = [] ∨ s.mLocalNext ≤ s.mLocalSeq ∧
    s.mLocalSeq.toNat + (data.length - 1) / TCP_IP_PAYLOAD_SIZE * TCP_IP_PAYLOAD_SIZE < 2 ^ 32

omit [ITunnel τ] in
instance (data : Bytes) (s : TCPSession τ) : Decidable (s.Relays data) :=
  inferInstanceAs (Decidable (_ ∨ _))

-- The count stays, or a reset takes it back to the left edge.
def NumbersNothing (s t : TCPSession τ) : Prop :=
  t.mLocalNext = s.mLocalNext ∧ (t.mLocalSeq = s.mLocalSeq ∨ t.mLocalSeq = s.mLocalNext)

theorem sendBackData_numbers (s : TCPSession τ) : NumbersNothing s s.sendBackData := by
  refine sendBackData_relation (R := NumbersNothing) (fun h h' => ⟨h'.1.trans h.1, ?_⟩)
    (fun _ _ => ⟨rfl, .inl rfl⟩) (fun s d => ?_) (fun s => ?_) (fun s => ?_) s
  · rcases h'.2 with hseq | hnext
    · exact h.2.imp hseq.trans hseq.trans
    · exact .inr (hnext.trans h.1)
  · unfold sendBackSegment
    split
    · exact ⟨rfl, .inl rfl⟩
    · dsimp only
      split <;> exact ⟨rfl, .inl rfl⟩
  · refine ⟨(resetConnection_frame s).localNext, .inr ?_⟩
    rw [resetConnection_eq, switchState_mLocalSeq]
    rfl
  · unfold resumeIfRoom
    split <;> exact ⟨rfl, .inl rfl⟩

-- A push that is not refused leaves the edge at or below the count.
theorem push_numbers {data : Bytes} (hle : s.mLocalNext ≤ s.mLocalSeq)
    (hroom : s.mLocalSeq.toNat + data.length < 2 ^ 32) :
    ∃ t, pushInBackQueue ACK data s = (true, t) ∧ t.mLocalNext ≤ t.mLocalSeq ∧
      t.mLocalSeq.toNat ≤ s.mLocalSeq.toNat + data.length := by
  have hle' := BitVec.le_def.mp hle
  have hlen : (s.newSegment ACK data).seqLen.toNat = data.length := by
    rw [newSegment_seqLen, if_neg (by decide), BitVec.toNat_ofNat]
    omega
  have hseq : (s.enqueueBack ACK data).popAcked.mLocalSeq.toNat = s.mLocalSeq.toNat + data.length := by
    rw [popAcked_mLocalSeq, enqueueBack_mLocalSeq, BitVec.toNat_add, hlen]
    omega
  have hnext : (s.enqueueBack ACK data).popAcked.mLocalNext = s.mLocalNext :=
    (popAcked_frame _).localNext
  obtain ⟨hnext', hseq'⟩ := sendBackData_numbers (s.enqueueBack ACK data).popAcked
  refine ⟨_, pushInBackQueue_of_le hle ACK data, ?_, ?_⟩
  · rw [BitVec.le_def, hnext', hnext]
    rcases hseq' with heq | heq <;> rw [heq]
    · omega
    · rw [hnext]
  · rcases hseq' with heq | heq <;> rw [heq]
    · omega
    · rw [hnext]
      omega

theorem relayLoop_eq {fuel : Nat} {data : Bytes} (hfuel : data.length ≤ fuel)
    (hrelays : s.Relays data) : (relayLoop fuel data s).1 = data.length := by
  have hpayload : TCP_IP_PAYLOAD_SIZE = 61440 := rfl
  induction fuel generalizing data s with
  | zero =>
    have hempty : data.length = 0 := by omega
    exact hempty.symm
  | succ fuel ih =>
    rw [relayLoop]
    rcases hrelays with hdata | ⟨hle, hroom⟩
    · rw [if_pos hdata, hdata]
      rfl
    · split
      next hdata =>
        rw [hdata]
        rfl
      next hdata =>
        have hpos := List.length_pos_iff.mpr hdata
        have htake := List.length_take (i := TCP_IP_PAYLOAD_SIZE) (l := data)
        have hdrop := List.length_drop (i := TCP_IP_PAYLOAD_SIZE) (l := data)
        rw [pushInBackQueue_of_le hle]
        dsimp only
        by_cases hlast : data.drop TCP_IP_PAYLOAD_SIZE = []
        · have hshort := List.drop_eq_nil_iff.mp hlast
          have hend := ih (s := (s.enqueueBack ACK (data.take TCP_IP_PAYLOAD_SIZE)).popAcked.sendBackData)
            (by rw [hlast]; exact Nat.zero_le _) (.inl hlast)
          rw [hend]
          omega
        · have hrest := List.length_pos_iff.mpr hlast
          rw [hpayload] at hroom
          have hpart : s.mLocalSeq.toNat + (data.take TCP_IP_PAYLOAD_SIZE).length < 2 ^ 32 := by omega
          obtain ⟨t, hpush, hle', hseq⟩ := push_numbers hle hpart
          rw [pushInBackQueue_of_le hle, Prod.mk.injEq] at hpush
          have hroom' : t.mLocalSeq.toNat +
              ((data.drop TCP_IP_PAYLOAD_SIZE).length - 1) / 61440 * 61440 < 2 ^ 32 := by omega
          have hrelays' : t.Relays (data.drop TCP_IP_PAYLOAD_SIZE) := .inr ⟨hle', hroom'⟩
          rw [hpush.2, ih (by omega) hrelays']
          omega

omit [ITunnel τ] in
theorem countRecv_mTotalRecv (i : Nat) (s : TCPSession τ) :
    (s.countRecv i).mTotalRecv = s.mTotalRecv + BitVec.ofNat 32 i := by
  unfold countRecv
  split
  · rfl
  next hzero =>
    have hnone : i = 0 := by omega
    rw [hnone]
    exact (BitVec.add_zero _).symm

theorem onTunnelDataBack_mTotalRecv {data : Bytes} (hdata : data ≠ []) (s : TCPSession τ) :
    (s.onTunnelDataBack data).mTotalRecv =
      s.mTotalRecv + BitVec.ofNat 32 (relayLoop data.length data s).1 := by
  have hpause (s : TCPSession τ) : s.pauseIfFull.mTotalRecv = s.mTotalRecv := by
    unfold pauseIfFull
    split <;> rfl
  rw [onTunnelDataBack, if_neg hdata]
  show (pauseIfFull _).mTotalRecv = _
  have hsame := congrArg Ledger.recv (ledger_relayLoop data.length data s)
  rw [hpause, countRecv_mTotalRecv]
  exact congrArg (· + _) hsame

-- A step adds what it receives, unless a push is refused.
theorem step_received {e : Event τ}
    (hrelays : ∀ data, e = .tunnelDataBack data → s.Relays data)
    (hstep : s.step e = some t) : t.mTotalRecv = s.mTotalRecv + BitVec.ofNat 32 e.received := by
  have hsame : BackRelation fun s t : TCPSession τ => t.mTotalRecv = s.mTotalRecv :=
    ledger_back.weaken (fun _ => rfl) (fun h h' => h'.trans h) fun h => congrArg Ledger.recv h
  have hquiet : RunRelation fun s t : TCPSession τ => t.mTotalRecv = s.mTotalRecv :=
    { hsame with
      count := fun ip s => congrArg Ledger.recv (ledger_countAccepted ip s)
      environment := fun _ _ _ _ _ _ _ _ => rfl
      written := fun _ _ _ => rfl
      options := fun _ _ _ _ => rfl
      bases := fun _ _ => rfl }
  have hsent (n : Nat) (s : TCPSession τ) : (s.countSent n).mTotalRecv = s.mTotalRecv := by
    unfold countSent
    split <;> rfl
  by_cases hdata : ∃ data, e = .tunnelDataBack data ∧ data ≠ []
  · obtain ⟨data, rfl, hne⟩ := hdata
    cases hstep
    rw [onTunnelDataBack_mTotalRecv hne, relayLoop_eq (Nat.le_refl _) (hrelays data rfl)]
    rfl
  · have hnone : e.received = 0 := by
      cases e with
      | tunnelDataBack data =>
        by_contra hpos
        exact hdata ⟨data, rfl, fun hempty => hpos (congrArg List.length hempty)⟩
      | _ => rfl
    rw [hnone]
    refine Eq.trans ?_ (BitVec.add_zero s.mTotalRecv).symm
    refine hquiet.step (fun data he hne => absurd ⟨data, he, hne⟩ hdata) ?_ hstep
    intro _
    exact hsame.onTunnelWritable (fun _ => rfl) hsent (fun _ _ => rfl) s

end TCPSession

end NetCore
