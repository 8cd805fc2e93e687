import NetCore.Lib.Run
import NetCore.TCPSession.Birth

/-!
# The send sequence

`mLocalNext`, the left edge, is set from packets, `mLocalSeq` counts what has been numbered.  The
edge stays at or below the count as long as no packet acknowledges what has not been numbered and
the count does not run across 2^32; then no push is refused.
-/

namespace NetCore
namespace TCPSession

variable {τ : Type}

-- The left edge is not ahead, and there is room for `b` more numbers below 2^32.
structure InSequence (b : Nat) (s : TCPSession τ) : Prop where
  next_le : s.mLocalNext ≤ s.mLocalSeq
  room : s.mLocalSeq.toNat + b < 2 ^ 32
  accepted : ∀ flag, .refused flag ∉ s.trace

def AcksNumbered (s : TCPSession τ) : Event τ → Prop
  | .accept ip => ip.UsesAck → s.mLocalNext ≤ s.relativeAck ip → s.relativeAck ip ≤ s.mLocalSeq
  | _ => True

instance (s : TCPSession τ) : ∀ e, Decidable (s.AcksNumbered e)
  | .accept _ => inferInstanceAs (Decidable (_ → _))
  | .tunnelConnected | .tunnelDisconnected _ | .tunnelWritable | .tunnelDataBack _ | .written _ _
  | .environment _ _ _ => inferInstanceAs (Decidable True)

def NumbersFit (s : TCPSession τ) (e : Event τ) : Prop :=
  s.mLocalSeq.toNat + s.demand e < 2 ^ 32

instance (s : TCPSession τ) (e : Event τ) : Decidable (s.NumbersFit e) :=
  inferInstanceAs (Decidable (_ < _))

variable [ITunnel τ]

theorem toNat_seqLen_le (flag : U8) (data : Bytes) (s : TCPSession τ) :
    (s.newSegment flag data).seqLen.toNat ≤ numbered flag data := by
  rw [newSegment_seqLen, numbered]
  split
  · decide
  · rw [BitVec.toNat_ofNat]
    exact Nat.mod_le _ _

omit [ITunnel τ] in
theorem InSequence.of_records {b : Nat} {s s' : TCPSession τ} {kind : TracePoint → Bool}
    (h : InSequence b s) (hseq : s'.mLocalSeq = s.mLocalSeq) (hnext : s'.mLocalNext = s.mLocalNext)
    (htrace : Records kind s s') (hkind : ∀ flag, kind (.refused flag) = false) :
    InSequence b s' where
  next_le := by
    rw [hnext, hseq]
    exact h.next_le
  room := by
    rw [hseq]
    exact h.room
  accepted flag := by
    rw [htrace.mem_iff (hkind flag)]
    exact h.accepted flag

-- A reset brings the count back to the left edge.
theorem inSequence_reset {b : Nat} {s : TCPSession τ} (h : InSequence b s) :
    InSequence b s.resetConnection := by
  have hnext := (resetConnection_frame s).localNext
  have hseq : s.resetConnection.mLocalSeq = s.mLocalNext := by
    rw [resetConnection_eq, switchState_mLocalSeq]
    rfl
  have hle := BitVec.le_def.mp h.next_le
  have hroom := h.room
  refine ⟨?_, ?_, ?_⟩
  · rw [hnext, hseq]
    exact BitVec.le_refl _
  · rw [hseq]
    omega
  · intro flag
    rw [(resetConnection_records s).mem_iff rfl]
    exact h.accepted flag

theorem inSequence_number {b : Nat} {s : TCPSession τ} {flag : U8} {data : Bytes}
    (h : InSequence b s) (hb : numbered flag data ≤ b) :
    InSequence (b - numbered flag data) (s.enqueueBack flag data) := by
  have hle := BitVec.le_def.mp h.next_le
  have hroom := h.room
  have hlen := toNat_seqLen_le flag data s
  have hseq : (s.enqueueBack flag data).mLocalSeq.toNat =
      s.mLocalSeq.toNat + (s.newSegment flag data).seqLen.toNat := by
    rw [enqueueBack_mLocalSeq, BitVec.toNat_add, Nat.mod_eq_of_lt (by omega)]
  refine ⟨?_, ?_, ?_⟩
  · rw [BitVec.le_def, enqueueBack_mLocalNext, hseq]
    omega
  · rw [hseq]
    omega
  · intro flag' hmem
    rw [enqueueBack_trace, List.mem_append, List.mem_singleton] at hmem
    rcases hmem with hmem | hmem
    · exact h.accepted flag' hmem
    · cases hmem

theorem inSequence_invariant : StepInvariant (InSequence (τ := τ)) where
  mono h hle := ⟨h.next_le, by have := h.room; omega, h.accepted⟩
  inert h hinert := h.of_records hinert.localSeq hinert.localNext hinert.trace fun _ => rfl
  finished h := ⟨h.next_le, h.room, h.accepted⟩
  pop {_ s} h :=
    h.of_records (popAcked_mLocalSeq s) (popAcked_frame s).localNext (popAcked_records s) fun _ => rfl
  sent {_ s d rest} h _ _ _ := h.of_records rfl rfl (sentFront_records d rest s) fun _ => rfl
  reset h := inSequence_reset h
  switch {_ s} state h :=
    h.of_records (switchState_mLocalSeq state s) (switchState_frame state s).localNext
      (switchState_records state s) fun _ => rfl
  number h _ hb _ := inSequence_number h hb
  refuse {_ s} _ h hlt := by
    have hle := h.next_le
    exact absurd hlt (by bv_omega)
  written _ _ h := ⟨h.next_le, h.room, h.accepted⟩

/-- What a step needs from its event to keep the sequence in order. -/
def KeepsSequence (s : TCPSession τ) (e : Event τ) : Prop := s.AcksNumbered e ∧ s.NumbersFit e

instance (s : TCPSession τ) (e : Event τ) : Decidable (s.KeepsSequence e) :=
  inferInstanceAs (Decidable (_ ∧ _))

-- Between steps a session is open and in sequence, with no room asked for.
def SequenceKept (s : TCPSession τ) : Prop :=
  s.Opened ∧ s.mLocalNext ≤ s.mLocalSeq ∧ ∀ flag, .refused flag ∉ s.trace

theorem step_sequenceKept {s s' : TCPSession τ} {e : Event τ} (h : s.SequenceKept)
    (hkeeps : s.KeepsSequence e) (hstep : step s e = some s') : s'.SequenceKept := by
  obtain ⟨hopened, hle, haccepted⟩ := h
  obtain ⟨hacks, hfit⟩ := hkeeps
  have hsteady : Steady InSequence (s.demand e) s := ⟨hopened.1, hopened.2, hle, hfit, haccepted⟩
  have hedge : ∀ ip, e = .accept ip → Steady.EdgeKept InSequence (s.demand e) ip s := by
    rintro ip rfl hused hnew
    exact ⟨hacks hused hnew, hfit, haccepted⟩
  have hafter := inSequence_invariant.step hsteady (Nat.le_refl _) hedge hstep
  exact ⟨⟨hafter.sound, hafter.opened⟩, hafter.holds.next_le, hafter.holds.accepted⟩

omit [ITunnel τ] in
theorem Newborn.sequenceKept {s : TCPSession τ} (h : s.Newborn) : s.SequenceKept := by
  refine ⟨h.opened, ?_, ?_⟩
  · rw [h.localNext, h.localSeq]
    decide
  · intro flag hmem
    exact absurd (h.trace _ hmem) Bool.false_ne_true

/-- In a run whose packets acknowledge only what has been numbered, and whose numbers stay below
    2^32, the left edge never passes the count and no push is refused. -/
theorem localNext_le_localSeq {s s' : TCPSession τ} {es : List (Event τ)} (hborn : s.Born)
    (hkeeps : Lib.Along step KeepsSequence s es) (hrun : Lib.run step s es = some s') :
    s'.mLocalNext ≤ s'.mLocalSeq ∧ ∀ flag, .refused flag ∉ s'.trace := by
  have hkept := Lib.Along.invariant SequenceKept (fun _ _ _ => step_sequenceKept)
    hborn.newborn.sequenceKept hkeeps hrun
  exact hkept.2

theorem localNext_le_localSeq_sample :
    ∃ s' : TCPSession TCPTunnel,
      Lib.run step (sampleBorn sampleTunnel)
        [.accept (samplePacket 101 1001 ACK [] (by decide)), .tunnelDataBack [1, 2, 3],
          .accept (samplePacket 101 1004 ACK [] (by decide))] = some s' ∧
      s'.mLocalNext ≤ s'.mLocalSeq ∧ ∀ flag, .refused flag ∉ s'.trace := by
  have hreach : ∃ s' : TCPSession TCPTunnel,
      Lib.run step (sampleBorn sampleTunnel)
        [.accept (samplePacket 101 1001 ACK [] (by decide)), .tunnelDataBack [1, 2, 3],
          .accept (samplePacket 101 1004 ACK [] (by decide))] = some s' ∧ True :=
    Lib.run_reaches (by decide)
  obtain ⟨s', hrun, -⟩ := hreach
  exact ⟨s', hrun, localNext_le_localSeq (sampleBorn_born (by decide)) (by decide) hrun⟩

/-- An acknowledgement of numbers never used is taken, and the data behind it is refused. -/
theorem localNext_passes_localSeq :
    (sampleBorn sampleTunnel).Born ∧
      ∃ s' : TCPSession TCPTunnel,
        Lib.run step (sampleBorn sampleTunnel)
          [.accept (samplePacket 101 2000 ACK [] (by decide)), .tunnelDataBack [1, 2, 3]] = some s' ∧
        s'.mState = .established ∧ s'.mLocalSeq < s'.mLocalNext ∧ .refused ACK ∈ s'.trace :=
  ⟨sampleBorn_born (by decide), Lib.run_reaches (by decide)⟩

end TCPSession

end NetCore
