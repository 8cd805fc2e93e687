import NetCore.TCPSession.Birth
import NetCore.TCPSession.Traffic
import NetCore.UDPSession.Traffic
import NetCore.UDPSession.Wakeup

/-!
# Reported traffic

What the events of a session tell of the remote's traffic, what there was of it, and the totals of the
session.  A TCP session tells less than it has received when its queue refuses the data, a UDP session
more than its tunnel has given it.
-/

namespace NetCore

inductive Conversation (τ : Type) where
  | tcp (s : TCPSession τ)
  | udp (w : UDPLink τ)

namespace Conversation

variable {τ : Type}

inductive Event (τ : Type) where
  | tcp (e : TCPSession.Event τ)
  | udp (e : UDPLink.Event τ)

def told (id : EventID) : Conversation τ → Nat
  | tcp s => s.told id
  | udp w => w.session.told id

def mTotalRecv : Conversation τ → U32
  | tcp s => s.mTotalRecv
  | udp w => w.session.mTotalRecv

def mTotalSent : Conversation τ → U32
  | tcp s => s.mTotalSent
  | udp w => w.session.mTotalSent

def Event.received : Event τ → Nat
  | .tcp e => e.received
  | .udp e => e.received

structure Idle (c : Conversation τ) : Prop where
  recv : c.mTotalRecv = 0
  sent : c.mTotalSent = 0
  toldRecv : c.told .connTrafficRecv = 0
  toldSent : c.told .connTrafficSent = 0

structure Reports (es : List (Event τ)) (c : Conversation τ) : Prop where
  recv : BitVec.ofNat 32 (c.told .connTrafficRecv) = BitVec.ofNat 32 (es.map Event.received).sum
  totalRecv : BitVec.ofNat 32 (c.told .connTrafficRecv) = c.mTotalRecv
  totalSent : BitVec.ofNat 32 (c.told .connTrafficSent) = c.mTotalSent

variable [ITunnel τ]

def step : Conversation τ → Event τ → Option (Conversation τ)
  | tcp s, .tcp e => (s.step e).map tcp
  | udp w, .udp e => (w.step e).map udp
  | _, _ => none

/-- The steps whose events tell what they should: no data of a tunnel reaches a UDP session, and none
    is refused by the queue of a TCP session. -/
def Tells : Conversation τ → Event τ → Prop
  | tcp s, .tcp (.tunnelDataBack data) => s.Relays data
  | udp _, .udp (.tunnelDataBack data) => data = []
  | _, _ => True

variable {c c' : Conversation τ} {e : Event τ} {es : List (Event τ)}

omit [ITunnel τ] in
theorem Idle.reports (h : c.Idle) : Reports [] c where
  recv := by
    rw [h.toldRecv]
    rfl
  totalRecv := by
    rw [h.toldRecv, h.recv]
    rfl
  totalSent := by
    rw [h.toldSent, h.sent]
    rfl

-- What a step makes of both sums, and of the total it adds to.
theorem step_reports (hstep : c.step e = some c') (htells : c.Tells e) (h : Reports es c) :
    Reports (es ++ [e]) c' := by
  have hsum : BitVec.ofNat 32 ((es ++ [e]).map Event.received).sum =
      c.mTotalRecv + BitVec.ofNat 32 e.received := by
    rw [List.map_append, List.sum_append, BitVec.ofNat_add, ← h.recv, h.totalRecv]
    simp
  have hnext (hrecv : BitVec.ofNat 32 (c'.told .connTrafficRecv) = c'.mTotalRecv)
      (hsent : BitVec.ofNat 32 (c'.told .connTrafficSent) = c'.mTotalSent)
      (hadd : c'.mTotalRecv = c.mTotalRecv + BitVec.ofNat 32 e.received) :
      Reports (es ++ [e]) c' := by
    refine ⟨?_, hrecv, hsent⟩
    rw [hrecv, hsum, hadd]
  cases c with
  | tcp s =>
    cases e with
    | udp e => cases hstep
    | tcp e =>
      obtain ⟨t, ht, rfl⟩ := Option.map_eq_some_iff.mp hstep
      have htold := TCPSession.step_told ht ⟨h.totalRecv, h.totalSent⟩
      have hrelays : ∀ data, e = .tunnelDataBack data → s.Relays data := by
        rintro data rfl
        exact htells
      exact hnext htold.recv htold.sent (TCPSession.step_received hrelays ht)
  | udp w =>
    cases e with
    | tcp e => cases hstep
    | udp e =>
      obtain ⟨w', hw', rfl⟩ := Option.map_eq_some_iff.mp hstep
      have hquiet : ∀ data, e = .tunnelDataBack data → data = [] := by
        rintro data rfl
        exact htells
      have htold := UDPLink.step_told hw' ⟨h.totalRecv, h.totalSent⟩ hquiet
      exact hnext htold.recv htold.sent (UDPLink.step_received hw')

/-- In every run whose steps tell what they should, the reported traffic is the real one. -/
theorem run_reports (hidle : c.Idle) (htells : Lib.Along step Tells c es)
    (hrun : Lib.run step c es = some c') : Reports es c' :=
  Lib.Along.history Reports (fun _ _ _ _ h hcond hstep => step_reports hstep hcond h) []
    hidle.reports htells hrun

def sampleLink : UDPLink TCPTunnel :=
  ⟨{ UDPFlow.sampleSession with mAlive := true }, some TCPSession.sampleTunnel⟩

def sampleListening : Conversation TCPTunnel :=
  tcp (TCPSession.sampleInit TCPSession.sampleTunnel 1000)

-- The handshake, and a byte from the tunnel behind an acknowledgement.
def sampleAnswer (ack : U32) : List (Event TCPTunnel) :=
  [.tcp (.accept TCPSession.sampleSYN),
    .tcp (.accept (TCPSession.samplePacket 101 ack ACK [] TCPSession.nothing_fits)),
    .tcp (.tunnelDataBack [0x61])]

theorem run_reports_sample : ∃ c', Lib.run step sampleListening (sampleAnswer 1001) = some c' ∧
    c'.mTotalRecv = 1 ∧ Reports (sampleAnswer 1001) c' := by
  have hreach : ∃ c', Lib.run step sampleListening (sampleAnswer 1001) = some c' ∧
      c'.mTotalRecv = 1 := Lib.run_reaches (by decide)
  obtain ⟨c', hrun, hrecv⟩ := hreach
  refine ⟨c', hrun, hrecv, run_reports ⟨rfl, rfl, rfl, rfl⟩ ?_ hrun⟩
  refine ⟨trivial, trivial, ?_, ?_⟩
  · exact .inr ⟨by decide, by decide⟩
  · exact trivial

/-- A byte for a UDP session is told twice; one for a TCP session that the application has
    acknowledged too much of is not told at all. -/
theorem answer_misreported :
    (Idle (udp sampleLink) ∧ ∃ c', Lib.run step (udp sampleLink) [.udp (.tunnelDataBack [0x61])] =
        some c' ∧ c'.told .connTrafficRecv = 2 ∧ c'.mTotalRecv = 1) ∧
      Idle sampleListening ∧ ∃ c', Lib.run step sampleListening (sampleAnswer 2000) = some c' ∧
        c'.told .connTrafficRecv = 0 ∧ ((sampleAnswer 2000).map Event.received).sum = 1 := by
  refine ⟨⟨⟨rfl, rfl, rfl, rfl⟩, Lib.run_reaches (by decide)⟩, ⟨rfl, rfl, rfl, rfl⟩,
    Lib.run_reaches (by decide)⟩

end Conversation

end NetCore
