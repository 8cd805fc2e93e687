import NetCore.Lib.Run
import NetCore.Lib.Serial
import NetCore.TCPSession.Birth

/-!
# What a FIN from the application does to `mRemoteNext`

`onReceiveFIN` takes `mRemoteNext` from the packet and leaves the payload where it is.  That is right
for a FIN without payload that is next in sequence, and for the same FIN once more; any other FIN
skips what it carries or what lies before it, or turns the number back.
-/

namespace NetCore
namespace TCPSession

open Lib (Before)

variable {τ : Type}

/-- A byte of the packet waits in `mForwardQueue`, at its place in the sequence. -/
def ByteQueued (ip : Packet) (i : Nat) (s s' : TCPSession τ) : Prop :=
  ∃ d ∈ s'.mForwardQueue, ∃ j < d.mLength,
    d.mSeq + BitVec.ofNat 32 j = s.relativeSeq ip + BitVec.ofNat 32 i ∧
      d.mData[j]? = ip.payload[i]?

/-- From `s` to `s'` a FIN has been acknowledged only together with what precedes it. -/
structure FinInOrder (ip : Packet) (s s' : TCPSession τ) : Prop where
  /-- It starts at `mRemoteNext`: all it carries is queued, and counted with the FIN. -/
  next : s.relativeSeq ip = s.mRemoteNext → (∀ i < ip.payload.length, ByteQueued ip i s s') ∧
    s'.mRemoteNext = s.mRemoteNext + BitVec.ofNat 32 ip.payload.length + 1
  /-- It starts beyond `mRemoteNext`: the gap is not passed over. -/
  gap : Before s.mRemoteNext (s.relativeSeq ip) → ¬ Before (s.relativeSeq ip) s'.mRemoteNext
  /-- The FIN itself lies before `mRemoteNext`: it has been counted already. -/
  again : Before (s.relativeSeq ip + BitVec.ofNat 32 ip.payload.length) s.mRemoteNext →
    s'.mRemoteNext = s.mRemoteNext
  notBack : ¬ Before s'.mRemoteNext s.mRemoteNext
  /-- No byte of the payload is passed over without being queued. -/
  kept : ∀ i < ip.payload.length,
    ¬ Before (s.relativeSeq ip + BitVec.ofNat 32 i) s.mRemoteNext →
    Before (s.relativeSeq ip + BitVec.ofNat 32 i) s'.mRemoteNext → ByteQueued ip i s s'

/-- A FIN the code numbers right.  With SYN set it is not taken for a FIN at all. -/
def FinNext (ip : Packet) (s : TCPSession τ) : Prop :=
  if NetCore.hasFlag ip.flag SYN then s.relativeSeq ip ≠ s.mRemoteNext
  else (s.relativeSeq ip = s.mRemoteNext ∧ ip.payload = []) ∨
    s.relativeSeq ip + 1 = s.mRemoteNext

instance (ip : Packet) (s : TCPSession τ) : Decidable (s.FinNext ip) := by
  unfold FinNext
  infer_instance

theorem ofNat_payload_ne (ip : Packet) (h : ip.payload ≠ []) :
    BitVec.ofNat 32 ip.payload.length ≠ 0 := by
  have hfits := ip.fits
  have hpos := List.length_pos_iff.mpr h
  intro hzero
  have hnat := congrArg BitVec.toNat hzero
  rw [BitVec.toNat_ofNat, Nat.mod_eq_of_lt (by omega)] at hnat
  exact Nat.ne_of_gt hpos hnat

-- What the code does with a FIN alone.
theorem finInOrder_numbered {ip : Packet} {s s' : TCPSession τ}
    (hnext : s'.mRemoteNext = s.relativeSeq ip + 1) :
    FinInOrder ip s s' ↔
      (s.relativeSeq ip = s.mRemoteNext ∧ ip.payload = []) ∨
        s.relativeSeq ip + 1 = s.mRemoteNext := by
  have hpast : Before (s.relativeSeq ip) s'.mRemoteNext := by
    rw [hnext]
    exact Lib.before_self_add_one (by decide) _
  constructor
  · intro h
    by_cases hat : s.relativeSeq ip = s.mRemoteNext
    · -- in order: the payload is not counted
      refine .inl ⟨hat, ?_⟩
      by_contra hpayload
      have hcount := (h.next hat).2
      rw [hnext, hat] at hcount
      exact ofNat_payload_ne ip hpayload (by bv_omega)
    · right
      by_contra hsucc
      by_cases hgap : Before s.mRemoteNext (s.relativeSeq ip)
      · exact h.gap hgap hpast
      · refine h.notBack ?_
        rw [hnext]
        exact Lib.before_add_one hat hsucc hgap
  · rintro (⟨hat, hempty⟩ | hsucc)
    · have hlength : ip.payload.length = 0 := List.length_eq_zero_iff.mpr hempty
      have hzero (i : Nat) : ¬ i < ip.payload.length := by omega
      rw [hat] at hnext hpast
      refine ⟨fun _ => ⟨fun i hi => absurd hi (hzero i), ?_⟩, fun hgap => ?_, fun hagain => ?_,
        hpast.asymm, fun i hi => absurd hi (hzero i)⟩
      · rw [hnext, hlength]
        exact congrArg (· + 1) (BitVec.add_zero s.mRemoteNext).symm
      · exact absurd (hat ▸ hgap) (Lib.not_before_self _)
      · rw [hlength, hat] at hagain
        exact absurd hagain (by
          rw [show s.mRemoteNext + BitVec.ofNat 32 0 = s.mRemoteNext from BitVec.add_zero _]
          exact Lib.not_before_self _)
    · have hsame : s'.mRemoteNext = s.mRemoteNext := hnext.trans hsucc
      have hbefore : Before (s.relativeSeq ip) s.mRemoteNext := hsame ▸ hpast
      refine ⟨fun hat => ?_, fun hgap => absurd hgap hbefore.asymm, fun _ => hsame, ?_, ?_⟩
      · exact absurd hat hbefore.1
      · rw [hsame]
        exact Lib.not_before_self _
      · rw [hsame]
        exact fun i _ hnot hpassed => absurd hpassed hnot

-- What it does when it takes the packet for a SYN.
theorem finInOrder_ignored {ip : Packet} {s s' : TCPSession τ}
    (hnext : s'.mRemoteNext = s.mRemoteNext) :
    FinInOrder ip s s' ↔ s.relativeSeq ip ≠ s.mRemoteNext := by
  constructor
  · intro h hat
    have hfits := ip.fits
    have hcount := (h.next hat).2
    have hnat := congrArg BitVec.toNat (hcount.symm.trans hnext)
    bv_omega
  · intro hne
    refine ⟨fun hat => absurd hat hne, fun hgap => ?_, fun _ => hnext, ?_, ?_⟩
    · rw [hnext]
      exact hgap.asymm
    · rw [hnext]
      exact Lib.not_before_self _
    · rw [hnext]
      exact fun i _ hnot hpassed => absurd hpassed hnot

variable [ITunnel τ]

-- Whatever the state, a FIN sets `mRemoteNext` from its number; with SYN it leaves it.
theorem accept_fin {ip : Packet} {s : TCPSession τ} (hopen : s.mState ≠ .listen)
    (hfin : NetCore.hasFlag ip.flag FIN) :
    ∃ s', accept ip s = some s' ∧ s'.mRemoteNext =
      if NetCore.hasFlag ip.flag SYN then s.mRemoteNext else s.relativeSeq ip + 1 := by
  have hcounted := countAccepted_frame ip s
  have hopen' : (s.countAccepted ip).mState ≠ .listen := by
    rw [(countAccepted_inert ip s).state]
    exact hopen
  unfold accept dispatchFlags
  by_cases hsyn : NetCore.hasFlag ip.flag SYN
  · rw [if_pos hsyn, onReceiveSYN, if_pos hopen']
    refine ⟨_, rfl, ?_⟩
    rw [if_pos hsyn]
    exact (hcounted.trans (flushBackQueue_frame _)).remoteNext
  · rw [if_neg hsyn, if_pos hfin]
    refine ⟨_, rfl, ?_⟩
    rw [if_neg hsyn]
    refine (onReceiveFIN_frame ip (s.countAccepted ip)).remoteNext.trans ?_
    show (s.countAccepted ip).relativeSeq ip + 1 = s.relativeSeq ip + 1
    unfold relativeSeq
    rw [hcounted.remoteSeqBase]

/-- In every reachable state a FIN is acknowledged with what precedes it exactly when it is next and
    carries nothing, or is the last one again. -/
theorem fin_in_order_iff {s₀ s : TCPSession τ} {es : List (Event τ)} {ip : Packet}
    (hborn : s₀.Born) (hrun : Lib.run step s₀ es = some s) (hfin : NetCore.hasFlag ip.flag FIN) :
    ∃ s', step s (.accept ip) = some s' ∧ (FinInOrder ip s s' ↔ s.FinNext ip) := by
  have hopened : s.Opened :=
    Lib.run_invariant Opened (fun _ _ _ h hstep => step_opened h hstep) hborn.newborn.opened hrun
  obtain ⟨s', haccept, hnext⟩ := accept_fin hopened.2 hfin
  refine ⟨s', haccept, ?_⟩
  unfold FinNext
  by_cases hsyn : NetCore.hasFlag ip.flag SYN
  · rw [if_pos hsyn] at hnext ⊢
    exact finInOrder_ignored hnext
  · rw [if_neg hsyn] at hnext ⊢
    exact finInOrder_numbered hnext

theorem fin_in_order_sample :
    ∃ s s' : TCPSession TCPTunnel,
      Lib.run step (sampleBorn sampleTunnel)
        [.accept (samplePacket 101 1001 ACK [0x61] (by decide))] = some s ∧
      step s (.accept (samplePacket 102 1001 (FIN ||| ACK) [] (by decide))) = some s' ∧
      (FinInOrder (samplePacket 102 1001 (FIN ||| ACK) [] (by decide)) s s' ↔
        s.FinNext (samplePacket 102 1001 (FIN ||| ACK) [] (by decide))) := by
  have hreach : ∃ s : TCPSession TCPTunnel,
      Lib.run step (sampleBorn sampleTunnel)
        [.accept (samplePacket 101 1001 ACK [0x61] (by decide))] = some s ∧ s.mRemoteNext = 2 :=
    Lib.run_reaches (by decide)
  obtain ⟨s, hrun, -⟩ := hreach
  have hfin : NetCore.hasFlag (samplePacket 102 1001 (FIN ||| ACK) [] (by decide)).flag FIN := by
    decide
  obtain ⟨s', hstep, hiff⟩ := fin_in_order_iff (sampleBorn_born (by decide)) hrun hfin
  exact ⟨s, s', hrun, hstep, hiff⟩

/-- A byte that comes with the FIN is not queued, and yet the FIN behind it is acknowledged in its
    place. -/
theorem fin_skips_payload :
    (sampleBorn sampleTunnel).Born ∧ ∃ s s' : TCPSession TCPTunnel,
      Lib.run step (sampleBorn sampleTunnel)
        [.accept (samplePacket 101 1001 ACK [] (by decide))] = some s ∧
      step s (.accept (samplePacket 101 1001 (FIN ||| ACK) [0x61] (by decide))) = some s' ∧
      s.mState = .established ∧
      s.relativeSeq (samplePacket 101 1001 (FIN ||| ACK) [0x61] (by decide)) = s.mRemoteNext ∧
      s'.mForwardQueue = [] ∧
      ¬ FinInOrder (samplePacket 101 1001 (FIN ||| ACK) [0x61] (by decide)) s s' := by
  refine ⟨sampleBorn_born (by decide), ?_⟩
  have hreach : ∃ s : TCPSession TCPTunnel,
      Lib.run step (sampleBorn sampleTunnel)
        [.accept (samplePacket 101 1001 ACK [] (by decide))] = some s ∧
      s.mState = .established ∧ s.mRemoteNext = 1 ∧
      s.relativeSeq (samplePacket 101 1001 (FIN ||| ACK) [0x61] (by decide)) = s.mRemoteNext ∧
      ∃ s' ∈ step s (.accept (samplePacket 101 1001 (FIN ||| ACK) [0x61] (by decide))),
        s'.mForwardQueue = [] ∧ s'.mRemoteNext = 2 := Lib.run_reaches (by decide)
  obtain ⟨s, hrun, hstate, hnext, hat, s', hstep, hqueue, hnext'⟩ := hreach
  refine ⟨s, s', hrun, hstep, hstate, hat, hqueue, fun h => ?_⟩
  have hcount := (h.next hat).2
  rw [hnext, hnext'] at hcount
  exact absurd hcount (by decide)

end TCPSession
end NetCore
