import NetCore.TCPSession.StepInvariant

/-!
# The first packet

A session is made for a SYN and accepts it at once: `Born` sessions are what every run starts from.
-/

namespace NetCore

-- What a session can have done when its SYN is accepted.
def TracePoint.early : TracePoint → Bool
  | .writePackage _ | .dispatched _ _ | .captured _ => true
  | .pushed d => d.mSeq = 0 && d.mLength = 0
  | .switched .listen .synRcved => true
  | _ => false

theorem TracePoint.early_of_sending {p : TracePoint} (h : p.sending) : p.early := by
  cases p <;> first | rfl | cases h

namespace TCPSession

variable {τ : Type}

structure Fresh (s : TCPSession τ) : Prop where
  state : s.mState = .listen
  forwardQueue : s.mForwardQueue = []
  backQueue : s.mBackQueue = []
  remoteFinished : s.mRemoteFinished = false
  trace : s.trace = []

theorem init_fresh (srcPort destPort : U16) (srcAddr destAddr ctrl : U32) (tunnel : τ) (now : Nat)
    (rand : U32) : (init srcPort destPort srcAddr destAddr ctrl tunnel now rand).Fresh :=
  ⟨rfl, rfl, rfl, rfl, rfl⟩

structure Newborn (s : TCPSession τ) : Prop where
  state : s.mState = .synRcved
  localSeq : s.mLocalSeq = 1
  localNext : s.mLocalNext = 0
  remoteNext : s.mRemoteNext = 1
  forwardQueue : s.mForwardQueue = []
  remoteFinished : s.mRemoteFinished = false
  backQueue : ∃ d, s.mBackQueue = [d] ∧ d.Sound ∧ d.mSeq = 0 ∧ d.mLength = 0 ∧ d.mFlag = SYN ||| ACK
  trace : ∀ p ∈ s.trace, p.early

variable [ITunnel τ]

/-- The session a SYN has brought to life. -/
def Born (s : TCPSession τ) : Prop :=
  ∃ (s₀ : TCPSession τ) (ip : Packet), s₀.Fresh ∧ NetCore.hasFlag ip.flag SYN ∧
    s₀.accept ip = some s

-- Whatever the options say, the SYN|ACK is numbered 0 and stays in the queue.
theorem handshake_newborn (ip : Packet) {s : TCPSession τ} (hstate : s.mState = .listen)
    (hforward : s.mForwardQueue = []) (hback : s.mBackQueue = [])
    (hfinished : s.mRemoteFinished = false) (htrace : ∀ p ∈ s.trace, p.early) :
    (handshake ip s).Newborn := by
  have hle : (s.synNumbered ip).mLocalNext ≤ (s.synNumbered ip).mLocalSeq :=
    BitVec.le_refl (0 : U32)
  obtain ⟨hqueue, hpush⟩ := push_into_empty (s := s.synNumbered ip) hback hle (SYN ||| ACK) []
  have hseg := newSegment_sound (SYN ||| ACK) (s.synNumbered ip)
    (show ([] : Bytes).length ≤ TCP_IP_PAYLOAD_SIZE from Nat.zero_le _)
  have hsound : ((s.synNumbered ip).enqueueBack (SYN ||| ACK) []).BackSound := by
    unfold BackSound
    rw [hqueue]
    exact List.forall_mem_singleton.mpr hseg
  have horder : ¬ ((s.synNumbered ip).enqueueBack (SYN ||| ACK) []).mLocalNext <
      ((s.synNumbered ip).newSegment (SYN ||| ACK) []).mSeq := by
    rw [enqueueBack_mLocalNext, newSegment_mSeq]
    exact BitVec.lt_irrefl (0 : U32)
  obtain ⟨d, hqueue', hd, hstate', hseq', points, htrace', hpoints⟩ :=
    sendBackData_orderly hsound hqueue horder
  have hframe := (enqueueBack_frame (SYN ||| ACK) [] (s.synNumbered ip)).trans (sendBackData_frame _)
  rw [enqueueBack_mState] at hstate'
  have hframe' := hframe.trans (switchState_frame .synRcved _)
  unfold handshake
  rw [hpush]
  simp only
  refine ⟨switchState_mState _ _, ?_, hframe'.localNext, hframe'.remoteNext, ?_, ?_, ?_, ?_⟩
  · rw [switchState_mLocalSeq, hseq', enqueueBack_mLocalSeq, newSegment_seqLen, if_pos (by decide)]
    rfl
  · rw [hframe'.forwardQueue]
    exact hforward
  · rw [hframe'.remoteFinished]
    exact hfinished
  · refine ⟨d, by rw [switchState_backQueue, hqueue'], ?_⟩
    rcases hd with rfl | rfl
    · exact ⟨hseg, rfl, rfl, rfl⟩
    · exact ⟨handedOver_sound hseg, rfl, rfl, rfl⟩
  · have hmoves : ((s.synNumbered ip).enqueueBack (SYN ||| ACK) []).sendBackData.mState ≠
        .synRcved := by
      rw [hstate', show (s.synNumbered ip).mState = .listen from hstate]
      decide
    obtain ⟨info, htrace''⟩ := switchState_trace hmoves
    rw [htrace'', htrace', enqueueBack_trace, hstate',
      show (s.synNumbered ip).mState = .listen from hstate]
    intro p hp
    simp only [List.append_assoc, List.mem_append, List.mem_cons, List.not_mem_nil, or_false] at hp
    rcases hp with hp | rfl | hp | rfl | rfl
    · exact htrace p hp
    · rfl
    · exact TracePoint.early_of_sending (hpoints p hp)
    · rfl
    · rfl

omit [ITunnel τ] in
theorem countAccepted_early (ip : Packet) {s : TCPSession τ} (h : ∀ p ∈ s.trace, p.early) :
    ∀ p ∈ (s.countAccepted ip).trace, p.early := by
  unfold countAccepted emit
  simp only
  split <;>
    simp only [List.mem_append, List.mem_singleton] <;>
    rintro p hp
  · rcases hp with (hp | rfl) | rfl
    · exact h p hp
    · rfl
    · rfl
  · rcases hp with hp | rfl
    · exact h p hp
    · rfl

-- The SYN of a fresh session is what `handshake` answers, once it is counted and its options are
-- read.
theorem Fresh.accept_eq {s₀ s : TCPSession τ} {ip : Packet} (hfresh : s₀.Fresh)
    (hsyn : NetCore.hasFlag ip.flag SYN) (haccept : s₀.accept ip = some s) :
    ∃ t, s = noteTime (handshake ip t) ∧ t.mState = .listen ∧ t.mForwardQueue = [] ∧
      t.mBackQueue = [] ∧ t.mRemoteFinished = false ∧ t.trace = (s₀.countAccepted ip).trace := by
  have hinert := countAccepted_inert ip s₀
  have hframe := countAccepted_frame ip s₀
  have hlisten : (s₀.countAccepted ip).mState = .listen := hinert.state.trans hfresh.state
  unfold accept dispatchFlags at haccept
  rw [if_pos hsyn, onReceiveSYN, if_neg (fun h => h hlisten)] at haccept
  obtain ⟨t, ht, rfl⟩ := Option.map_eq_some_iff.mp haccept
  split at ht
  · cases ht
  · cases ht
  · cases ht
  · cases ht
    exact ⟨_, rfl, hlisten, hframe.forwardQueue.trans hfresh.forwardQueue,
      hinert.backQueue.trans hfresh.backQueue, hframe.remoteFinished.trans hfresh.remoteFinished,
      rfl⟩

omit [ITunnel τ] in
theorem Newborn.noteTime {s : TCPSession τ} (h : s.Newborn) : s.noteTime.Newborn :=
  ⟨h.state, h.localSeq, h.localNext, h.remoteNext, h.forwardQueue, h.remoteFinished, h.backQueue,
    h.trace⟩

theorem Born.newborn {s : TCPSession τ} (h : s.Born) : s.Newborn := by
  obtain ⟨s₀, ip, hfresh, hsyn, haccept⟩ := h
  have hearly := countAccepted_early ip (s := s₀) (by rw [hfresh.trace]; simp)
  obtain ⟨t, rfl, hlisten, hforward, hback, hfinished, htrace⟩ := hfresh.accept_eq hsyn haccept
  exact (handshake_newborn ip hlisten hforward hback hfinished (htrace ▸ hearly)).noteTime

omit [ITunnel τ] in
theorem Newborn.opened {s : TCPSession τ} (h : s.Newborn) : s.Opened := by
  obtain ⟨d, hqueue, hd, -⟩ := h.backQueue
  constructor
  · unfold BackSound
    rw [hqueue]
    exact List.forall_mem_singleton.mpr hd
  · rw [h.state]
    decide

/-! ## A session to try things on -/

def sampleTunnel : TCPTunnel where
  mAlive := true
  mConnected := true
  mLastTime := 0
  mSocket := 5
  hasReactor := true
  reactor :=
    { mEpollFD := 3
      mFd2Events := AList.insert 5
        { events := evREAD ||| evERROR, epollEvents := epollIN, fd := 5, listener := some 1,
          tag := 0 } ∅
      mDelEventStubs := []
      interest := AList.insert 5 epollIN ∅
      refuses := fun _ _ => false }
  handler := 1
  now := 0
  sends := fun _ => .accepted 65536
  sockBufferSize := 65536

-- A packet without options and with a wide window.
def samplePacket (seq ack_seq : U32) (flag : U8) (payload : Bytes) (h : payload.length ≤ 60000) :
    Packet where
  seq := seq
  ack_seq := ack_seq
  flag := flag
  window := 0xFFFF
  checksum := 0
  options := []
  payload := payload
  behind := []
  fits := by
    rw [List.length_nil]
    omega

theorem nothing_fits : ([] : Bytes).length ≤ 60000 := Nat.zero_le _

theorem one_fits {b : U8} : [b].length ≤ 60000 := Nat.le_of_ble_eq_true rfl

def sampleByte (seq : U32) (b : U8) : Packet := samplePacket seq 1001 ACK [b] one_fits

def sampleInit (tunnel : TCPTunnel) (rand : U32) : TCPSession TCPTunnel :=
  init 40000 80 0x0A000002 0x5DB8D822 0 tunnel 0 rand

-- The SYN of the samples; sequence numbers start behind 100.
def sampleSYN : Packet := samplePacket 100 0 SYN [] (by decide)

-- A session that has accepted its SYN and numbers from 1000 on.
def sampleBorn (tunnel : TCPTunnel) : TCPSession TCPTunnel :=
  ((sampleInit tunnel 1000).accept sampleSYN).getD (sampleInit tunnel 1000)

theorem sampleBorn_born {tunnel : TCPTunnel}
    (h : ((sampleInit tunnel 1000).accept sampleSYN).isSome) : (sampleBorn tunnel).Born := by
  obtain ⟨s, hs⟩ := Option.isSome_iff_exists.mp h
  refine ⟨sampleInit tunnel 1000, sampleSYN, init_fresh _ _ _ _ _ _ _ _, by decide, ?_⟩
  rw [sampleBorn, hs, Option.getD_some]

end TCPSession

end NetCore
