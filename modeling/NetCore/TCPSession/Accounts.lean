import Mathlib.Algebra.BigOperators.Group.List.Basic
import Mathlib.Algebra.GroupWithZero.Nat
import NetCore.Lib.Run
import NetCore.TCPSession.Drain
import NetCore.TCPSession.Traffic

/-!
# The byte accounts of a session

`mForwardQueueDataSize` and `mBackQueueDataSize` against their queues, `mTotalBack` with the lengths
queued against `mTotalRecv`.  `Shift` says by how much a call brings each of them out of balance: the
drain loop does so by what the tunnel has taken, the relay loop by what it has pushed, and the count
behind the loop makes up for it.
-/

namespace NetCore
namespace TCPSession

variable {τ : Type} {s t u : TCPSession τ}

/-- `size()` over `mForwardQueue`. -/
def forwardSize (s : TCPSession τ) : Nat := (s.mForwardQueue.map fun d => d.size).sum

/-- `capacity()` over `mBackQueue`. -/
def backCapacity (s : TCPSession τ) : Nat := (s.mBackQueue.map fun d => d.capacity).sum

/-- `mLength` over `mBackQueue`. -/
def backLength (s : TCPSession τ) : Nat := (s.mBackQueue.map fun d => d.mLength).sum

structure Balanced (s : TCPSession τ) : Prop where
  forward : s.mForwardQueueDataSize = BitVec.ofNat 32 s.forwardSize
  back : s.mBackQueueDataSize = BitVec.ofNat 32 s.backCapacity
  total : s.mTotalBack + BitVec.ofNat 32 s.backLength = s.mTotalRecv

-- What a counter is ahead of its queue by.
def forwardAhead (s : TCPSession τ) : U32 := s.mForwardQueueDataSize - BitVec.ofNat 32 s.forwardSize

def backAhead (s : TCPSession τ) : U32 := s.mBackQueueDataSize - BitVec.ofNat 32 s.backCapacity

def totalAhead (s : TCPSession τ) : U32 :=
  s.mTotalBack + BitVec.ofNat 32 s.backLength - s.mTotalRecv

-- Bytes the tunnel has taken and bytes it has given, not yet counted.
structure Shift (sent received : U32) (s t : TCPSession τ) : Prop where
  forward : t.forwardAhead = s.forwardAhead + sent
  back : t.backAhead = s.backAhead
  total : t.totalAhead = s.totalAhead + received

theorem balanced_iff : s.Balanced ↔ s.forwardAhead = 0 ∧ s.backAhead = 0 ∧ s.totalAhead = 0 := by
  unfold forwardAhead backAhead totalAhead
  constructor
  · rintro ⟨hforward, hback, htotal⟩
    rw [hforward, hback, htotal]
    exact ⟨BitVec.sub_self _, BitVec.sub_self _, BitVec.sub_self _⟩
  · rintro ⟨hforward, hback, htotal⟩
    refine ⟨?_, ?_, ?_⟩ <;> bv_omega

namespace Shift

variable {sent received sent' received' : U32}

theorem of_eq (hforward : t.forwardAhead = s.forwardAhead) (hback : t.backAhead = s.backAhead)
    (htotal : t.totalAhead = s.totalAhead) : Shift 0 0 s t :=
  ⟨hforward.trans (BitVec.add_zero _).symm, hback, htotal.trans (BitVec.add_zero _).symm⟩

theorem refl (s : TCPSession τ) : Shift 0 0 s s := .of_eq rfl rfl rfl

theorem add (h : Shift sent received s t) (h' : Shift sent' received' t u) :
    Shift (sent + sent') (received + received') s u where
  forward := by rw [h'.forward, h.forward, BitVec.add_assoc]
  back := h'.back.trans h.back
  total := by rw [h'.total, h.total, BitVec.add_assoc]

theorem even (h : Shift sent received s t) (h' : Shift 0 0 t u) : Shift sent received s u := by
  have hzero (n : U32) : n + 0 = n := BitVec.add_zero n
  have hsum := h.add h'
  rw [hzero, hzero] at hsum
  exact hsum

theorem trans (h : Shift 0 0 s t) (h' : Shift 0 0 t u) : Shift 0 0 s u := h.even h'

-- What has been shifted is shifted back.
theorem undo (h : Shift sent received s t) (h' : Shift (-sent) (-received) t u) : Shift 0 0 s u := by
  have hsum := h.add h'
  rw [BitVec.add_right_neg, BitVec.add_right_neg] at hsum
  exact hsum

theorem keeps (h : Shift 0 0 s t) (hs : s.Balanced) : t.Balanced := by
  obtain ⟨hforward, hback, htotal⟩ := balanced_iff.mp hs
  refine balanced_iff.mpr ⟨?_, h.back.trans hback, ?_⟩
  · rw [h.forward, hforward]
    rfl
  · rw [h.total, htotal]
    rfl

theorem popLoop (queue : List TCPDatagram) (s : TCPSession τ) :
    Shift 0 0 { s with mBackQueue := queue } (popLoop queue s) := by
  induction queue generalizing s with
  | nil => exact .refl _
  | cons d queue ih =>
    rw [TCPSession.popLoop]
    split
    · refine Shift.trans ?_ (ih (popSegment d s))
      refine Shift.of_eq rfl ?_ ?_
      · show s.mBackQueueDataSize - BitVec.ofNat 32 d.capacity -
            BitVec.ofNat 32 (queue.map fun d => d.capacity).sum =
          s.mBackQueueDataSize - BitVec.ofNat 32 ((d :: queue).map fun d => d.capacity).sum
        rw [List.map_cons, List.sum_cons, BitVec.ofNat_add]
        generalize BitVec.ofNat 32 d.capacity = capacity
        bv_omega
      · show s.mTotalBack + BitVec.ofNat 32 d.mLength +
            BitVec.ofNat 32 (queue.map fun d => d.mLength).sum - s.mTotalRecv =
          s.mTotalBack + BitVec.ofNat 32 ((d :: queue).map fun d => d.mLength).sum - s.mTotalRecv
        rw [List.map_cons, List.sum_cons, BitVec.ofNat_add, BitVec.add_assoc]
    · exact .refl _

theorem popAcked (s : TCPSession τ) : Shift 0 0 s s.popAcked := popLoop s.mBackQueue s

-- The router rewinds or consumes a segment: its capacity and its length stay.
theorem written (i n : Nat) (s : TCPSession τ) :
    Shift 0 0 s { s with mBackQueue := s.mBackQueue.modify i (routerWrote n) } := by
  have hkept {f : TCPDatagram → Nat} (hf : ∀ d, f (routerWrote n d) = f d) :
      ((s.mBackQueue.modify i (routerWrote n)).map f) = s.mBackQueue.map f := by
    apply List.ext_getElem?
    intro j
    rw [List.getElem?_map, List.getElem?_modify, List.getElem?_map]
    split
    · cases s.mBackQueue[j]? with
      | none => rfl
      | some d => exact congrArg some (hf d)
    · rw [id_map']
  have hcapacity (d : TCPDatagram) : (routerWrote n d).capacity = d.capacity := by
    unfold routerWrote Segment.consume
    split
    · dsimp only
      split <;> split <;> rfl
    · rfl
  have hlength (d : TCPDatagram) : (routerWrote n d).mLength = d.mLength := by
    unfold routerWrote
    split
    · dsimp only
      split <;> rfl
    · rfl
  refine Shift.of_eq rfl ?_ ?_
  · unfold backAhead backCapacity
    dsimp only
    rw [hkept hcapacity]
  · unfold totalAhead backLength
    dsimp only
    rw [hkept hlength]

variable [ITunnel τ]

theorem switchState (state : TCPState) (s : TCPSession τ) : Shift 0 0 s (s.switchState state) := by
  unfold TCPSession.switchState
  split
  · exact .refl s
  · dsimp only
    split <;> exact .of_eq rfl rfl rfl

theorem rstSent (s : TCPSession τ) : Shift 0 0 s s.rstSent := by
  unfold TCPSession.rstSent
  dsimp only [emit, updateWindowSize]
  exact .of_eq rfl rfl rfl

omit [ITunnel τ] in
-- Handing a segment over changes neither its length nor its capacity.
theorem sendBackSegment_eq (d : TCPDatagram) (s : TCPSession τ) :
    ∃ n d' points, sendBackSegment d s = (n, d', s.emit points) ∧ d'.capacity = d.capacity ∧
      d'.mLength = d.mLength := by
  have hnone : s.emit [] = s := by
    unfold emit
    rw [List.append_nil]
  unfold sendBackSegment
  split
  · exact ⟨_, d, [], by rw [hnone], rfl, rfl⟩
  · dsimp only
    split
    · exact ⟨_, { d with mRetry := d.mRetry + 1 }, [], by rw [hnone], rfl, rfl⟩
    · exact ⟨_, handedOver d, _, rfl, rfl, rfl⟩

omit [ITunnel τ] in
-- A segment of the queue in the place of another of its length and capacity.
theorem handed {d d' : TCPDatagram} (done rest : List TCPDatagram) (points : List TracePoint)
    (s : TCPSession τ) (hcapacity : d'.capacity = d.capacity) (hlength : d'.mLength = d.mLength) :
    Shift 0 0 { s with mBackQueue := done ++ d :: rest }
      { s.emit points with mBackQueue := done ++ d' :: rest } := by
  refine .of_eq rfl ?_ ?_
  · simp [backAhead, backCapacity, emit, hcapacity]
  · simp [totalAhead, backLength, emit, hlength]

theorem sendLoop (limit w : U32) (packet : U8) (done rest : List TCPDatagram) (s : TCPSession τ) :
    Shift 0 0 { s with mBackQueue := done ++ rest } (sendLoop limit w packet done rest s).2 := by
  induction rest generalizing w packet done s with
  | nil =>
    rw [TCPSession.sendLoop, List.append_nil]
    exact .refl _
  | cons d rest ih =>
    have hnext (w : U32) (packet : U8) (d : TCPDatagram) (s : TCPSession τ) :=
      ih w packet (done ++ [d]) s
    simp only [List.append_assoc, List.singleton_append] at hnext
    rw [TCPSession.sendLoop]
    split
    · exact .refl _
    · split
      · dsimp only
        rw [resetConnection_eq]
        exact (rstSent _).trans (switchState .closed _)
      · dsimp only
        split
        · split
          · obtain ⟨n, d', points, heq, hcapacity, hlength⟩ := sendBackSegment_eq d s
            have hhanded := handed done rest points s hcapacity hlength
            rw [heq]
            dsimp only
            split
            · exact hhanded.trans (hnext _ _ _ _)
            · exact hhanded
          · exact hnext _ _ _ _
        · exact .refl _

theorem sendBackData (s : TCPSession τ) : Shift 0 0 s s.sendBackData := by
  have hloop := sendLoop s.sendLimit 0 0 [] s.mBackQueue s
  have hresume (s : TCPSession τ) : Shift 0 0 s s.resumeIfRoom := by
    unfold resumeIfRoom
    split <;> exact .of_eq rfl rfl rfl
  unfold TCPSession.sendBackData
  split
  next hresult =>
    rw [hresult] at hloop
    exact hloop
  next hresult =>
    rw [hresult] at hloop
    exact hloop.trans (hresume _)

-- A push counts its capacity at once, its length only when it is popped.
theorem enqueueBack (flag : U8) (data : Bytes) (s : TCPSession τ) :
    Shift 0 (BitVec.ofNat 32 data.length) s (s.enqueueBack flag data) := by
  refine ⟨(BitVec.add_zero _).symm, ?_, ?_⟩
  · show s.mBackQueueDataSize + BitVec.ofNat 32 (s.newSegment flag data).capacity -
        BitVec.ofNat 32 ((s.mBackQueue ++ [s.newSegment flag data]).map fun d => d.capacity).sum =
      s.mBackQueueDataSize - BitVec.ofNat 32 s.backCapacity
    rw [List.map_append, List.sum_append, List.map_singleton, List.sum_singleton, BitVec.ofNat_add]
    unfold backCapacity
    bv_omega
  · show s.mTotalBack +
        BitVec.ofNat 32 ((s.mBackQueue ++ [s.newSegment flag data]).map fun d => d.mLength).sum -
          s.mTotalRecv =
      s.mTotalBack + BitVec.ofNat 32 s.backLength - s.mTotalRecv + BitVec.ofNat 32 data.length
    rw [List.map_append, List.sum_append, List.map_singleton, List.sum_singleton, BitVec.ofNat_add,
      newSegment_mLength]
    unfold backLength
    bv_omega

theorem uploaded (ip : Packet) (s : TCPSession τ) : Shift 0 0 s (s.uploaded ip) := by
  refine .of_eq ?_ rfl rfl
  have hsum (i : Nat) (hi : i ≤ s.mForwardQueue.length) :
      ((s.mForwardQueue.insertIdx i (s.filledDatagram ip)).map fun d => d.size).sum =
        (s.filledDatagram ip).size + s.forwardSize :=
    ((List.perm_insertIdx _ _ hi).map _).sum_eq.trans List.sum_cons
  show s.mForwardQueueDataSize + BitVec.ofNat 32 (s.filledDatagram ip).size -
      BitVec.ofNat 32 ((s.mForwardQueue.insertIdx _ (s.filledDatagram ip)).map fun d => d.size).sum =
    s.mForwardQueueDataSize - BitVec.ofNat 32 s.forwardSize
  rw [hsum _ (BufferQueue.findNotSmaller_le _ _ _), BitVec.ofNat_add]
  generalize BitVec.ofNat 32 (s.filledDatagram ip).size = size
  bv_omega

theorem backRelation : BackRelation (Shift (τ := τ) 0 0) where
  refl := .refl
  trans := .trans
  pop := popAcked
  send := sendBackData
  number flag s := enqueueBack flag [] s
  refuse _ _ := .of_eq rfl rfl rfl
  switch := switchState
  rst := rstSent
  upload := uploaded
  finish _ := .of_eq rfl rfl rfl

/-! ## The calls that move data -/

-- What the relay loop has pushed is not counted yet.
theorem relayLoop (fuel : Nat) (data : Bytes) (s : TCPSession τ) :
    Shift 0 (BitVec.ofNat 32 (relayLoop fuel data s).1) s (relayLoop fuel data s).2 := by
  induction fuel generalizing data s with
  | zero => exact .refl s
  | succ fuel ih =>
    rw [TCPSession.relayLoop]
    split
    · exact .refl s
    · by_cases hle : s.mLocalNext ≤ s.mLocalSeq
      · rw [pushInBackQueue_of_le hle]
        have hpushed := (enqueueBack ACK (data.take TCP_IP_PAYLOAD_SIZE) s).even
          (backRelation.settle (.refl _))
        dsimp only
        rw [BitVec.ofNat_add]
        exact hpushed.add (ih _ _)
      · rw [pushInBackQueue_refused (by bv_omega)]
        exact .of_eq rfl rfl rfl

omit [ITunnel τ] in
theorem countRecv (i : Nat) (s : TCPSession τ) : Shift 0 (-BitVec.ofNat 32 i) s (s.countRecv i) := by
  unfold TCPSession.countRecv
  split
  · refine ⟨(BitVec.add_zero _).symm, rfl, ?_⟩
    show s.mTotalBack + BitVec.ofNat 32 s.backLength - (s.mTotalRecv + BitVec.ofNat 32 i) =
      s.mTotalBack + BitVec.ofNat 32 s.backLength - s.mTotalRecv + -BitVec.ofNat 32 i
    generalize BitVec.ofNat 32 i = received
    bv_omega
  next hzero =>
    have hnone : i = 0 := by omega
    rw [hnone]
    exact .refl s

theorem onTunnelDataBack {data : Bytes} (hdata : data ≠ []) (s : TCPSession τ) :
    Shift 0 0 s (s.onTunnelDataBack data) := by
  have hpause (s : TCPSession τ) : Shift 0 0 s s.pauseIfFull := by
    unfold pauseIfFull
    split <;> exact .of_eq rfl rfl rfl
  have hcounted := (relayLoop data.length data s).undo
    (countRecv (TCPSession.relayLoop data.length data s).1 _)
  rw [TCPSession.onTunnelDataBack, if_neg hdata]
  refine (hcounted.trans (hpause _)).trans ?_
  exact .of_eq rfl rfl rfl

omit [ITunnel τ] in
theorem length_bytes (queue : List TCPDatagram) :
    (BufferQueue.bytes queue).length = (queue.map fun d => d.size).sum := by
  induction queue with
  | nil => rfl
  | cons d queue ih =>
    rw [BufferQueue.bytes_cons, List.length_append, Segment.length_readable, ih, List.map_cons,
      List.sum_cons]

-- The tunnel has taken bytes off the queue.
theorem drained (s : TCPSession τ) :
    Shift (BitVec.ofNat 32 (drain s.mForwardQueue s.mTunnel).taken.length) 0 s s.drained := by
  refine ⟨?_, rfl, (BitVec.add_zero _).symm⟩
  have hbytes := congrArg List.length (drain_bytes s.mForwardQueue s.mTunnel)
  rw [List.length_append, length_bytes, length_bytes] at hbytes
  show s.mForwardQueueDataSize -
      BitVec.ofNat 32 ((drain s.mForwardQueue s.mTunnel).queue.map fun d => d.size).sum =
    s.mForwardQueueDataSize - BitVec.ofNat 32 (s.mForwardQueue.map fun d => d.size).sum +
      BitVec.ofNat 32 (drain s.mForwardQueue s.mTunnel).taken.length
  rw [← hbytes, BitVec.ofNat_add]
  generalize BitVec.ofNat 32 (drain s.mForwardQueue s.mTunnel).taken.length = taken
  bv_omega

theorem countSent (n : Nat) (s : TCPSession τ) : Shift (-BitVec.ofNat 32 n) 0 s (s.countSent n) := by
  unfold TCPSession.countSent
  split
  · refine ⟨?_, rfl, (BitVec.add_zero _).symm⟩
    show s.mForwardQueueDataSize - BitVec.ofNat 32 n - BitVec.ofNat 32 s.forwardSize =
      s.mForwardQueueDataSize - BitVec.ofNat 32 s.forwardSize + -BitVec.ofNat 32 n
    generalize BitVec.ofNat 32 n = sent
    bv_omega
  next hzero =>
    have hnone : n = 0 := by omega
    rw [hnone]
    exact .of_eq rfl rfl rfl

theorem onTunnelWritable (s : TCPSession τ) : Shift 0 0 s s.onTunnelWritable := by
  have hdrained := drained s
  unfold TCPSession.onTunnelWritable
  split
  · exact .of_eq rfl rfl rfl
  · dsimp only
    split
    · exact (hdrained.even (backRelation.onTunnelDisconnected _ _)).undo (countSent _ _)
    · exact hdrained.undo (countSent _ _)

theorem runRelation : RunRelation (Shift (τ := τ) 0 0) where
  toBackRelation := backRelation
  count ip s := by
    obtain ⟨_, _, heq⟩ := s.countAccepted_eq ip
    rw [heq]
    exact .of_eq rfl rfl rfl
  environment _ _ _ _ _ _ _ _ := .of_eq rfl rfl rfl
  written s i n := written i n s
  options _ _ _ _ := .of_eq rfl rfl rfl
  bases _ _ := .of_eq rfl rfl rfl

theorem step {e : Event τ} (hstep : s.step e = some t) : Shift 0 0 s t :=
  runRelation.step (fun _ _ hdata => onTunnelDataBack hdata s) (fun _ => onTunnelWritable s) hstep

end Shift

/-! ## What has been queued for the tunnel -/

variable [ITunnel τ]

def ackReturned (ip : Packet) (s : TCPSession τ) : Nat :=
  match s.mState with
  | .synRcved => (enqueueIfNeed ip (s.switchState .established)).1
  | .established =>
      match if s.mSack then scanOptions ip optSACK else .notFound with
      | .spins => 0
      | .found sack => (enqueueIfNeed ip (onSack sack s)).1
      | .notFound => (enqueueIfNeed ip s).1
  | _ => 0

/-- The value `enqueueIfNeed` returns in a step, 0 if it is not called. -/
def returned (s : TCPSession τ) : Event τ → Nat
  | .accept ip =>
      let s := s.countAccepted ip
      if ip.Plain ∧ s.mLocalNext ≤ s.relativeAck ip then ackReturned ip (s.acknowledged ip) else 0
  | _ => 0

/-- The bytes that have been handed to the tunnel and those still queued for it. -/
def entered (s : TCPSession τ) : U32 := s.mTotalSent + s.mForwardQueueDataSize

omit [ITunnel τ] in
theorem entered_of_frame (hframe : BackFrame s t) (hsame : t.ledger = s.ledger) :
    t.entered = s.entered := by
  have hsent : t.mTotalSent = s.mTotalSent := congrArg Lib.Ledger.sent hsame
  unfold entered
  rw [hframe.forwardQueueDataSize, hsent]

theorem entered_relation : FlushRelation fun s t : TCPSession τ => t.entered = s.entered where
  refl _ := rfl
  trans h h' := h'.trans h
  pop s := entered_of_frame (popAcked_frame s) (ledger_popAcked s)
  send s := entered_of_frame (sendBackData_frame s) (ledger_sendBackData s)
  number _ _ := rfl
  refuse _ _ := rfl
  switch state s := entered_of_frame (switchState_frame state s) (ledger_switchState state s)
  rst s := entered_of_frame (rstSent_frame s) (ledger_rstSent s)
  finish _ := rfl

theorem enqueueIfNeed_entered (ip : Packet) (s : TCPSession τ) :
    (enqueueIfNeed ip s).2.entered = s.entered + BitVec.ofNat 32 (enqueueIfNeed ip s).1 := by
  rcases enqueueIfNeed_cases ip s with ⟨-, heq⟩ | ⟨-, -, heq⟩ | ⟨-, -, -, heq⟩ | ⟨-, -, -, heq⟩ <;>
    rw [heq]
  · exact (BitVec.add_zero _).symm
  · exact (entered_relation.push ACK s).trans (BitVec.add_zero _).symm
  · exact (BitVec.add_zero _).symm
  · show s.mTotalSent + (s.mForwardQueueDataSize + BitVec.ofNat 32 (s.filledDatagram ip).size) = _
    rw [filledDatagram_size, ← BitVec.add_assoc]
    rfl

theorem acceptPayload_entered (ip : Packet) (s : TCPSession τ) :
    (acceptPayload ip s).entered = s.entered + BitVec.ofNat 32 (enqueueIfNeed ip s).1 := by
  rw [← enqueueIfNeed_entered, acceptPayload]
  dsimp only
  split
  · exact entered_relation.push ACK _
  · exact entered_relation.flush _

theorem acceptFirstPayload_entered (ip : Packet) (s : TCPSession τ) :
    (acceptFirstPayload ip s).entered = s.entered + BitVec.ofNat 32 (enqueueIfNeed ip s).1 := by
  rw [← enqueueIfNeed_entered, acceptFirstPayload]
  exact entered_relation.flush _

theorem onReceiveACK_entered {ip : Packet} (h : onReceiveACK ip s = some t) :
    t.entered = s.entered + BitVec.ofNat 32 (ackReturned ip s) := by
  have hmoved (state : TCPState) : (s.switchState state).flushBackQueue.entered = s.entered + 0 :=
    ((entered_relation.flush _).trans (entered_relation.switch state s)).trans
      (BitVec.add_zero _).symm
  have hflushed : s.flushBackQueue.entered = s.entered + 0 :=
    (entered_relation.flush s).trans (BitVec.add_zero _).symm
  unfold onReceiveACK at h
  unfold ackReturned
  cases hstate : s.mState <;> rw [hstate] at h <;> dsimp only at h ⊢
  case synRcved =>
    cases h
    have hswitched : (s.switchState .established).entered = s.entered :=
      entered_relation.switch .established s
    rw [acceptFirstPayload_entered, hswitched]
  case established =>
    cases hscan : if s.mSack then scanOptions ip optSACK else .notFound with
    | spins =>
      rw [hscan] at h
      cases h
    | found sack =>
      rw [hscan] at h
      cases h
      have hmarked : (onSack sack s).entered = s.entered := by
        unfold onSack
        dsimp only
        split <;> rfl
      rw [acceptPayload_entered, hmarked]
    | notFound =>
      rw [hscan] at h
      cases h
      exact acceptPayload_entered ip s
  case finWait1 =>
    cases h
    exact hmoved _
  case lastAck =>
    cases h
    exact hmoved _
  case closing =>
    cases h
    exact hmoved _
  all_goals
    cases h
    exact hflushed

theorem dispatchFlags_entered {ip : Packet} (h : dispatchFlags ip s = some t) :
    t.entered = s.entered + BitVec.ofNat 32
      (if ip.Plain ∧ s.mLocalNext ≤ s.relativeAck ip then ackReturned ip (s.acknowledged ip)
        else 0) := by
  have hquiet (hnone : ¬ (ip.Plain ∧ s.mLocalNext ≤ s.relativeAck ip))
      (hkept : t.entered = s.entered) : t.entered = s.entered + BitVec.ofNat 32
        (if ip.Plain ∧ s.mLocalNext ≤ s.relativeAck ip then ackReturned ip (s.acknowledged ip)
          else 0) := by
    rw [if_neg hnone, hkept]
    exact (BitVec.add_zero _).symm
  by_cases hlisten : NetCore.hasFlag ip.flag SYN ∧ s.mState = .listen
  · refine hquiet (fun hack => ?_) ?_
    · rw [hack.1.1] at hlisten
      exact absurd hlisten.1 Bool.false_ne_true
    · unfold dispatchFlags at h
      rw [if_pos hlisten.1, onReceiveSYN, if_neg (not_not.mpr hlisten.2)] at h
      split at h
      · cases h
      · cases h
      · cases h
      · cases h
        exact entered_relation.handshake ip _
  · cases dispatchFlags_accepted (fun hsyn hstate => hlisten ⟨hsyn, hstate⟩) h with
    | syn hsyn =>
      refine hquiet (fun hack => ?_) (entered_relation.flush s)
      rw [hack.1.1] at hsyn
      cases hsyn
    | fin _ hfin =>
      refine hquiet (fun hack => ?_) (entered_relation.onReceiveFIN ip s)
      rw [hack.1.2.1] at hfin
      cases hfin
    | rst _ _ hrst =>
      refine hquiet (fun hack => ?_) (entered_relation.switch .closed s)
      rw [hack.1.2.2] at hrst
      cases hrst
    | stale _ _ hstale => exact hquiet (fun hack => absurd hack.2 (by bv_omega)) rfl
    | ack hplain hle hstep =>
      have hmoved := onReceiveACK_entered hstep
      have hnumbered : (s.acknowledged ip).entered = s.entered := rfl
      rw [hnumbered] at hmoved
      rw [if_pos ⟨hplain, hle⟩]
      exact hmoved

theorem step_entered {e : Event τ} (hstep : s.step e = some t) :
    t.entered = s.entered + BitVec.ofNat 32 (s.returned e) := by
  have hkept (h : t.entered = s.entered) : t.entered = s.entered + BitVec.ofNat 32 0 :=
    h.trans (BitVec.add_zero _).symm
  cases e with
  | accept ip =>
    obtain ⟨u, hu, rfl⟩ := Option.map_eq_some_iff.mp hstep
    obtain ⟨total, trace, heq⟩ := s.countAccepted_eq ip
    have hcounted : (s.countAccepted ip).entered = s.entered := by
      rw [heq]
      rfl
    have hmoved := dispatchFlags_entered hu
    rw [hcounted] at hmoved
    exact hmoved
  | tunnelConnected =>
    cases hstep
    exact hkept rfl
  | tunnelDisconnected reason =>
    cases hstep
    exact hkept (entered_relation.onTunnelDisconnected reason s)
  | tunnelWritable =>
    cases hstep
    have hcount (n : Nat) (s : TCPSession τ) : (s.countSent n).entered = s.entered := by
      unfold countSent
      split
      · show s.mTotalSent + BitVec.ofNat 32 n + (s.mForwardQueueDataSize - BitVec.ofNat 32 n) =
          s.mTotalSent + s.mForwardQueueDataSize
        generalize BitVec.ofNat 32 n = sent
        bv_omega
      · rfl
    exact hkept (entered_relation.onTunnelWritable (fun _ => rfl) hcount (fun _ _ => rfl) s)
  | tunnelDataBack data =>
    cases hstep
    by_cases hdata : data = []
    · refine hkept ?_
      rw [onTunnelDataBack, if_pos hdata]
      exact entered_relation.onRemoteFinished _
    · have hcount (i : Nat) (s : TCPSession τ) : (s.countRecv i).entered = s.entered := by
        unfold countRecv
        split <;> rfl
      exact hkept (entered_relation.onTunnelDataBack (fun _ _ => rfl) hcount (fun _ _ => rfl)
        (fun _ => rfl) hdata s)
  | written i n =>
    cases hstep
    exact hkept rfl
  | environment tunnel now rand =>
    cases hstep
    exact hkept rfl

structure Blank (s : TCPSession τ) : Prop where
  forwardQueue : s.mForwardQueue = []
  backQueue : s.mBackQueue = []
  forwardSize : s.mForwardQueueDataSize = 0
  backSize : s.mBackQueueDataSize = 0
  back : s.mTotalBack = 0
  recv : s.mTotalRecv = 0
  sent : s.mTotalSent = 0

omit [ITunnel τ] in
theorem Blank.balanced (h : s.Blank) : s.Balanced := by
  refine ⟨?_, ?_, ?_⟩
  · rw [h.forwardSize, TCPSession.forwardSize, h.forwardQueue]
    rfl
  · rw [h.backSize, backCapacity, h.backQueue]
    rfl
  · rw [h.back, h.recv, backLength, h.backQueue]
    rfl

-- In every run the accounts are in balance, and what has been handed to the tunnel and what is queued
-- for it adds up to the values of `enqueueIfNeed`.
theorem run_balanced {es : List (Event τ)} (hblank : s.Blank) (hrun : Lib.run step s es = some t) :
    t.Balanced ∧ t.entered = BitVec.ofNat 32 (Lib.tally step returned s es) := by
  have hnone : s.entered = BitVec.ofNat 32 0 := by
    rw [entered, hblank.sent, hblank.forwardSize]
    rfl
  have hnext (n : Nat) (u : TCPSession τ) (e : Event τ) (u' : TCPSession τ)
      (hu : u.Balanced ∧ u.entered = BitVec.ofNat 32 n) (hstep : u.step e = some u') :
      u'.Balanced ∧ u'.entered = BitVec.ofNat 32 (n + u.returned e) := by
    refine ⟨(Shift.step hstep).keeps hu.1, ?_⟩
    rw [step_entered hstep, hu.2, BitVec.ofNat_add]
  exact Lib.run_tally (fun n u => u.Balanced ∧ u.entered = BitVec.ofNat 32 n) hnext
    ⟨hblank.balanced, hnone⟩ hrun

end TCPSession
end NetCore
