import NetCore.TCPSession.Accounts
import NetCore.TCPSession.Birth

/-!
# Where the sizes are read

`updateWindowSize` and `enqueueIfNeed` go by `mForwardQueueDataSize`, the two decisions on whether to
read on from the tunnel by `mBackQueueDataSize`.  `Reads` follows the calls of a step to the sessions in
which they do so.  Only the drain loop lets a call see a size that is not brought up to date: when
`sendData` has taken bytes and fails in a later round, `onTunnelDisconnected` comes before the count.
-/

namespace NetCore

/-- The sizes the decisions go by. -/
inductive SizeField where
  | mForwardQueueDataSize
  | mBackQueueDataSize

namespace TCPSession

variable {τ : Type}

-- What the field is ahead of its queue by.
def ahead (s : TCPSession τ) : SizeField → U32
  | .mForwardQueueDataSize => s.forwardAhead
  | .mBackQueueDataSize => s.backAhead

/-- The field tells what its queue holds. -/
def Current (s : TCPSession τ) : SizeField → Prop
  | .mForwardQueueDataSize => s.mForwardQueueDataSize = BitVec.ofNat 32 s.forwardSize
  | .mBackQueueDataSize => s.mBackQueueDataSize = BitVec.ofNat 32 s.backCapacity

/-- The functions that come to read a size. -/
inductive Call (τ : Type) where
  | pushInBackQueue (flag : U8) (data : Bytes)
  | flushBackQueue
  | sendBackData
  | resetConnection
  | onRemoteFinished
  | onTunnelDisconnected
  | enqueueIfNeed (ip : Packet)
  | onReceiveACK (ip : Packet)
  | dispatchFlags (ip : Packet)
  | relayLoop (data : Bytes)
  | step (e : Event τ)

/-- The session the send loop resets, if it does. -/
def loopReset (limit : U32) : U32 → U8 → List TCPDatagram → List TCPDatagram → TCPSession τ →
    Option (TCPSession τ)
  | _, _, _, [], _ => none
  | w, packet, done, segment :: rest, s =>
      if 0 < w ∧ segment.hasFlag FIN then none
      else if w = 0 ∧ s.mLocalNext < segment.mSeq then
        some { s with mBackQueue := done ++ segment :: rest }
      else
        let w := w + BitVec.ofNat 32 segment.size
        if w < limit ∧ packet < TCP_MAX_SEND_PACKET then
          if !segment.isBuffering && !segment.mACKed then
            match sendBackSegment segment s with
            | (sent, segment, s) =>
                if 0 < sent then loopReset limit w (packet + 1) (done ++ [segment]) rest s else none
          else loopReset limit w (packet + 1) (done ++ [segment]) rest s
        else none

def resetSession (s : TCPSession τ) : Option (TCPSession τ) :=
  loopReset s.sendLimit 0 0 [] s.mBackQueue s

variable [ITunnel τ]

-- `loopReset` is the send loop's reset.
theorem sendLoop_eq_loopReset (limit w : U32) (packet : U8) (done rest : List TCPDatagram)
    (s : TCPSession τ) :
    ((sendLoop limit w packet done rest s).1 = .reset ↔
        (loopReset limit w packet done rest s).isSome) ∧
      ∀ u, loopReset limit w packet done rest s = some u →
        (sendLoop limit w packet done rest s).2 = u.resetConnection := by
  induction rest generalizing w packet done s with
  | nil => exact ⟨by simp [sendLoop, loopReset], by simp [loopReset]⟩
  | cons d rest ih =>
    rw [sendLoop, loopReset]
    split
    · exact ⟨by simp, by simp⟩
    · split
      · refine ⟨by simp, ?_⟩
        rintro u ⟨⟩
        dsimp only
      · dsimp only
        split
        · split
          · split
            · exact ih _ _ _ _
            · exact ⟨by simp, by simp⟩
          · exact ih _ _ _ s
        · exact ⟨by simp, by simp⟩

/-- The session behind the SACK option of an acknowledgement; none when the scan does not end. -/
def sacked (ip : Packet) (s : TCPSession τ) : Option (TCPSession τ) :=
  match if s.mSack then scanOptions ip optSACK else .notFound with
  | .spins => none
  | .found sack => some (onSack sack s)
  | .notFound => some s

/-- `u` is the session in which a call on `s` reads the field. -/
inductive Reads (field : SizeField) : Call τ → TCPSession τ → TCPSession τ → Prop
  -- `pushInBackQueue` updates the window before it builds the segment
  | window {flag data s} : field = .mForwardQueueDataSize → s.mLocalNext ≤ s.mLocalSeq →
      Reads field (.pushInBackQueue flag data) s s
  | pushed {flag data s u} : s.mLocalNext ≤ s.mLocalSeq →
      Reads field .flushBackQueue (s.enqueueBack flag data) u →
      Reads field (.pushInBackQueue flag data) s u
  | fin {s u} : s.popAcked.FinDue → Reads field (.pushInBackQueue (FIN ||| ACK) []) s.popAcked u →
      Reads field .flushBackQueue s u
  | back {s u} : ¬ s.popAcked.FinDue → Reads field .sendBackData s.popAcked u →
      Reads field .flushBackQueue s u
  | reset {s t u} : s.resetSession = some t → Reads field .resetConnection t u →
      Reads field .sendBackData s u
  | resume {s u} : field = .mBackQueueDataSize →
      sendLoop s.sendLimit 0 0 [] s.mBackQueue s = (.finished, u) → u.mState = .established →
      Reads field .sendBackData s u
  | resetWindow {s} : field = .mForwardQueueDataSize → Reads field .resetConnection s s
  | remoteFinished {s u} : Reads field .flushBackQueue { s with mRemoteFinished := true } u →
      Reads field .onRemoteFinished s u
  | disconnected {s u} : s.mState = .closeWait ∨ s.mState = .established →
      Reads field .onRemoteFinished s u → Reads field .onTunnelDisconnected s u
  | disconnectedReset {s u} :
      s.mState ∉ [.closeWait, .established, .timeWait, .closing, .finWait1, .finWait2] →
      Reads field .resetConnection s u → Reads field .onTunnelDisconnected s u
  -- `enqueueIfNeed` acknowledges what it has, or asks whether there is anything to send
  | repeated {ip s u} : ip.payload ≠ [] → s.Repeated ip →
      Reads field (.pushInBackQueue ACK []) s u → Reads field (.enqueueIfNeed ip) s u
  | queued {ip s} : field = .mForwardQueueDataSize → s.Queues ip →
      Reads field (.enqueueIfNeed ip) s (s.queuedForward ip)
  | firstPayload {ip s u} : s.mState = .synRcved →
      Reads field (.enqueueIfNeed ip) (s.switchState .established) u →
      Reads field (.onReceiveACK ip) s u
  | firstPayloadFlush {ip s t l u} : s.mState = .synRcved →
      enqueueIfNeed ip (s.switchState .established) = (l, t) →
      Reads field .flushBackQueue { t with mRemoteNext := t.mRemoteNext + BitVec.ofNat 32 l } u →
      Reads field (.onReceiveACK ip) s u
  | payload {ip s t u} : s.mState = .established → s.sacked ip = some t →
      Reads field (.enqueueIfNeed ip) t u → Reads field (.onReceiveACK ip) s u
  | payloadPush {ip s t t' l u} : s.mState = .established → s.sacked ip = some t →
      enqueueIfNeed ip t = (l, t') → 0 < l →
      Reads field (.pushInBackQueue ACK [])
        { t' with mRemoteNext := t'.mRemoteNext + BitVec.ofNat 32 l } u →
      Reads field (.onReceiveACK ip) s u
  | payloadFlush {ip s t t' u} : s.mState = .established → s.sacked ip = some t →
      enqueueIfNeed ip t = (0, t') → Reads field .flushBackQueue t' u →
      Reads field (.onReceiveACK ip) s u
  | moved {ip state s u} :
      (s.mState, state) ∈
        [(TCPState.finWait1, TCPState.finWait2), (.lastAck, .closed), (.closing, .timeWait)] →
      Reads field .flushBackQueue (s.switchState state) u → Reads field (.onReceiveACK ip) s u
  | unmoved {ip s u} : s.mState ∉ [.synRcved, .established, .finWait1, .lastAck, .closing] →
      Reads field .flushBackQueue s u → Reads field (.onReceiveACK ip) s u
  | syn {ip s u} (sack : Bool) (mss : U16) (scale : U8) : NetCore.hasFlag ip.flag SYN →
      s.mState = .listen →
      Reads field (.pushInBackQueue (SYN ||| ACK) [])
        (synNumbered ip { s with mSack := sack, mMSS := mss, mWindowScale := scale }) u →
      Reads field (.dispatchFlags ip) s u
  | synAgain {ip s u} : NetCore.hasFlag ip.flag SYN → s.mState ≠ .listen →
      Reads field .flushBackQueue s u → Reads field (.dispatchFlags ip) s u
  | finReceived {ip s u} : NetCore.hasFlag ip.flag SYN = false → NetCore.hasFlag ip.flag FIN →
      Reads field (.pushInBackQueue ACK []) (s.finNumbered ip) u →
      Reads field (.dispatchFlags ip) s u
  | ack {ip s u} : ip.Plain → s.mLocalNext ≤ s.relativeAck ip →
      Reads field (.onReceiveACK ip) (s.acknowledged ip) u → Reads field (.dispatchFlags ip) s u
  | relayPush {data s u} : data ≠ [] →
      Reads field (.pushInBackQueue ACK (data.take TCP_IP_PAYLOAD_SIZE)) s u →
      Reads field (.relayLoop data) s u
  | relayNext {data s t u} : data ≠ [] →
      pushInBackQueue ACK (data.take TCP_IP_PAYLOAD_SIZE) s = (true, t) →
      Reads field (.relayLoop (data.drop TCP_IP_PAYLOAD_SIZE)) t u → Reads field (.relayLoop data) s u
  | accept {ip s u} : Reads field (.dispatchFlags ip) (s.countAccepted ip) u →
      Reads field (.step (.accept ip)) s u
  | tunnelDisconnected {reason s u} : Reads field .onTunnelDisconnected s u →
      Reads field (.step (.tunnelDisconnected reason)) s u
  -- the failing `sendData` calls back before the bytes of the loop are counted
  | tunnelWritable {s u} : (drain s.mForwardQueue s.mTunnel).failed.isSome →
      Reads field .onTunnelDisconnected s.drained u → Reads field (.step .tunnelWritable) s u
  | tunnelFinished {s u} :
      Reads field .onRemoteFinished { s with mTunnel := ITunnel.pauseReceiveData s.mTunnel } u →
      Reads field (.step (.tunnelDataBack [])) s u
  | tunnelDataBack {data s u} : data ≠ [] → Reads field (.relayLoop data) s u →
      Reads field (.step (.tunnelDataBack data)) s u
  | pause {data s i t} : field = .mBackQueueDataSize → data ≠ [] →
      relayLoop data.length data s = (i, t) →
      Reads field (.step (.tunnelDataBack data)) s (t.countRecv i)

omit [ITunnel τ] in
theorem current_iff (field : SizeField) (s : TCPSession τ) : s.Current field ↔ s.ahead field = 0 := by
  have hdifference (a b : U32) : a = b ↔ a - b = 0 := by
    constructor <;> intro h <;> bv_omega
  cases field
  · exact hdifference _ _
  · exact hdifference _ _

omit [ITunnel τ] in
theorem sacked_eq {ip : Packet} {s t : TCPSession τ} (h : s.sacked ip = some t) : t = s := by
  unfold sacked at h
  cases hscan : if s.mSack then scanOptions ip optSACK else .notFound with
  | spins =>
    rw [hscan] at h
    cases h
  | notFound =>
    rw [hscan] at h
    cases h
    rfl
  | found sack =>
    rw [hscan] at h
    cases h
    by_cases hsack : s.mSack
    · rw [if_pos hsack] at hscan
      exact onSack_of_kind (getOptionAddr_found hscan) s
    · rw [if_neg hsack] at hscan
      cases hscan

omit [ITunnel τ] in
theorem Shift.ahead_eq {received : U32} {s t : TCPSession τ} (h : Shift 0 received s t)
    (field : SizeField) : t.ahead field = s.ahead field := by
  cases field
  · exact h.forward.trans (BitVec.add_zero _)
  · exact h.back

-- Every call that has counted what it has moved leaves a size as far ahead as it was.
theorem sizes_relation (field : SizeField) :
    RunRelation fun s t : TCPSession τ => t.ahead field = s.ahead field where
  toBackRelation :=
    Shift.backRelation.weaken (fun _ => rfl) (fun h h' => h'.trans h) fun h => h.ahead_eq field
  count ip s := by
    obtain ⟨_, _, heq⟩ := s.countAccepted_eq ip
    rw [heq]
    cases field <;> rfl
  environment _ _ _ _ _ _ _ _ := by cases field <;> rfl
  written s i n := (Shift.written i n s).ahead_eq field
  options _ _ _ _ := by cases field <;> rfl
  bases _ _ := by cases field <;> rfl

theorem enqueueIfNeed_ahead (field : SizeField) (ip : Packet) (s : TCPSession τ) :
    (enqueueIfNeed ip s).2.ahead field = s.ahead field := by
  rcases enqueueIfNeed_cases ip s with ⟨-, heq⟩ | ⟨-, -, heq⟩ | ⟨-, -, -, heq⟩ | ⟨-, -, -, heq⟩ <;>
    rw [heq]
  · exact (sizes_relation field).push ACK s
  · refine Eq.trans ?_ ((sizes_relation field).upload ip s)
    cases field <;> rfl

omit [ITunnel τ] in
-- The session that is reset is the one the send loop has come to.
theorem loopReset_shift {limit w : U32} {packet : U8} {done rest : List TCPDatagram}
    {s t : TCPSession τ} (h : loopReset limit w packet done rest s = some t) :
    Shift 0 0 { s with mBackQueue := done ++ rest } t := by
  induction rest generalizing w packet done s with
  | nil => cases h
  | cons d rest ih =>
    have hnext {w : U32} {packet : U8} {d : TCPDatagram} {s : TCPSession τ}
        (h : loopReset limit w packet (done ++ [d]) rest s = some t) :
        Shift 0 0 { s with mBackQueue := done ++ d :: rest } t := by
      have hrest := ih h
      rw [List.append_assoc, List.singleton_append] at hrest
      exact hrest
    rw [loopReset] at h
    by_cases hfin : 0 < w ∧ d.hasFlag FIN
    · rw [if_pos hfin] at h
      cases h
    · rw [if_neg hfin] at h
      by_cases hahead : w = 0 ∧ s.mLocalNext < d.mSeq
      · rw [if_pos hahead] at h
        cases h
        exact .refl _
      · rw [if_neg hahead] at h
        dsimp only at h
        by_cases hfits : w + BitVec.ofNat 32 d.size < limit ∧ packet < TCP_MAX_SEND_PACKET
        · rw [if_pos hfits] at h
          by_cases hwaits : (!d.isBuffering && !d.mACKed) = true
          · obtain ⟨n, d', points, heq, hcapacity, hlength⟩ := Shift.sendBackSegment_eq d s
            have hhanded := Shift.handed done rest points s hcapacity hlength
            rw [if_pos hwaits, heq] at h
            dsimp only at h
            by_cases hsent : 0 < n
            · rw [if_pos hsent] at h
              exact hhanded.trans (hnext h)
            · rw [if_neg hsent] at h
              cases h
          · rw [if_neg hwaits] at h
            exact hnext h
        · rw [if_neg hfits] at h
          cases h

-- A size is as far ahead when it is read as when the call begins, but for the bytes of a drain
-- loop.
theorem Reads.ahead_eq {field : SizeField} {call : Call τ} {s u : TCPSession τ}
    (h : Reads field call s u)
    (hdrain : call = .step .tunnelWritable → s.drained.ahead field = s.ahead field) :
    u.ahead field = s.ahead field := by
  have hR := sizes_relation (τ := τ) field
  have hpush (data : Bytes) (s : TCPSession τ) :
      (pushInBackQueue ACK data s).2.ahead field = s.ahead field :=
    hR.pushData (fun data s => (Shift.enqueueBack ACK data s).ahead_eq field) data s
  have hshift {s t : TCPSession τ} (h : Shift 0 0 s t) : t.ahead field = s.ahead field :=
    h.ahead_eq field
  induction h with
  | window => rfl
  | pushed _ _ ih => exact (ih (by simp)).trans ((Shift.enqueueBack _ _ _).ahead_eq field)
  | fin _ _ ih => exact (ih (by simp)).trans (hR.pop _)
  | back _ _ ih => exact (ih (by simp)).trans (hR.pop _)
  | reset hreset _ ih => exact (ih (by simp)).trans (hshift (loopReset_shift hreset))
  | @resume s u _ hsent =>
    have hkept := hshift (Shift.sendLoop s.sendLimit 0 0 [] s.mBackQueue s)
    rw [hsent] at hkept
    exact hkept
  | resetWindow => rfl
  | remoteFinished _ ih => exact (ih (by simp)).trans (hR.finish _)
  | disconnected _ _ ih => exact ih (by simp)
  | disconnectedReset _ _ ih => exact ih (by simp)
  | repeated _ _ _ ih => exact ih (by simp)
  | @queued ip s _ hqueues =>
    refine Eq.trans ?_ (hR.upload ip s)
    cases field <;> rfl
  | firstPayload _ _ ih => exact (ih (by simp)).trans (hR.switch _ _)
  | @firstPayloadFlush ip s t l u _ heq _ ih =>
    have hqueued := enqueueIfNeed_ahead field ip (s.switchState .established)
    rw [heq] at hqueued
    exact ((ih (by simp)).trans hqueued).trans (hR.switch _ s)
  | payload _ hsacked _ ih =>
    rw [sacked_eq hsacked] at ih
    exact ih (by simp)
  | @payloadPush ip s t t' l u _ hsacked heq _ _ ih =>
    have hqueued := enqueueIfNeed_ahead field ip t
    rw [heq, sacked_eq hsacked] at hqueued
    exact (ih (by simp)).trans hqueued
  | @payloadFlush ip s t t' u _ hsacked heq _ ih =>
    have hqueued := enqueueIfNeed_ahead field ip t
    rw [heq, sacked_eq hsacked] at hqueued
    exact (ih (by simp)).trans hqueued
  | moved _ _ ih => exact (ih (by simp)).trans (hR.switch _ _)
  | unmoved _ _ ih => exact ih (by simp)
  | syn sack mss scale _ _ _ ih =>
    exact ((ih (by simp)).trans (hR.bases _ _)).trans (hR.options _ sack mss scale)
  | synAgain _ _ _ ih => exact ih (by simp)
  | finReceived _ _ _ ih =>
    refine (ih (by simp)).trans ?_
    exact hR.environment _ _ _ _ _ _ _ _
  | ack _ _ _ ih =>
    refine (ih (by simp)).trans ?_
    exact hR.environment _ _ _ _ _ _ _ _
  | relayPush _ _ ih => exact ih (by simp)
  | @relayNext data s t u _ heq _ ih =>
    have hpushed := hpush (data.take TCP_IP_PAYLOAD_SIZE) s
    rw [heq] at hpushed
    exact (ih (by simp)).trans hpushed
  | accept _ ih => exact (ih (by simp)).trans (hR.count _ _)
  | tunnelDisconnected _ ih => exact ih (by simp)
  | tunnelWritable _ _ ih => exact (ih (by simp)).trans (hdrain rfl)
  | tunnelFinished _ ih => exact (ih (by simp)).trans (hR.tunnel _ _)
  | tunnelDataBack _ _ ih => exact ih (by simp)
  | @pause data s i t _ _ heq =>
    have hrelayed := (Shift.relayLoop data.length data s).ahead_eq field
    rw [heq] at hrelayed
    exact ((Shift.countRecv i t).ahead_eq field).trans hrelayed

/-! ## Stale sizes -/

/-- The tunnel takes bytes and fails in one call of `onTunnelWritable`. -/
def Interrupted (s : TCPSession τ) : Prop :=
  (drain s.mForwardQueue s.mTunnel).failed.isSome ∧ (drain s.mForwardQueue s.mTunnel).taken ≠ []

/-- A flush that sends a FIN, or a reset. -/
def FlushAnnounces (s : TCPSession τ) : Prop :=
  let s := s.popAcked
  (s.FinDue ∧ s.mLocalNext ≤ s.mLocalSeq) ∨
    (¬ s.FinDue ∧ (sendLoop s.sendLimit 0 0 [] s.mBackQueue s).1 = .reset)

/-- `onTunnelDisconnected` sends a segment, and with it a window. -/
def Announces (s : TCPSession τ) : Prop :=
  match s.mState with
  | .closeWait | .established => FlushAnnounces { s with mRemoteFinished := true }
  | .timeWait | .closing | .finWait1 | .finWait2 => False
  | _ => True

/-- No window is announced for a tunnel that has failed behind bytes it has taken. -/
def Careful (s : TCPSession τ) : Event τ → Prop
  | .tunnelWritable => ¬ (s.Interrupted ∧ s.drained.Announces)
  | _ => True

-- A flush reads the size of the forward queue for a window only.
theorem Reads.flushAnnounces {s u : TCPSession τ}
    (h : Reads .mForwardQueueDataSize .flushBackQueue s u) : s.FlushAnnounces := by
  cases h with
  | fin hfin hpush =>
    cases hpush with
    | window _ hle => exact .inl ⟨hfin, hle⟩
    | pushed hle _ => exact .inl ⟨hfin, hle⟩
  | back hnot hsend =>
    cases hsend with
    | reset hreset _ =>
      have hloop := (sendLoop_eq_loopReset s.popAcked.sendLimit 0 0 [] s.popAcked.mBackQueue
        s.popAcked).1
      exact .inr ⟨hnot, hloop.mpr (Option.isSome_of_mem hreset)⟩
    | resume hfield => cases hfield

theorem Reads.announces {s u : TCPSession τ}
    (h : Reads .mForwardQueueDataSize .onTunnelDisconnected s u) : s.Announces := by
  cases h with
  | disconnected hstate hfinished =>
    have hflush : FlushAnnounces { s with mRemoteFinished := true } := by
      cases hfinished with
      | remoteFinished hflush => exact hflush.flushAnnounces
    unfold Announces
    generalize FlushAnnounces { s with mRemoteFinished := true } = announced at hflush ⊢
    rcases hstate with hstate | hstate
    · rw [hstate]
      exact hflush
    · rw [hstate]
      exact hflush
  | disconnectedReset hstate _ =>
    unfold Announces
    split
    next heq => exact absurd (by rw [heq]; decide) hstate
    next heq => exact absurd (by rw [heq]; decide) hstate
    next heq => exact absurd (by rw [heq]; decide) hstate
    next heq => exact absurd (by rw [heq]; decide) hstate
    next heq => exact absurd (by rw [heq]; decide) hstate
    next heq => exact absurd (by rw [heq]; decide) hstate
    next => trivial

-- In balance, a step that is careful reads no stale size.
theorem step_reads {field : SizeField} {s u : TCPSession τ} {e : Event τ} (hs : s.Balanced)
    (hcareful : s.Careful e) (h : Reads field (.step e) s u) : u.Current field := by
  have hzero (field : SizeField) : s.ahead field = 0 := by
    have hbalance := balanced_iff.mp hs
    cases field
    · exact hbalance.1
    · exact hbalance.2.1
  rw [current_iff, ← hzero field]
  by_cases hwritable : e = .tunnelWritable ∧ field = .mForwardQueueDataSize
  · obtain ⟨rfl, rfl⟩ := hwritable
    cases h with
    | tunnelWritable hfailed hdisconnected =>
      have hnone : (drain s.mForwardQueue s.mTunnel).taken = [] := by
        by_contra htaken
        exact hcareful ⟨⟨hfailed, htaken⟩, hdisconnected.announces⟩
      have hdrained := (Shift.drained s).forward
      rw [hnone] at hdrained
      exact (hdisconnected.ahead_eq (by simp)).trans (hdrained.trans (BitVec.add_zero _))
  · refine h.ahead_eq fun he => ?_
    cases field with
    | mForwardQueueDataSize =>
      refine absurd ⟨?_, rfl⟩ hwritable
      injection he
    | mBackQueueDataSize => exact (Shift.drained s).back

/-- In every run whose steps are careful the accounts are in balance, and the sizes are read in
    balance. -/
theorem run_accounts {s t : TCPSession τ} {es : List (Event τ)} (hblank : s.Blank)
    (hcareful : Lib.Along step Careful s es) (hrun : Lib.run step s es = some t) :
    t.Balanced ∧ t.entered = BitVec.ofNat 32 (Lib.tally step returned s es) ∧
      Lib.Along step (fun s e => ∀ field u, Reads field (.step e) s u → u.Current field) s es := by
  obtain ⟨hbalanced, hentered⟩ := run_balanced hblank hrun
  refine ⟨hbalanced, hentered, ?_⟩
  exact hcareful.mono_of_invariant Balanced (fun _ _ _ hs hstep => (Shift.step hstep).keeps hs)
    (fun _ _ hs hcond _ _ h => step_reads hs hcond h) hblank.balanced

def sampleBreaking : TCPTunnel :=
  { sampleTunnel with sends := fun n => if n = 0 then .accepted 65535 else .error 104 }

-- The handshake and two bytes, each in a packet of its own.
def sampleTwoBytes : List (Event TCPTunnel) :=
  [.accept sampleSYN, .accept (sampleByte 101 0x61), .accept (sampleByte 102 0x62)]

theorem init_blank (tunnel : TCPTunnel) (rand : U32) : (sampleInit tunnel rand).Blank :=
  ⟨rfl, rfl, rfl, rfl, rfl, rfl, rfl⟩

theorem run_accounts_sample : ∃ t,
    Lib.run step (sampleInit sampleTunnel 1000) (sampleTwoBytes ++ [.tunnelWritable]) = some t ∧
      (t.Balanced ∧
        t.entered = BitVec.ofNat 32
          (Lib.tally step returned (sampleInit sampleTunnel 1000)
            (sampleTwoBytes ++ [.tunnelWritable])) ∧
        Lib.Along step (fun s e => ∀ field u, Reads field (.step e) s u → u.Current field)
          (sampleInit sampleTunnel 1000) (sampleTwoBytes ++ [.tunnelWritable])) := by
  have hreach : ∃ t,
      Lib.run step (sampleInit sampleTunnel 1000) (sampleTwoBytes ++ [.tunnelWritable]) = some t ∧
        t.mTotalSent = 2 := Lib.run_reaches (by decide)
  obtain ⟨t, hrun, -⟩ := hreach
  refine ⟨t, hrun, run_accounts (init_blank _ _) ?_ hrun⟩
  refine ⟨trivial, trivial, trivial, fun h => ?_, trivial⟩
  exact absurd h.1.1 (by decide)

def sampleTwoQueued : TCPSession TCPTunnel :=
  (Lib.run step (sampleInit sampleBreaking 1000) sampleTwoBytes).getD (sampleInit sampleBreaking 1000)

/-- The window of the FIN is that of a queue of two bytes; there is one. -/
theorem fin_reads_stale : (sampleInit sampleBreaking 1000).Blank ∧ ∃ s u,
    Lib.run step (sampleInit sampleBreaking 1000) sampleTwoBytes = some s ∧
      Reads .mForwardQueueDataSize (.step .tunnelWritable) s u ∧
      ¬ u.Current .mForwardQueueDataSize := by
  have hrun : Lib.run step (sampleInit sampleBreaking 1000) sampleTwoBytes = some sampleTwoQueued := by
    have hsome : (Lib.run step (sampleInit sampleBreaking 1000) sampleTwoBytes).isSome := by decide
    obtain ⟨s, hs⟩ := Option.isSome_iff_exists.mp hsome
    rw [sampleTwoQueued, hs, Option.getD_some]
  have hread : Reads .mForwardQueueDataSize (.pushInBackQueue (FIN ||| ACK) [])
      ({ sampleTwoQueued.drained with mRemoteFinished := true } : TCPSession TCPTunnel).popAcked
      ({ sampleTwoQueued.drained with mRemoteFinished := true } : TCPSession TCPTunnel).popAcked :=
    .window rfl (by decide)
  refine ⟨init_blank _ _, sampleTwoQueued, _, hrun, .tunnelWritable (by decide)
    (.disconnected (.inr (by decide)) (.remoteFinished (.fin (by decide) hread))), ?_⟩
  unfold Current
  dsimp only
  decide

end TCPSession
end NetCore
