import NetCore.IPAdpt.Options
import NetCore.Lib.Run
import NetCore.TCPSession.Birth
import NetCore.TCPSession.Rebase

/-!
# Runs from other initial numbers

A peer that draws other numbers sends the same script with other numbers on the wire.  The session goes
through the same states, as long as every number it takes from a packet is above its base, as unsigned
numbers go: then `TCP_RELATIVE_SEQ` is the difference, and adding the base gives the number back.  At
the base and past the wrap it is one short.
-/

namespace NetCore

/-- One packet of a script on the wires of two connections: the same numbers relative to the bases, and
    all else the same but for the checksum and the edges in the SACK options. -/
structure SamePacket (b b' : Bases) (ip ip' : Packet) : Prop where
  seq : ip'.seq - b'.remote = ip.seq - b.remote
  ack_seq : ip'.ack_seq - b'.own = ip.ack_seq - b.own
  flag : ip'.flag = ip.flag
  window : ip'.window = ip.window
  options : SameBut optSACK ip.options ip'.options
  payload : ip'.payload = ip.payload
  behind : ip'.behind = ip.behind

def SameSYN (ip ip' : Packet) : Prop :=
  ip' = { ip with seq := ip'.seq, ack_seq := ip'.ack_seq, checksum := ip'.checksum }

namespace TCPSession

variable {τ : Type}

/-- One event of a script; the random generator is no part of it. -/
inductive SameEvent (b b' : Bases) : Event τ → Event τ → Prop
  | accept {ip ip' : Packet} : SamePacket b b' ip ip' → SameEvent b b' (.accept ip) (.accept ip')
  | tunnelConnected : SameEvent b b' .tunnelConnected .tunnelConnected
  | tunnelDisconnected (reason : U8) :
      SameEvent b b' (.tunnelDisconnected reason) (.tunnelDisconnected reason)
  | tunnelWritable : SameEvent b b' .tunnelWritable .tunnelWritable
  | tunnelDataBack (data : Bytes) : SameEvent b b' (.tunnelDataBack data) (.tunnelDataBack data)
  | written (i n : Nat) : SameEvent b b' (.written i n) (.written i n)
  | environment (tunnel : τ) (now : Nat) (rand rand' : U32) :
      SameEvent b b' (.environment tunnel now rand) (.environment tunnel now rand')

/-- The sequence number of the packet is looked at: by a FIN, and for a payload when the acknowledgement
    is not old and data is taken. -/
def UsesSeq (s : TCPSession τ) (ip : Packet) : Prop :=
  NetCore.hasFlag ip.flag SYN = false ∧
    (NetCore.hasFlag ip.flag FIN = true ∨
      NetCore.hasFlag ip.flag RST = false ∧ ip.payload ≠ [] ∧
        (s.mState = .synRcved ∨ s.mState = .established) ∧ s.mLocalNext ≤ s.relativeAck ip)

instance (s : TCPSession τ) (ip : Packet) : Decidable (s.UsesSeq ip) :=
  inferInstanceAs (Decidable (_ ∧ _))

/-- The numbers that are looked at are translated to what gives them back when the base is added. -/
def TranslatesBack (s : TCPSession τ) : Event τ → Prop
  | .accept ip =>
      (ip.UsesAck → s.relativeAck ip + s.mLocalSeqBase = ip.ack_seq) ∧
        (s.UsesSeq ip → s.relativeSeq ip + s.mRemoteSeqBase = ip.seq)
  | _ => True

def Above (s : TCPSession τ) : Event τ → Prop
  | .accept ip =>
      (ip.UsesAck → s.mLocalSeqBase < ip.ack_seq) ∧ (s.UsesSeq ip → s.mRemoteSeqBase < ip.seq)
  | _ => True

instance (s : TCPSession τ) : (e : Event τ) → Decidable (s.Above e)
  | .accept _ => inferInstanceAs (Decidable ((_ → _) ∧ (_ → _)))
  | .tunnelConnected | .tunnelDisconnected _ | .tunnelWritable | .tunnelDataBack _ | .written _ _
  | .environment _ _ _ => inferInstanceAs (Decidable True)

variable {b b' : Bases} {s s' : TCPSession τ} {ip ip' : Packet}

/-! ## The translation -/

theorem tcpRelativeSeq_of_above {seq base : U32} (h : base < seq) :
    tcpRelativeSeq seq base = seq - base := if_pos h

-- The translation is undone by adding the base exactly if the number is above it.
theorem tcpRelativeSeq_back_iff (seq base : U32) :
    tcpRelativeSeq seq base + base = seq ↔ base < seq := by
  by_cases h : base < seq
  · rw [tcpRelativeSeq_of_above h]
    exact iff_of_true (BitVec.sub_add_cancel seq base) h
  · apply iff_of_false _ h
    unfold tcpRelativeSeq
    rw [if_neg h]
    bv_omega

theorem translatesBack_iff (s : TCPSession τ) (e : Event τ) : s.TranslatesBack e ↔ s.Above e := by
  cases e with
  | accept ip =>
    exact and_congr (imp_congr_right fun _ => tcpRelativeSeq_back_iff ip.ack_seq s.mLocalSeqBase)
      (imp_congr_right fun _ => tcpRelativeSeq_back_iff ip.seq s.mRemoteSeqBase)
  | _ => exact Iff.rfl

-- Above the bases the same packet has the same numbers.
theorem Same.relativeAck (h : Same b b' s s') (hip : SamePacket b b' ip ip')
    (habove : s.mLocalSeqBase < ip.ack_seq) (habove' : s'.mLocalSeqBase < ip'.ack_seq) :
    s'.relativeAck ip' = s.relativeAck ip := by
  obtain ⟨p, hp, rfl⟩ := h
  obtain ⟨rfl, rfl, -⟩ := hp
  unfold TCPSession.relativeAck
  rw [tcpRelativeSeq_of_above habove, tcpRelativeSeq_of_above habove']
  exact hip.ack_seq

theorem Same.relativeSeq (h : Same b b' s s') (hip : SamePacket b b' ip ip')
    (habove : s.mRemoteSeqBase < ip.seq) (habove' : s'.mRemoteSeqBase < ip'.seq) :
    s'.relativeSeq ip' = s.relativeSeq ip := by
  obtain ⟨p, hp, rfl⟩ := h
  obtain ⟨rfl, rfl, -⟩ := hp
  unfold TCPSession.relativeSeq
  rw [tcpRelativeSeq_of_above habove, tcpRelativeSeq_of_above habove']
  exact hip.seq

/-! ## Payloads -/

theorem Same.filledDatagram (hpayload : ip'.payload = ip.payload) (hflag : ip'.flag = ip.flag)
    (hseq : s'.relativeSeq ip' = s.relativeSeq ip) :
    SameDatagram (s.filledDatagram ip) (s'.filledDatagram ip') := by
  unfold SameDatagram TCPSession.filledDatagram forwardDatagram
  rw [hpayload, hflag, hseq]
  rfl

-- The place of a payload in the queue depends on its number alone.
theorem findNotSmaller_same {d d' : TCPDatagram} (hseq : d'.mSeq = d.mSeq)
    {queue queue' : List TCPDatagram} (hqueue : List.Forall₂ SameDatagram queue queue') :
    BufferQueue.findNotSmaller TCPDatagram.compare d' queue' =
      BufferQueue.findNotSmaller TCPDatagram.compare d queue := by
  induction hqueue with
  | nil => rfl
  | @cons e e' queue queue' he _ ih =>
    have hcompare : d'.compare e' = d.compare e := by
      unfold TCPDatagram.compare
      rw [he, hseq]
    rw [BufferQueue.findNotSmaller, BufferQueue.findNotSmaller, hcompare, ih]

theorem insertIdx_same {d d' : TCPDatagram} (hd : SameDatagram d d') {queue queue' : List TCPDatagram}
    (hqueue : List.Forall₂ SameDatagram queue queue') (i : Nat) :
    List.Forall₂ SameDatagram (queue.insertIdx i d) (queue'.insertIdx i d') := by
  induction hqueue generalizing i with
  | nil =>
    cases i with
    | zero => exact .cons hd .nil
    | succ i => exact .nil
  | cons he hrest ih =>
    cases i with
    | zero => exact .cons hd (.cons he hrest)
    | succ i => exact .cons he (ih i)

theorem exists_at_same {queue queue' : List TCPDatagram}
    (hqueue : List.Forall₂ SameDatagram queue queue') (i : Nat) (seq : U32) :
    (∃ t, queue'[i]? = some t ∧ t.mSeq = seq) ↔ ∃ t, queue[i]? = some t ∧ t.mSeq = seq := by
  induction hqueue generalizing i with
  | nil => exact Iff.rfl
  | @cons e e' queue queue' he _ ih =>
    cases i with
    | zero =>
      have hseq : e'.mSeq = e.mSeq := by rw [he]
      simp only [List.getElem?_cons_zero, Option.some.injEq, exists_eq_left', hseq]
    | succ i =>
      simp only [List.getElem?_cons_succ]
      exact ih i

theorem Same.queuedAlready (h : Same b b' s s') (hseq : s'.relativeSeq ip' = s.relativeSeq ip) :
    s'.QueuedAlready ip' ↔ s.QueuedAlready ip := by
  have hplace := @findNotSmaller_same (s.forwardDatagram ip) (s'.forwardDatagram ip') hseq _ _ h.forward
  unfold QueuedAlready
  rw [hplace, hseq]
  exact exists_at_same h.forward _ _

variable [ITunnel τ]

theorem Same.queuedForward (h : Same b b' s s') (hpayload : ip'.payload = ip.payload)
    (hflag : ip'.flag = ip.flag) (hseq : s'.relativeSeq ip' = s.relativeSeq ip) :
    Same b b' (s.queuedForward ip) (s'.queuedForward ip') := by
  have hplace := @findNotSmaller_same (s.forwardDatagram ip) (s'.forwardDatagram ip') hseq _ _ h.forward
  have hqueue := insertIdx_same (Same.filledDatagram hpayload hflag hseq) h.forward
    (BufferQueue.findNotSmaller TCPDatagram.compare (s.forwardDatagram ip) s.mForwardQueue)
  have hsize : (s'.filledDatagram ip').size = (s.filledDatagram ip).size := by
    rw [filledDatagram_size, filledDatagram_size, hpayload]
  unfold TCPSession.queuedForward
  dsimp only
  rw [hplace, hsize]
  generalize (s.filledDatagram ip).size = n
  generalize List.insertIdx _ _ _ = queue at hqueue ⊢
  generalize List.insertIdx _ _ _ = queue' at hqueue ⊢
  obtain ⟨p, hp, rfl⟩ := h
  exact ⟨{ p with forward := queue' }, ⟨hp.bases, hp.bases', hp.back, hqueue, hp.packages⟩, rfl⟩

open Classical in
-- `enqueueIfNeed` by its tests.
theorem enqueueIfNeed_eq (ip : Packet) (s : TCPSession τ) :
    enqueueIfNeed ip s =
      if ip.payload = [] then (0, s)
      else if s.Repeated ip then (0, (pushInBackQueue ACK [] s).2)
      else if s.QueuedAlready ip then (0, s)
      else (ip.payload.length, s.queuedForward ip) := by
  rcases enqueueIfNeed_cases ip s with
    ⟨hempty, heq⟩ | ⟨hne, hrepeated, heq⟩ | ⟨hne, hnew, hqueued, heq⟩ | ⟨hne, hnew, hfree, heq⟩
  · rw [heq, if_pos hempty]
  · rw [heq, if_neg hne, if_pos hrepeated]
  · rw [heq, if_neg hne, if_neg hnew, if_pos hqueued]
  · rw [heq, if_neg hne, if_neg hnew, if_neg hfree]

-- As many bytes are queued.
theorem Same.enqueueIfNeed (h : Same b b' s s') (hpayload : ip'.payload = ip.payload)
    (hflag : ip'.flag = ip.flag) (hseq : ip.payload ≠ [] → s'.relativeSeq ip' = s.relativeSeq ip) :
    (enqueueIfNeed ip' s').1 = (enqueueIfNeed ip s).1 ∧
      Same b b' (enqueueIfNeed ip s).2 (enqueueIfNeed ip' s').2 := by
  rw [enqueueIfNeed_eq, enqueueIfNeed_eq, hpayload]
  by_cases hempty : ip.payload = []
  · rw [if_pos hempty, if_pos hempty]
    exact ⟨rfl, h⟩
  · have hseq := hseq hempty
    have hnext : s'.mRemoteNext = s.mRemoteNext := by
      obtain ⟨p, -, rfl⟩ := h
      rfl
    have hrepeats : s'.Repeated ip' ↔ s.Repeated ip := by
      unfold Repeated
      rw [hseq, hnext]
    have hqueues := h.queuedAlready hseq
    rw [if_neg hempty, if_neg hempty]
    by_cases hrepeated : s.Repeated ip
    · rw [if_pos hrepeated, if_pos (hrepeats.mpr hrepeated)]
      exact ⟨rfl, (h.pushInBackQueue ACK []).2⟩
    · rw [if_neg hrepeated, if_neg (mt hrepeats.mp hrepeated)]
      by_cases hqueued : s.QueuedAlready ip
      · rw [if_pos hqueued, if_pos (hqueues.mpr hqueued)]
        exact ⟨rfl, h⟩
      · rw [if_neg hqueued, if_neg (mt hqueues.mp hqueued)]
        exact ⟨rfl, h.queuedForward hpayload hflag hseq⟩

omit [ITunnel τ] in
theorem Same.received (h : Same b b' s s') (l : Nat) :
    Same b b' { s with mRemoteNext := s.mRemoteNext + BitVec.ofNat 32 l }
      { s' with mRemoteNext := s'.mRemoteNext + BitVec.ofNat 32 l } :=
  h.map (fun s => { s with mRemoteNext := s.mRemoteNext + BitVec.ofNat 32 l }) (fun _ => rfl) rfl

theorem Same.acceptFirstPayload (h : Same b b' s s') (hpayload : ip'.payload = ip.payload)
    (hflag : ip'.flag = ip.flag) (hseq : ip.payload ≠ [] → s'.relativeSeq ip' = s.relativeSeq ip) :
    Same b b' (acceptFirstPayload ip s) (acceptFirstPayload ip' s') := by
  obtain ⟨hcount, hsame⟩ := h.enqueueIfNeed hpayload hflag hseq
  unfold TCPSession.acceptFirstPayload
  dsimp only
  rw [hcount]
  exact (hsame.received _).flushBackQueue

theorem Same.acceptPayload (h : Same b b' s s') (hpayload : ip'.payload = ip.payload)
    (hflag : ip'.flag = ip.flag) (hseq : ip.payload ≠ [] → s'.relativeSeq ip' = s.relativeSeq ip) :
    Same b b' (acceptPayload ip s) (acceptPayload ip' s') := by
  obtain ⟨hcount, hsame⟩ := h.enqueueIfNeed hpayload hflag hseq
  unfold TCPSession.acceptPayload
  dsimp only
  rw [hcount]
  split
  · exact ((hsame.received _).pushInBackQueue ACK []).2
  · exact hsame.flushBackQueue

/-! ## Packets -/

-- In ESTABLISHED the SACK option matters only if its scan does not end.
theorem onReceiveACK_taken (h : s.mState = .established) (ip : Packet) :
    onReceiveACK ip s =
      if s.mSack ∧ scanOptions ip optSACK = .spins then none else some (acceptPayload ip s) := by
  unfold onReceiveACK
  rw [h]
  dsimp only
  by_cases hsack : s.mSack
  · rw [if_pos hsack]
    cases hscan : scanOptions ip optSACK with
    | spins => rw [if_pos ⟨hsack, rfl⟩]
    | notFound => rw [if_neg (by simp)]
    | found sack =>
      rw [if_neg (by simp)]
      dsimp only
      rw [onSack_of_kind (getOptionAddr_found hscan)]
  · rw [if_neg hsack, if_neg (by simp [hsack])]

omit [ITunnel τ] in
theorem scanOptions_same (hip : SamePacket b b' ip ip') :
    scanOptions ip' optSACK = .spins ↔ scanOptions ip optSACK = .spins := by
  have hspins := hip.options.spins_iff (Nat.lt_succ_self ip.options.length) (ip.payload ++ ip.behind)
  have hlength := hip.options.length
  unfold scanOptions getOptionAddr
  rw [hip.payload, hip.behind, List.append_assoc, List.append_assoc, hlength]
  rw [hlength] at hspins
  exact hspins

omit [ITunnel τ] in
-- The sequence number of a packet rests on the base alone.
theorem relativeSeq_of_base {t : TCPSession τ} (h : t.mRemoteSeqBase = s.mRemoteSeqBase)
    (ip : Packet) : t.relativeSeq ip = s.relativeSeq ip := by
  unfold TCPSession.relativeSeq
  rw [h]

theorem Same.onReceiveACK (h : Same b b' s s') (hip : SamePacket b b' ip ip')
    (hseq : ip.payload ≠ [] → s.mState = .synRcved ∨ s.mState = .established →
      s'.relativeSeq ip' = s.relativeSeq ip) :
    Option.Rel (Same b b') (onReceiveACK ip s) (onReceiveACK ip' s') := by
  have hstate := h.state
  cases hold : s.mState
  case established =>
    have hspins : s'.mSack ∧ scanOptions ip' optSACK = .spins ↔
        s.mSack ∧ scanOptions ip optSACK = .spins := by
      rw [scanOptions_same hip]
      obtain ⟨p, -, rfl⟩ := h
      exact Iff.rfl
    rw [onReceiveACK_taken hold, onReceiveACK_taken (hstate.trans hold)]
    by_cases hnone : s.mSack ∧ scanOptions ip optSACK = .spins
    · rw [if_pos hnone, if_pos (hspins.mpr hnone)]
      exact .none
    · rw [if_neg hnone, if_neg (mt hspins.mp hnone)]
      exact .some (h.acceptPayload hip.payload hip.flag fun hne => hseq hne (.inr hold))
  case synRcved =>
    have hfirst := (h.switchState .established).acceptFirstPayload hip.payload hip.flag fun hne => by
      rw [relativeSeq_of_base (switchState_frame .established s').remoteSeqBase ip',
        relativeSeq_of_base (switchState_frame .established s).remoteSeqBase ip]
      exact hseq hne (.inl hold)
    unfold TCPSession.onReceiveACK
    rw [hold, hstate, hold]
    exact .some hfirst
  all_goals
    unfold TCPSession.onReceiveACK
    rw [hold, hstate, hold]
    first
      | exact .some (h.switchState _).flushBackQueue
      | exact .some h.flushBackQueue

omit [ITunnel τ] in
-- Counting a packet tells of it in each session's own way; neither hands a package over.
theorem Same.countAccepted (h : Same b b' s s') (hpayload : ip'.payload = ip.payload) :
    Same b b' (s.countAccepted ip) (s'.countAccepted ip') := by
  have hcounted : Same b b'
      { s with mTotalAccept := s.mTotalAccept + BitVec.ofNat 32 ip.payload.length }
      { s' with mTotalAccept := s'.mTotalAccept + BitVec.ofNat 32 ip.payload.length } :=
    h.map (fun s => { s with mTotalAccept := s.mTotalAccept + BitVec.ofNat 32 ip.payload.length })
      (fun _ => rfl) rfl
  have hcaptures : (s'.mCtrlType &&& ctrlCAPTURE != 0) = true ↔
      (s.mCtrlType &&& ctrlCAPTURE != 0) = true := by
    obtain ⟨p, -, rfl⟩ := h
    exact Iff.rfl
  unfold TCPSession.countAccepted
  rw [hpayload]
  dsimp only
  apply Same.tell _ rfl rfl
  by_cases hcapture : (s.mCtrlType &&& ctrlCAPTURE != 0) = true
  · rw [if_pos hcapture, if_pos (hcaptures.mpr hcapture)]
    exact hcounted.tell rfl rfl
  · rw [if_neg hcapture, if_neg (mt hcaptures.mp hcapture)]
    exact hcounted

omit [ITunnel τ] in
-- The numbers of a FIN.
theorem Same.finNumbered (h : Same b b' s s') (hack : s'.relativeAck ip' = s.relativeAck ip)
    (hseq : s'.relativeSeq ip' = s.relativeSeq ip) :
    Same b b' (s.finNumbered ip) (s'.finNumbered ip') := by
  unfold TCPSession.finNumbered
  rw [hack, hseq]
  exact h.map (fun t => { t with
    mLocalNext := if t.mLocalNext ≤ s.relativeAck ip then s.relativeAck ip else t.mLocalNext
    mRemoteNext := s.relativeSeq ip + 1 }) (fun _ => rfl) rfl

theorem Same.onReceiveFIN (h : Same b b' s s') (hack : s'.relativeAck ip' = s.relativeAck ip)
    (hseq : s'.relativeSeq ip' = s.relativeSeq ip) :
    Same b b' (onReceiveFIN ip s) (onReceiveFIN ip' s') := by
  have hnumbered := h.finNumbered hack hseq
  have hpushed := (hnumbered.pushInBackQueue ACK []).2
  have hmoves : s'.FinMoves ↔ s.FinMoves := by
    unfold FinMoves
    rw [h.state]
  have horder : (s'.finNumbered ip').mLocalNext ≤ s'.mLocalSeq ↔
      (s.finNumbered ip).mLocalNext ≤ s.mLocalSeq := by
    rw [hnumbered.localNext, h.localSeq]
  have hfinState : s'.finState ip' = s.finState ip := by
    unfold finState
    rw [h.state, h.localNext, hack]
  by_cases hmove : s.FinMoves
  · by_cases hle : (s.finNumbered ip).mLocalNext ≤ s.mLocalSeq
    · rw [onReceiveFIN_moves hle hmove, onReceiveFIN_moves (horder.mpr hle) (hmoves.mpr hmove),
        hfinState]
      exact hpushed.switchState _
    · have hle' := mt horder.mp hle
      rw [onReceiveFIN_refused (by bv_omega), onReceiveFIN_refused (by bv_omega)]
      exact hnumbered.tell rfl rfl
  · rw [onReceiveFIN_stays hmove, onReceiveFIN_stays (mt hmoves.mp hmove)]
    exact hpushed

omit [ITunnel τ] in
-- The window and the left edge of an acknowledgement.
theorem Same.acknowledged (h : Same b b' s s') (hip : SamePacket b b' ip ip')
    (hack : s'.relativeAck ip' = s.relativeAck ip) :
    Same b b' (s.acknowledged ip) (s'.acknowledged ip') := by
  unfold TCPSession.acknowledged announcedWindow
  rw [hip.window, hack]
  exact h.map (fun t => { t with
    mSendWindow := ip.window.setWidth 32 <<< t.mWindowScale.toNat
    mLocalNext := s.relativeAck ip }) (fun _ => rfl) rfl

-- Behind its SYN a session does the same with a packet whose numbers it reads alike.
theorem Same.dispatchFlags (h : Same b b' s s') (hip : SamePacket b b' ip ip')
    (hopen : s.mState ≠ .listen) (hack : ip.UsesAck → s'.relativeAck ip' = s.relativeAck ip)
    (hseq : s.UsesSeq ip → s'.relativeSeq ip' = s.relativeSeq ip) :
    Option.Rel (Same b b') (dispatchFlags ip s) (dispatchFlags ip' s') := by
  have hopen' : s'.mState ≠ .listen := by
    rw [h.state]
    exact hopen
  unfold TCPSession.dispatchFlags
  rw [hip.flag]
  by_cases hsyn : NetCore.hasFlag ip.flag SYN
  · rw [if_pos hsyn, if_pos hsyn, onReceiveSYN, onReceiveSYN, if_pos hopen, if_pos hopen']
    exact .some h.flushBackQueue
  have hsyn' := Bool.eq_false_iff.mpr hsyn
  rw [if_neg hsyn, if_neg hsyn]
  by_cases hfin : NetCore.hasFlag ip.flag FIN
  · rw [if_pos hfin, if_pos hfin]
    exact .some (h.onReceiveFIN (hack ⟨hsyn', .inl hfin⟩) (hseq ⟨hsyn', .inl hfin⟩))
  rw [if_neg hfin, if_neg hfin]
  by_cases hrst : NetCore.hasFlag ip.flag RST
  · rw [if_pos hrst, if_pos hrst]
    exact .some (h.switchState .closed)
  have hrst' := Bool.eq_false_iff.mpr hrst
  have hack := hack ⟨hsyn', .inr hrst'⟩
  have horder : s'.mLocalNext ≤ s'.relativeAck ip' ↔ s.mLocalNext ≤ s.relativeAck ip := by
    rw [h.localNext, hack]
  rw [if_neg hrst, if_neg hrst]
  dsimp only
  by_cases hle : s.mLocalNext ≤ s.relativeAck ip
  · rw [if_pos hle, if_pos (horder.mpr hle)]
    exact (h.acknowledged hip hack).onReceiveACK hip fun hne hstate =>
      hseq ⟨hsyn', .inr ⟨hrst', hne, hstate, hle⟩⟩
  · have hrepeats : s'.relativeAck ip' + 1 = s'.mLocalNext ↔ s.relativeAck ip + 1 = s.mLocalNext := by
      rw [h.localNext, hack]
    have hwindow : Same b b' { s with mSendWindow := announcedWindow ip s.mWindowScale }
        { s' with mSendWindow := announcedWindow ip' s'.mWindowScale } := by
      unfold announcedWindow
      rw [hip.window]
      exact h.map (fun s => { s with
        mSendWindow := ip.window.setWidth 32 <<< s.mWindowScale.toNat }) (fun _ => rfl) rfl
    rw [if_neg hle, if_neg (mt horder.mp hle)]
    by_cases hrepeat : s.relativeAck ip + 1 = s.mLocalNext
    · rw [if_pos hrepeat, if_pos (hrepeats.mpr hrepeat)]
      exact .some (hwindow.map (fun s => { s with mTunnel := ITunnel.keepAlive s.mTunnel })
        (fun _ => rfl) rfl)
    · rw [if_neg hrepeat, if_neg (mt hrepeats.mp hrepeat)]
      exact .some hwindow

theorem Same.accept (h : Same b b' s s') (hip : SamePacket b b' ip ip') (hopen : s.mState ≠ .listen)
    (habove : s.Above (.accept ip)) (habove' : s'.Above (.accept ip')) :
    Option.Rel (Same b b') (s.accept ip) (s'.accept ip') := by
  have huses' : ip.UsesAck → ip'.UsesAck := by
    unfold Packet.UsesAck
    rw [hip.flag]
    exact id
  have hack (huse : ip.UsesAck) : s'.relativeAck ip' = s.relativeAck ip :=
    h.relativeAck hip (habove.1 huse) (habove'.1 (huses' huse))
  have hseq (huse : s.UsesSeq ip) : s'.relativeSeq ip' = s.relativeSeq ip := by
    apply h.relativeSeq hip (habove.2 huse) (habove'.2 _)
    unfold UsesSeq at huse ⊢
    rw [hip.flag, hip.payload, h.state, h.localNext]
    refine ⟨huse.1, huse.2.imp_right fun ⟨hrst, hne, hstate, hle⟩ => ⟨hrst, hne, hstate, ?_⟩⟩
    rw [hack ⟨huse.1, .inr hrst⟩]
    exact hle
  have hcounted := h.countAccepted hip.payload
  obtain ⟨total, trace, heq⟩ := s.countAccepted_eq ip
  obtain ⟨total', trace', heq'⟩ := s'.countAccepted_eq ip'
  have hrel : Option.Rel (Same b b') (TCPSession.dispatchFlags ip (s.countAccepted ip))
      (TCPSession.dispatchFlags ip' (s'.countAccepted ip')) := by
    rw [heq, heq'] at hcounted ⊢
    exact hcounted.dispatchFlags hip hopen hack hseq
  unfold TCPSession.accept
  generalize TCPSession.dispatchFlags ip (s.countAccepted ip) = r at hrel ⊢
  generalize TCPSession.dispatchFlags ip' (s'.countAccepted ip') = r' at hrel ⊢
  cases hrel with
  | none => exact .none
  | some hsame => exact .some hsame.noteTime

-- One step from either base.
theorem Same.step (h : Same b b' s s') (hopen : s.mState ≠ .listen) {e e' : Event τ}
    (he : SameEvent b b' e e') (habove : s.Above e) (habove' : s'.Above e') :
    Option.Rel (Same b b') (s.step e) (s'.step e') := by
  cases he with
  | accept hip => exact h.accept hip hopen habove habove'
  | tunnelConnected => exact .some h
  | tunnelDisconnected reason => exact .some (h.onTunnelDisconnected reason)
  | tunnelWritable => exact .some h.onTunnelWritable
  | tunnelDataBack data => exact .some (h.onTunnelDataBack data)
  | written i n => exact .some (h.written i n)
  | environment tunnel now rand rand' =>
    obtain ⟨p, hp, rfl⟩ := h
    exact .some ⟨{ p with rand := rand' },
      ⟨hp.bases, hp.bases', hp.back, hp.forward, hp.packages⟩, rfl⟩

/-! ## The SYN -/

omit [ITunnel τ] in
def negotiated (ip : Packet) (s : TCPSession τ) : TCPSession τ :=
  { s with
    mSack := s.mSack || (match scanOptions ip optSACKF with | .found _ => true | _ => false)
    mMSS := match scanOptions ip optMSS with | .found a => byteAt a 3 ++ byteAt a 2 | _ => s.mMSS
    mWindowScale := match scanOptions ip optWS with | .found a => byteAt a 2 | _ => s.mWindowScale }

omit [ITunnel τ] in
def SynSpins (ip : Packet) : Prop :=
  scanOptions ip optSACKF = .spins ∨ scanOptions ip optMSS = .spins ∨ scanOptions ip optWS = .spins

instance (ip : Packet) : Decidable (SynSpins ip) := inferInstanceAs (Decidable (_ ∨ _ ∨ _))

theorem onReceiveSYN_listen (h : s.mState = .listen) (ip : Packet) :
    onReceiveSYN ip s = if SynSpins ip then none else some (handshake ip (s.negotiated ip)) := by
  unfold onReceiveSYN
  rw [if_neg (not_not.mpr h)]
  by_cases hspins : SynSpins ip
  · rw [if_pos hspins]
    unfold SynSpins at hspins
    split
    · rfl
    · rfl
    · rfl
    next hsackf hmss hws =>
      rcases hspins with hspins | hspins | hspins
      · exact absurd hspins hsackf
      · exact absurd hspins hmss
      · exact absurd hspins hws
  · rw [if_neg hspins]
    unfold SynSpins at hspins
    split
    next hscan => exact absurd (.inl hscan) hspins
    next hscan _ => exact absurd (.inr (.inl hscan)) hspins
    next hscan _ _ => exact absurd (.inr (.inr hscan)) hspins
    · rfl

omit [ITunnel τ] in
-- Behind its SYN a session counts from the numbers it has drawn and been told.
theorem Same.synNumbered (h : Same b b' s s') (hback : s.mBackQueue = [])
    (hpackages : packages s.trace = []) (hwindow : ip'.window = ip.window) :
    Same ⟨s.rand, ip.seq⟩ ⟨s'.rand, ip'.seq⟩ (s.synNumbered ip) (s'.synNumbered ip') := by
  obtain ⟨p, hp, rfl⟩ := h
  have hpback := hp.back
  have hppackages := hp.packages
  rw [show s.parts.back = [] from hback] at hpback
  rw [show packages s.parts.trace = [] from hpackages] at hppackages
  refine ⟨{ p with bases := ⟨p.rand, ip'.seq⟩ }, ⟨rfl, rfl, ?_, hp.forward, ?_⟩, ?_⟩
  · show List.Forall₂ _ s.mBackQueue p.back
    rw [hback, List.forall₂_nil_left_iff.mp hpback]
    exact .nil
  · show List.Forall₂ _ (packages s.trace) (packages p.trace)
    rw [hpackages, List.forall₂_nil_left_iff.mp hppackages]
    exact .nil
  · unfold TCPSession.synNumbered announcedWindow
    rw [hwindow]
    rfl

theorem Same.handshake (h : Same b b' s s') (hback : s.mBackQueue = [])
    (hpackages : packages s.trace = []) (hwindow : ip'.window = ip.window) :
    Same ⟨s.rand, ip.seq⟩ ⟨s'.rand, ip'.seq⟩ (handshake ip s) (handshake ip' s') := by
  obtain ⟨hpushed, hsame⟩ :=
    (h.synNumbered hback hpackages hwindow).pushInBackQueue (SYN ||| ACK) []
  unfold TCPSession.handshake
  generalize TCPSession.pushInBackQueue (SYN ||| ACK) [] (s.synNumbered ip) = r at hpushed hsame ⊢
  generalize TCPSession.pushInBackQueue (SYN ||| ACK) [] (s'.synNumbered ip') = r' at hpushed hsame ⊢
  obtain ⟨taken, t⟩ := r
  obtain ⟨taken', t'⟩ := r'
  obtain rfl : taken' = taken := hpushed
  cases taken' with
  | false => exact hsame
  | true => exact hsame.switchState .synRcved

-- A fresh session answers a SYN whose scans end.
theorem Fresh.accept_syn (hfresh : s.Fresh) (hsyn : NetCore.hasFlag ip.flag SYN) :
    s.accept ip =
      if SynSpins ip then none
      else some (TCPSession.handshake ip ((s.countAccepted ip).negotiated ip)).noteTime := by
  have hlisten : (s.countAccepted ip).mState = .listen :=
    (countAccepted_inert ip s).state.trans hfresh.state
  unfold TCPSession.accept TCPSession.dispatchFlags
  rw [if_pos hsyn, onReceiveSYN_listen hlisten]
  split <;> rfl

omit [ITunnel τ] in
theorem countAccepted_rand (ip : Packet) (s : TCPSession τ) : (s.countAccepted ip).rand = s.rand := by
  obtain ⟨total, trace, heq⟩ := s.countAccepted_eq ip
  rw [heq]

omit [ITunnel τ] in
theorem packages_emit (points : List TracePoint) (s : TCPSession τ) :
    packages (s.emit points).trace = packages s.trace ++ packages points := packages_append _ _

omit [ITunnel τ] in
theorem packages_countAccepted (ip : Packet) (s : TCPSession τ) :
    packages (s.countAccepted ip).trace = packages s.trace := by
  unfold TCPSession.countAccepted
  dsimp only
  split
  · rw [packages_emit, packages_emit]
    exact (List.append_nil _).trans (List.append_nil _)
  · rw [packages_emit]
    exact List.append_nil _

omit [ITunnel τ] in
-- Nothing is queued or handed over yet.
theorem Fresh.same (hfresh : s.Fresh) (own : U32) :
    Same s.parts.bases s.parts.bases s { s with rand := own } := by
  refine ⟨{ s.parts with rand := own }, ⟨rfl, rfl, ?_, ?_, ?_⟩, rfl⟩
  · show List.Forall₂ _ s.mBackQueue s.mBackQueue
    rw [hfresh.backQueue]
    exact .nil
  · show List.Forall₂ _ s.mForwardQueue s.mForwardQueue
    rw [hfresh.forwardQueue]
    exact .nil
  · show List.Forall₂ _ (packages s.trace) (packages s.trace)
    rw [hfresh.trace]
    exact .nil

omit [ITunnel τ] in
-- The same is negotiated.
theorem Same.negotiated (h : Same b b' s s') (hip : SameSYN ip ip') :
    Same b b' (s.negotiated ip) (s'.negotiated ip') := by
  have hscan (option : U8) : scanOptions ip' option = scanOptions ip option := by
    rw [hip]
    rfl
  unfold TCPSession.negotiated
  rw [hscan, hscan, hscan]
  exact h.map (TCPSession.negotiated ip) (fun _ => rfl) rfl

-- A fresh session that draws another base, and the SYN that announces another number.
theorem Fresh.accept_same (hfresh : s.Fresh) (hsyn : NetCore.hasFlag ip.flag SYN)
    (hip : SameSYN ip ip') (own : U32) :
    Option.Rel (Same ⟨s.rand, ip.seq⟩ ⟨own, ip'.seq⟩) (s.accept ip)
      (({ s with rand := own } : TCPSession τ).accept ip') := by
  have hfresh' : ({ s with rand := own } : TCPSession τ).Fresh :=
    ⟨hfresh.state, hfresh.forwardQueue, hfresh.backQueue, hfresh.remoteFinished, hfresh.trace⟩
  have hstart := hfresh.same own
  generalize hs' : ({ s with rand := own } : TCPSession τ) = s' at hfresh' hstart ⊢
  obtain rfl : s'.rand = own := by rw [← hs']
  have hsyn' : NetCore.hasFlag ip'.flag SYN := by
    rw [hip]
    exact hsyn
  have hspins : SynSpins ip' ↔ SynSpins ip := by
    rw [hip]
    exact Iff.rfl
  have hpayload : ip'.payload = ip.payload := by rw [hip]
  have hwindow : ip'.window = ip.window := by rw [hip]
  have hback : ((s.countAccepted ip).negotiated ip).mBackQueue = [] :=
    (countAccepted_inert ip s).backQueue.trans hfresh.backQueue
  have hpackages : packages ((s.countAccepted ip).negotiated ip).trace = [] := by
    show packages (s.countAccepted ip).trace = []
    rw [packages_countAccepted, hfresh.trace]
    rfl
  have hsame : Same ⟨(s.countAccepted ip).rand, ip.seq⟩ ⟨(s'.countAccepted ip').rand, ip'.seq⟩ _ _ :=
    ((hstart.countAccepted hpayload).negotiated hip).handshake hback hpackages hwindow
  rw [countAccepted_rand, countAccepted_rand] at hsame
  rw [hfresh.accept_syn hsyn, hfresh'.accept_syn hsyn']
  by_cases hnone : SynSpins ip
  · rw [if_pos hnone, if_pos (hspins.mpr hnone)]
    exact .none
  · rw [if_neg hnone, if_neg (mt hspins.mp hnone)]
    exact .some hsame.noteTime

/-! ## Runs -/

/-- Two runs from a SYN on: every number that is looked at is translated back, and after any number of
    events the sessions are the same but for the bases. -/
structure Independent (s s' : TCPSession τ) (ip ip' : Packet) (es es' : List (Event τ)) : Prop where
  translates : Lib.Along step TranslatesBack s (.accept ip :: es)
  translates' : Lib.Along step TranslatesBack s' (.accept ip' :: es')
  same (n : Nat) : Option.Rel (Same ⟨s.rand, ip.seq⟩ ⟨s'.rand, ip'.seq⟩)
    (Lib.run step s (.accept ip :: es.take n)) (Lib.run step s' (.accept ip' :: es'.take n))

-- Behind the SYN the runs stay side by side.
theorem Same.run (h : Same b b' s s') (hopened : s.Opened) {es es' : List (Event τ)}
    (hes : List.Forall₂ (SameEvent b b') es es') (habove : Lib.Along TCPSession.step Above s es)
    (habove' : Lib.Along TCPSession.step Above s' es') (n : Nat) :
    Option.Rel (Same b b') (Lib.run TCPSession.step s (es.take n))
      (Lib.run TCPSession.step s' (es'.take n)) := by
  have hopen : Lib.Along TCPSession.step (fun s e => s.Above e ∧ s.mState ≠ .listen) s es :=
    Lib.Along.mono_of_invariant Opened (fun _ _ _ => step_opened)
      (fun _ _ hopened habove => ⟨habove, hopened.2⟩) hopened habove
  apply Lib.Along.lockstep (Same b b') (SameEvent b b') _ h hes hopen habove' n
  intro s s' e e' hsame he habove habove'
  exact hsame.step habove.2 he habove.1 habove'

/-- The runs are independent of the initial numbers exactly if every number that is looked at, in
    either run, is above its base. -/
theorem independent_iff (hfresh : s.Fresh) (hsyn : NetCore.hasFlag ip.flag SYN) (hip : SameSYN ip ip')
    (own : U32) {es es' : List (Event τ)}
    (hes : List.Forall₂ (SameEvent ⟨s.rand, ip.seq⟩ ⟨own, ip'.seq⟩) es es') :
    Independent s { s with rand := own } ip ip' es es' ↔
      Lib.Along step Above s (.accept ip :: es) ∧
        Lib.Along step Above { s with rand := own } (.accept ip' :: es') := by
  constructor
  · intro h
    exact ⟨h.translates.mono fun s e => (s.translatesBack_iff e).mp,
      h.translates'.mono fun s e => (s.translatesBack_iff e).mp⟩
  · rintro ⟨habove, habove'⟩
    refine ⟨habove.mono fun s e => (s.translatesBack_iff e).mpr,
      habove'.mono fun s e => (s.translatesBack_iff e).mpr, fun n => ?_⟩
    apply Lib.run_cons_rel (hfresh.accept_same hsyn hip own)
    intro t t' ht ht' hsame
    have hborn : t.Born := ⟨s, ip, hfresh, hsyn, ht⟩
    exact hsame.run hborn.newborn.opened hes (habove.tail ht) (habove'.tail ht') n

/-! ## A script from several bases -/

-- A byte from the application, three from the remote, and the acknowledgement of these.
def sampleScript (own remote : U32) : List (Event TCPTunnel) :=
  [.accept (samplePacket (remote + 1) (own + 1) ACK [7] one_fits), .tunnelDataBack [1, 2, 3],
    .accept (samplePacket (remote + 2) (own + 4) ACK [] nothing_fits)]

-- The number a SYN announces is all it says.
def announcing (remote : U32) : Packet := samplePacket remote 0 SYN [] nothing_fits

def drawing (own : U32) : TCPSession TCPTunnel := { sampleInit sampleTunnel 1000 with rand := own }

theorem sampleScript_same (b b' : Bases) :
    List.Forall₂ (SameEvent b b') (sampleScript b.own b.remote) (sampleScript b'.own b'.remote) := by
  have hback (x y z : U32) : x + z - x = y + z - y := by bv_omega
  exact .cons (.accept ⟨hback _ _ 1, hback _ _ 1, rfl, rfl, .refl _ _, rfl, rfl⟩)
    (.cons (.tunnelDataBack _)
      (.cons (.accept ⟨hback _ _ 2, hback _ _ 4, rfl, rfl, .refl _ _, rfl, rfl⟩) .nil))

theorem announcing_same (remote remote' : U32) :
    SameSYN (announcing remote) (announcing remote') := rfl

theorem independent_sample :
    Independent (drawing 1000) (drawing 5000) (announcing 100) (announcing 7000)
      (sampleScript 1000 100) (sampleScript 5000 7000) :=
  (independent_iff (s := drawing 1000) (init_fresh _ _ _ _ _ _ _ _) (by decide)
    (announcing_same 100 7000) 5000 (sampleScript_same ⟨1000, 100⟩ ⟨5000, 7000⟩)).mpr (by decide)

/-- Counted from the last number there is, the first acknowledgement is 0 on the wire and is taken for
    the number before it. -/
theorem not_independent_at_wrap :
    (∃ t, Lib.run step (drawing 1000)
        (.accept (announcing 100) :: (sampleScript 1000 100).take 1) = some t ∧ t.mLocalNext = 1) ∧
      (∃ t, Lib.run step (drawing 0xFFFFFFFF)
        (.accept (announcing 100) :: (sampleScript 0xFFFFFFFF 100).take 1) = some t ∧
          t.mLocalNext = 0) ∧
      ¬ Independent (drawing 1000) (drawing 0xFFFFFFFF) (announcing 100) (announcing 100)
        (sampleScript 1000 100) (sampleScript 0xFFFFFFFF 100) := by
  have hfirst : ∃ t, Lib.run step (drawing 1000)
      (.accept (announcing 100) :: (sampleScript 1000 100).take 1) = some t ∧ t.mLocalNext = 1 :=
    Lib.run_reaches (by decide)
  have hsecond : ∃ t, Lib.run step (drawing 0xFFFFFFFF)
      (.accept (announcing 100) :: (sampleScript 0xFFFFFFFF 100).take 1) = some t ∧
        t.mLocalNext = 0 := Lib.run_reaches (by decide)
  refine ⟨hfirst, hsecond, fun h => ?_⟩
  obtain ⟨t, ht, hnext⟩ := hfirst
  obtain ⟨t', ht', hnext'⟩ := hsecond
  have hsame := h.same 1
  rw [ht, ht'] at hsame
  cases hsame with
  | some hsame =>
    have heq := hsame.localNext
    rw [hnext, hnext'] at heq
    exact absurd heq (by decide)

end TCPSession
end NetCore
