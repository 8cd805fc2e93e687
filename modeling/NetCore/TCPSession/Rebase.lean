import Mathlib.Data.List.Forall2
import NetCore.TCPSession.Accept
import NetCore.TCPSession.Drain

/-!
# Sessions that count from other numbers

A session counts from 0 each way and adds a base of 32 bits on the wire.  Two sessions are the same but
for their bases if the packages they have built are the ones a session in one state builds with either
bases, and all else is equal: the counters, the window, the tunnel and what is queued for it.  What a
session does without looking at a packet keeps two such sessions the same.
-/

namespace NetCore

structure Bases where
  own : U32
  remote : U32
deriving DecidableEq

/-- One payload for the tunnel in two runs; the checksum is that of the packet it came in. -/
def SameDatagram (d d' : TCPDatagram) : Prop := d' = { d with mChecksum := d'.mChecksum }

theorem SameDatagram.readable {d d' : TCPDatagram} (h : SameDatagram d d') :
    d'.readable = d.readable := by
  rw [h]

def packages (trace : List TracePoint) : List TCPDatagram :=
  trace.filterMap fun
    | .writePackage d => some d
    | _ => none

structure Parts where
  bases : Bases
  back : List TCPDatagram
  forward : List TCPDatagram
  trace : List TracePoint
  rand : U32

namespace TCPSession

variable {τ : Type}

/-- The session in the same state that counts from other bases. -/
def rebase (b : Bases) (s : TCPSession τ) : TCPSession τ :=
  { s with mLocalSeqBase := b.own, mRemoteSeqBase := b.remote }

def parts (s : TCPSession τ) : Parts where
  bases := ⟨s.mLocalSeqBase, s.mRemoteSeqBase⟩
  back := s.mBackQueue
  forward := s.mForwardQueue
  trace := s.trace
  rand := s.rand

def withParts (p : Parts) (s : TCPSession τ) : TCPSession τ :=
  { s with
    mLocalSeqBase := p.bases.own
    mRemoteSeqBase := p.bases.remote
    mBackQueue := p.back
    mForwardQueue := p.forward
    trace := p.trace
    rand := p.rand }

/-- One segment for the application in two runs: the package that one session builds with either
    bases, read as far and marked alike. -/
structure SameSegment (b b' : Bases) (d d' : TCPDatagram) : Prop where
  package : ∃ (s : TCPSession Unit) (data : Bytes), s.mLocalSeq = d.mSeq ∧ s.mRemoteNext = d.mAck ∧
    d.mData = (s.rebase b).packageBytes d.mFlag data ∧
    d'.mData = (s.rebase b').packageBytes d.mFlag data
  indices : d'.mPos = d.mPos ∧ d'.mLimit = d.mLimit ∧ d'.mMarkPos = d.mMarkPos ∧
    d'.mMarkLimit = d.mMarkLimit
  rest : d' = d.withSegment d'.toSegment

structure SameParts (b b' : Bases) (p p' : Parts) : Prop where
  bases : p.bases = b
  bases' : p'.bases = b'
  back : List.Forall₂ (SameSegment b b') p.back p'.back
  forward : List.Forall₂ SameDatagram p.forward p'.forward
  packages : List.Forall₂ (SameSegment b b') (packages p.trace) (packages p'.trace)

def Same (b b' : Bases) (s s' : TCPSession τ) : Prop :=
  ∃ p, SameParts b b' s.parts p ∧ s' = s.withParts p

variable {b b' : Bases} {s s' : TCPSession τ} {d d' : TCPDatagram}

/-! ## Segments -/

theorem SameSegment.size (h : SameSegment b b' d d') : d'.size = d.size := by
  obtain ⟨hpos, hlimit, -⟩ := h.indices
  unfold Segment.size
  rw [hpos, hlimit]

theorem SameSegment.capacity (h : SameSegment b b' d d') : d'.capacity = d.capacity := by
  obtain ⟨t, data, -, -, hbytes, hbytes'⟩ := h.package
  unfold Segment.capacity
  rw [hbytes, hbytes', length_packageBytes, length_packageBytes]
  rfl

-- What changes the flags, but not the buffer.
theorem SameSegment.flags (h : SameSegment b b' d d') (f : TCPDatagram → TCPDatagram)
    (hbuffer : ∀ d, (f d).toSegment = d.toSegment)
    (hnumbers : ∀ d, (f d).mSeq = d.mSeq ∧ (f d).mAck = d.mAck ∧ (f d).mFlag = d.mFlag)
    (hrest : ∀ d seg, f (d.withSegment seg) = (f d).withSegment seg) :
    SameSegment b b' (f d) (f d') where
  package := by
    obtain ⟨hseq, hack, hflag⟩ := hnumbers d
    rw [hseq, hack, hflag, hbuffer, hbuffer]
    exact h.package
  indices := by
    rw [hbuffer, hbuffer]
    exact h.indices
  rest := by
    rw [hbuffer, ← hrest, ← h.rest]

-- The fields the session reads.
theorem SameSegment.fields (h : SameSegment b b' d d') :
    d'.mSeq = d.mSeq ∧ d'.mFlag = d.mFlag ∧ d'.mLength = d.mLength ∧ d'.mRetry = d.mRetry ∧
      d'.isBuffering = d.isBuffering ∧ d'.isAbort = d.isAbort ∧ d'.mACKed = d.mACKed := by
  rw [h.rest]
  exact ⟨rfl, rfl, rfl, rfl, rfl, rfl, rfl⟩

-- Another buffer over the same bytes.
theorem SameSegment.withSegment (h : SameSegment b b' d d') {seg seg' : Segment}
    (hbytes : seg.mData = d.mData) (hbytes' : seg'.mData = d'.mData)
    (hindices : seg'.mPos = seg.mPos ∧ seg'.mLimit = seg.mLimit ∧ seg'.mMarkPos = seg.mMarkPos ∧
      seg'.mMarkLimit = seg.mMarkLimit) :
    SameSegment b b' (d.withSegment seg) (d'.withSegment seg') where
  package := by
    show ∃ (s : TCPSession Unit) (data : Bytes), s.mLocalSeq = d.mSeq ∧ s.mRemoteNext = d.mAck ∧
      seg.mData = (s.rebase b).packageBytes d.mFlag data ∧
      seg'.mData = (s.rebase b').packageBytes d.mFlag data
    rw [hbytes, hbytes']
    exact h.package
  indices := hindices
  rest := by
    show d'.withSegment seg' = d.withSegment seg'
    rw [h.rest]
    rfl

theorem SameSegment.retried (h : SameSegment b b' d d') :
    SameSegment b b' { d with mRetry := d.mRetry + 1 } { d' with mRetry := d'.mRetry + 1 } :=
  h.flags (fun d => { d with mRetry := d.mRetry + 1 }) (fun _ => rfl) (fun _ => ⟨rfl, rfl, rfl⟩)
    fun _ _ => rfl

theorem SameSegment.buffering (h : SameSegment b b' d d') (held : Bool) :
    SameSegment b b' { d with isBuffering := held } { d' with isBuffering := held } :=
  h.flags (fun d => { d with isBuffering := held }) (fun _ => rfl) (fun _ => ⟨rfl, rfl, rfl⟩)
    fun _ _ => rfl

theorem SameSegment.handedOver (h : SameSegment b b' d d') :
    SameSegment b b' (handedOver d) (handedOver d') := by
  obtain ⟨hpos, hlimit, -⟩ := h.indices
  have hmarked : SameSegment b b' (({ d with mRetry := d.mRetry + 1 } : TCPDatagram).withSegment d.mark)
      (({ d' with mRetry := d'.mRetry + 1 } : TCPDatagram).withSegment d'.mark) :=
    h.retried.withSegment rfl rfl ⟨hpos, hlimit, hpos, hlimit⟩
  exact hmarked.buffering true

theorem SameSegment.routerWrote (h : SameSegment b b' d d') (n : Nat) :
    SameSegment b b' (routerWrote n d) (routerWrote n d') := by
  obtain ⟨hpos, hlimit, hmark, hmarkLimit⟩ := h.indices
  obtain ⟨-, -, -, -, hheld, -⟩ := h.fields
  have hconsumed : SameSegment b b' (d.withSegment (d.consume n)) (d'.withSegment (d'.consume n)) := by
    have hroom : d'.mPos + n ≤ d'.mLimit ↔ d.mPos + n ≤ d.mLimit := by rw [hpos, hlimit]
    unfold Segment.consume
    by_cases hle : d.mPos + n ≤ d.mLimit
    · rw [dif_pos hle, dif_pos (hroom.mpr hle)]
      exact h.withSegment rfl rfl ⟨congrArg (· + n) hpos, hlimit, hmark, hmarkLimit⟩
    · rw [dif_neg hle, dif_neg (mt hroom.mp hle)]
      exact h.withSegment rfl rfl h.indices
  have hsize : (d'.consume n).size = (d.consume n).size := hconsumed.size
  unfold TCPSession.routerWrote
  rw [hheld]
  dsimp only
  rw [hsize]
  split
  · split
    · obtain ⟨-, -, hmark, hmarkLimit⟩ := hconsumed.indices
      have hresumed : SameSegment b b' (d.withSegment (d.consume n).resume)
          (d'.withSegment (d'.consume n).resume) :=
        hconsumed.withSegment rfl rfl ⟨hmark, hmarkLimit, hmark, hmarkLimit⟩
      exact hresumed.buffering false
    · exact hconsumed
  · exact h

/-! ## Sessions -/

theorem packages_append (points points' : List TracePoint) :
    packages (points ++ points') = packages points ++ packages points' :=
  List.filterMap_append

-- What is done to the parts they have in common.
theorem Same.map (h : Same b b' s s') (f : TCPSession τ → TCPSession τ)
    (hcomm : ∀ p, f (s.withParts p) = (f s).withParts p) (hparts : (f s).parts = s.parts) :
    Same b b' (f s) (f s') := by
  obtain ⟨p, hp, rfl⟩ := h
  rw [← hparts] at hp
  exact ⟨p, hp, hcomm p⟩

theorem Same.emit (h : Same b b' s s') {points points' : List TracePoint}
    (hpoints : List.Forall₂ (SameSegment b b') (packages points) (packages points')) :
    Same b b' (s.emit points) (s'.emit points') := by
  obtain ⟨p, hp, rfl⟩ := h
  refine ⟨{ p with trace := p.trace ++ points' }, ⟨hp.bases, hp.bases', hp.back, hp.forward, ?_⟩, rfl⟩
  show List.Forall₂ _ (packages (s.trace ++ points)) (packages (p.trace ++ points'))
  rw [packages_append, packages_append]
  exact List.rel_append hp.packages hpoints

-- Points that are no packages.
theorem Same.tell (h : Same b b' s s') {points points' : List TracePoint}
    (hpoints : packages points = []) (hpoints' : packages points' = []) :
    Same b b' (s.emit points) (s'.emit points') := by
  apply h.emit
  rw [hpoints, hpoints']
  exact .nil

theorem Same.withBack (h : Same b b' s s') {queue queue' : List TCPDatagram}
    (hqueue : List.Forall₂ (SameSegment b b') queue queue') :
    Same b b' { s with mBackQueue := queue } { s' with mBackQueue := queue' } := by
  obtain ⟨p, hp, rfl⟩ := h
  exact ⟨{ p with back := queue' }, ⟨hp.bases, hp.bases', hqueue, hp.forward, hp.packages⟩, rfl⟩

-- Of the parts a package shows the bases alone.
theorem packageBytes_withParts (p : Parts) (s : TCPSession τ) (flag : U8) (data : Bytes) :
    (s.withParts p).packageBytes flag data =
      (({ s with mTunnel := () } : TCPSession Unit).rebase p.bases).packageBytes flag data := by
  unfold packageBytes tcpChecksum tcpHeader ipHeader ipPseudo packageOptions synOptions
  dsimp only [withParts, rebase]

-- Two datagrams of one session around such packages.
theorem SameSegment.ofPackages {p : Parts} {flag : U8} {data bytes bytes' : Bytes}
    (hbytes : bytes = (({ s with mTunnel := () } : TCPSession Unit).rebase s.parts.bases).packageBytes
      flag data)
    (hbytes' : bytes' = (({ s with mTunnel := () } : TCPSession Unit).rebase p.bases).packageBytes
      flag data)
    (hlength : bytes'.length = bytes.length) :
    SameSegment s.parts.bases p.bases
      { toSegment := Segment.ofBytes bytes, mSeq := s.mLocalSeq, mAck := s.mRemoteNext, mFlag := flag,
        mChecksum := 0, mLength := data.length }
      { toSegment := Segment.ofBytes bytes', mSeq := s.mLocalSeq, mAck := s.mRemoteNext,
        mFlag := flag, mChecksum := 0, mLength := data.length } where
  package := ⟨{ s with mTunnel := () }, data, rfl, rfl, hbytes, hbytes'⟩
  indices := ⟨rfl, hlength, rfl, rfl⟩
  rest := rfl

-- A package built in the same state.
theorem Same.buildPackage (h : Same b b' s s') (flag : U8) (data : Bytes) :
    SameSegment b b' (s.buildPackage flag data) (s'.buildPackage flag data) := by
  obtain ⟨p, hp, rfl⟩ := h
  obtain ⟨rfl, rfl, -⟩ := hp
  have hoptions : (s.withParts p).packageOptions flag = s.packageOptions flag := rfl
  apply SameSegment.ofPackages (packageBytes_withParts s.parts s flag data)
    (packageBytes_withParts p s flag data)
  rw [length_packageBytes, length_packageBytes, hoptions]
  rfl

theorem Same.back (h : Same b b' s s') :
    List.Forall₂ (SameSegment b b') s.mBackQueue s'.mBackQueue := by
  obtain ⟨p, hp, rfl⟩ := h
  exact hp.back

theorem Same.state (h : Same b b' s s') : s'.mState = s.mState := by
  obtain ⟨p, -, rfl⟩ := h
  rfl

theorem Same.backSize (h : Same b b' s s') : s'.mBackQueueDataSize = s.mBackQueueDataSize := by
  obtain ⟨p, -, rfl⟩ := h
  rfl

theorem Same.localNext (h : Same b b' s s') : s'.mLocalNext = s.mLocalNext := by
  obtain ⟨p, -, rfl⟩ := h
  rfl

theorem Same.localSeq (h : Same b b' s s') : s'.mLocalSeq = s.mLocalSeq := by
  obtain ⟨p, -, rfl⟩ := h
  rfl

/-! ## The back queue -/

theorem Same.popSegment (h : Same b b' s s') (hd : SameSegment b b' d d') :
    Same b b' (popSegment d s) (popSegment d' s') := by
  obtain ⟨-, -, hlength, -⟩ := hd.fields
  unfold TCPSession.popSegment safeReleaseSegment
  rw [hlength, hd.capacity]
  apply Same.tell _ rfl rfl
  exact h.map (fun s => { s with
    mTotalBack := s.mTotalBack + BitVec.ofNat 32 d.mLength
    mBackQueueDataSize := s.mBackQueueDataSize - BitVec.ofNat 32 d.capacity }) (fun _ => rfl) rfl

theorem Same.popLoop (h : Same b b' s s') {queue queue' : List TCPDatagram}
    (hqueue : List.Forall₂ (SameSegment b b') queue queue') :
    Same b b' (popLoop queue s) (popLoop queue' s') := by
  induction hqueue generalizing s s' with
  | nil => exact h.withBack .nil
  | @cons d d' queue queue' hd hrest ih =>
    have hpops : popsSegment s'.mLocalNext d' = popsSegment s.mLocalNext d := by
      obtain ⟨hseq, hflag, hlength, hretry, -⟩ := hd.fields
      unfold popsSegment
      rw [h.localNext, hseq, hflag, hlength, hretry]
    rw [TCPSession.popLoop, TCPSession.popLoop, hpops]
    split
    · exact ih (h.popSegment hd)
    · exact h.withBack (.cons hd hrest)

theorem Same.popAcked (h : Same b b' s s') : Same b b' s.popAcked s'.popAcked := h.popLoop h.back

theorem Same.packagePoints (hd : SameSegment b b' d d') :
    List.Forall₂ (SameSegment b b') (packages (packagePoints d s)) (packages (packagePoints d' s')) :=
  .cons hd .nil

theorem Same.sendBackSegment (h : Same b b' s s') (hd : SameSegment b b' d d') :
    (sendBackSegment d' s').1 = (sendBackSegment d s).1 ∧
      SameSegment b b' (sendBackSegment d s).2.1 (sendBackSegment d' s').2.1 ∧
      Same b b' (sendBackSegment d s).2.2 (sendBackSegment d' s').2.2 := by
  obtain ⟨-, -, -, -, hbuffering, habort, -⟩ := hd.fields
  unfold TCPSession.sendBackSegment
  dsimp only
  rw [hd.size, hbuffering, habort]
  split
  · exact ⟨rfl, hd, h⟩
  · split
    · exact ⟨rfl, hd.retried, h⟩
    · have hsize : (handedOver d').size = (handedOver d).size := hd.handedOver.size
      exact ⟨congrArg Int.ofNat hsize, hd.handedOver, h.emit (Same.packagePoints hd.handedOver)⟩

variable [ITunnel τ]

theorem Same.switchState (h : Same b b' s s') (state : TCPState) :
    Same b b' (s.switchState state) (s'.switchState state) := by
  unfold TCPSession.switchState
  rw [h.state]
  split
  · exact h
  · dsimp only
    apply Same.tell _ rfl rfl
    split
    · exact h.map (fun s => ({ s with mState := state } : TCPSession τ).close) (fun _ => rfl) rfl
    · exact h.map (fun s => { s with mState := state }) (fun _ => rfl) rfl

theorem Same.updateWindowSize (h : Same b b' s s') :
    Same b b' s.updateWindowSize s'.updateWindowSize :=
  h.map TCPSession.updateWindowSize (fun _ => rfl) rfl

theorem Same.rstSent (h : Same b b' s s') : Same b b' s.rstSent s'.rstSent := by
  have hback : Same b b' { s.updateWindowSize with mLocalSeq := s.mLocalNext }
      { s'.updateWindowSize with mLocalSeq := s'.mLocalNext } :=
    h.map (fun s => { s.updateWindowSize with mLocalSeq := s.mLocalNext }) (fun _ => rfl) rfl
  have hsegment := (hback.buildPackage (RST ||| ACK) []).flags
    (fun d => { d with releaseAfterBuffering := true }) (fun _ => rfl) (fun _ => ⟨rfl, rfl, rfl⟩)
    fun _ _ => rfl
  exact (hback.emit (Same.packagePoints hsegment.handedOver)).tell rfl rfl

theorem Same.resetConnection (h : Same b b' s s') :
    Same b b' s.resetConnection s'.resetConnection := by
  rw [resetConnection_eq, resetConnection_eq]
  exact h.rstSent.switchState .closed

theorem Same.resumeIfRoom (h : Same b b' s s') : Same b b' s.resumeIfRoom s'.resumeIfRoom := by
  have hsame : s'.mState = .established ∧ s'.mBackQueueDataSize < TCP_SESSION_BUFFER_SIZE >>> 1 ↔
      s.mState = .established ∧ s.mBackQueueDataSize < TCP_SESSION_BUFFER_SIZE >>> 1 := by
    rw [h.state, h.backSize]
  unfold TCPSession.resumeIfRoom
  by_cases hroom : s.mState = .established ∧ s.mBackQueueDataSize < TCP_SESSION_BUFFER_SIZE >>> 1
  · rw [if_pos hroom, if_pos (hsame.mpr hroom)]
    exact h.map (fun s => { s with mTunnel := ITunnel.resumeReceiveData s.mTunnel }) (fun _ => rfl) rfl
  · rw [if_neg hroom, if_neg (mt hsame.mp hroom)]
    exact h

-- The send loop ends alike.
theorem Same.sendLoop (h : Same b b' s s') (limit w : U32) (packet : U8)
    {done done' rest rest' : List TCPDatagram}
    (hdone : List.Forall₂ (SameSegment b b') done done')
    (hrest : List.Forall₂ (SameSegment b b') rest rest') :
    (sendLoop limit w packet done' rest' s').1 = (sendLoop limit w packet done rest s).1 ∧
      Same b b' (sendLoop limit w packet done rest s).2 (sendLoop limit w packet done' rest' s').2 := by
  induction hrest generalizing w packet done done' s s' with
  | nil => exact ⟨rfl, h.withBack hdone⟩
  | @cons d d' rest rest' hd hrest ih =>
    have hqueue : List.Forall₂ (SameSegment b b') (done ++ d :: rest) (done' ++ d' :: rest') :=
      List.rel_append hdone (.cons hd hrest)
    have hflag : d'.hasFlag FIN = d.hasFlag FIN := congrArg (NetCore.hasFlag · FIN) hd.fields.2.1
    obtain ⟨hseq, -, -, -, hbuffering, -, hacked⟩ := hd.fields
    have hsame : w = 0 ∧ s'.mLocalNext < d'.mSeq ↔ w = 0 ∧ s.mLocalNext < d.mSeq := by
      rw [hseq, h.localNext]
    rw [TCPSession.sendLoop, TCPSession.sendLoop, hflag]
    by_cases hfin : 0 < w ∧ d.hasFlag FIN
    · rw [if_pos hfin, if_pos hfin]
      exact ⟨rfl, h.withBack hqueue⟩
    · rw [if_neg hfin, if_neg hfin]
      by_cases hahead : w = 0 ∧ s.mLocalNext < d.mSeq
      · rw [if_pos hahead, if_pos (hsame.mpr hahead)]
        have hreset := (h.withBack hqueue).resetConnection
        dsimp only
        exact ⟨rfl, hreset⟩
      · rw [if_neg hahead, if_neg (mt hsame.mp hahead)]
        dsimp only
        rw [hd.size, hbuffering, hacked]
        split
        · split
          · obtain ⟨hsent, hd', hsame⟩ := h.sendBackSegment hd
            rw [hsent]
            have hsentQueue : List.Forall₂ (SameSegment b b')
                (done ++ (TCPSession.sendBackSegment d s).2.1 :: rest)
                (done' ++ (TCPSession.sendBackSegment d' s').2.1 :: rest') :=
              List.rel_append hdone (.cons hd' hrest)
            split
            · exact ih hsame _ _ (List.rel_append hdone (.cons hd' .nil))
            · exact ⟨rfl, hsame.withBack hsentQueue⟩
          · exact ih h _ _ (List.rel_append hdone (.cons hd .nil))
        · exact ⟨rfl, h.withBack hqueue⟩

theorem Same.sendBackData (h : Same b b' s s') : Same b b' s.sendBackData s'.sendBackData := by
  have hlimit : s'.sendLimit = s.sendLimit := by
    obtain ⟨p, -, rfl⟩ := h
    rfl
  obtain ⟨hend, hsame⟩ := h.sendLoop s.sendLimit 0 0 .nil h.back
  unfold TCPSession.sendBackData
  rw [hlimit]
  generalize TCPSession.sendLoop s.sendLimit 0 0 [] s.mBackQueue s = r at hend hsame ⊢
  generalize TCPSession.sendLoop s.sendLimit 0 0 [] s'.mBackQueue s' = r' at hend hsame ⊢
  obtain ⟨ending, t⟩ := r
  obtain ⟨ending', t'⟩ := r'
  obtain rfl : ending' = ending := hend
  cases ending' with
  | reset => exact hsame
  | finished => exact hsame.resumeIfRoom

theorem Same.newSegment (h : Same b b' s s') (flag : U8) (data : Bytes) :
    SameSegment b b' (s.newSegment flag data) (s'.newSegment flag data) := by
  have hcapture : s'.mCtrlType = s.mCtrlType := by
    obtain ⟨p, -, rfl⟩ := h
    rfl
  have hbuilt := h.updateWindowSize.buildPackage flag data
  unfold TCPSession.newSegment
  rw [hcapture]
  exact hbuilt.flags (fun d => { d with needCapture := s.mCtrlType &&& ctrlCAPTURE != 0 })
    (fun _ => rfl) (fun _ => ⟨rfl, rfl, rfl⟩) fun _ _ => rfl

-- What `enqueueBack` adds to the queue and to the counters.
theorem enqueueBack_eq (flag : U8) (data : Bytes) (s : TCPSession τ) :
    s.enqueueBack flag data =
      ({ ({ s.updateWindowSize with
            mBackQueueDataSize :=
              s.mBackQueueDataSize + BitVec.ofNat 32 (s.newSegment flag data).capacity
            mLocalSeq :=
              if NetCore.hasFlag flag (FIN ||| SYN) then s.mLocalSeq + 1
              else s.mLocalSeq + BitVec.ofNat 32 data.length } : TCPSession τ) with
          mBackQueue := s.mBackQueue ++ [s.newSegment flag data] } : TCPSession τ).emit
        [.pushed (s.newSegment flag data)] := rfl

theorem Same.enqueueBack (h : Same b b' s s') (flag : U8) (data : Bytes) :
    Same b b' (s.enqueueBack flag data) (s'.enqueueBack flag data) := by
  have hsegment := h.newSegment flag data
  have hqueue : List.Forall₂ (SameSegment b b') (s.mBackQueue ++ [s.newSegment flag data])
      (s'.mBackQueue ++ [s'.newSegment flag data]) :=
    List.rel_append h.back (.cons hsegment .nil)
  rw [enqueueBack_eq, enqueueBack_eq, hsegment.capacity]
  generalize (s.newSegment flag data).capacity = size
  apply Same.tell _ rfl rfl
  refine Same.withBack ?_ hqueue
  exact h.map (fun s => { s.updateWindowSize with
    mBackQueueDataSize := s.mBackQueueDataSize + BitVec.ofNat 32 size
    mLocalSeq :=
      if NetCore.hasFlag flag (FIN ||| SYN) then s.mLocalSeq + 1
      else s.mLocalSeq + BitVec.ofNat 32 data.length }) (fun _ => rfl) rfl

omit [ITunnel τ] in
theorem Same.finDue (h : Same b b' s s') : s'.FinDue ↔ s.FinDue := by
  have hempty : s'.mBackQueue = [] ↔ s.mBackQueue = [] := by
    rw [← List.length_eq_zero_iff, ← List.length_eq_zero_iff, h.back.length_eq]
  have hfinished : s'.mRemoteFinished = s.mRemoteFinished := by
    obtain ⟨p, -, rfl⟩ := h
    rfl
  unfold FinDue
  rw [hempty, hfinished, h.state]

theorem Same.leave (h : Same b b' s s') : Same b b' s.leave s'.leave := by
  unfold TCPSession.leave
  rw [h.state]
  exact h.switchState _

theorem Same.flushBackQueue (h : Same b b' s s') :
    Same b b' s.flushBackQueue s'.flushBackQueue := by
  have hpopped := h.popAcked
  have horder : s'.mLocalNext ≤ s'.mLocalSeq ↔ s.mLocalNext ≤ s.mLocalSeq := by
    rw [h.localNext, h.localSeq]
  by_cases hfin : s.popAcked.FinDue
  · by_cases hle : s.mLocalNext ≤ s.mLocalSeq
    · rw [flushBackQueue_fin hfin hle, flushBackQueue_fin (hpopped.finDue.mpr hfin) (horder.mpr hle)]
      exact ((hpopped.enqueueBack (FIN ||| ACK) []).sendBackData).leave
    · have hle' := mt horder.mp hle
      rw [flushBackQueue_fin_refused hfin (by bv_omega),
        flushBackQueue_fin_refused (hpopped.finDue.mpr hfin) (by bv_omega)]
      exact hpopped.tell rfl rfl
  · rw [flushBackQueue_of_not_finDue hfin,
      flushBackQueue_of_not_finDue (mt hpopped.finDue.mp hfin)]
    exact hpopped.sendBackData

theorem Same.pushInBackQueue (h : Same b b' s s') (flag : U8) (data : Bytes) :
    (pushInBackQueue flag data s').1 = (pushInBackQueue flag data s).1 ∧
      Same b b' (pushInBackQueue flag data s).2 (pushInBackQueue flag data s').2 := by
  have horder : s'.mLocalNext ≤ s'.mLocalSeq ↔ s.mLocalNext ≤ s.mLocalSeq := by
    rw [h.localNext, h.localSeq]
  by_cases hle : s.mLocalNext ≤ s.mLocalSeq
  · rw [pushInBackQueue_of_le hle, pushInBackQueue_of_le (horder.mpr hle)]
    exact ⟨rfl, ((h.enqueueBack flag data).popAcked).sendBackData⟩
  · have hle' := mt horder.mp hle
    rw [pushInBackQueue_refused (by bv_omega), pushInBackQueue_refused (by bv_omega)]
    exact ⟨rfl, h.tell rfl rfl⟩

/-! ## The calls of the tunnel -/

theorem Same.onRemoteFinished (h : Same b b' s s') :
    Same b b' s.onRemoteFinished s'.onRemoteFinished := by
  have hfinished : Same b b' { s with mRemoteFinished := true } { s' with mRemoteFinished := true } :=
    h.map (fun s => { s with mRemoteFinished := true }) (fun _ => rfl) rfl
  exact hfinished.flushBackQueue

theorem Same.onTunnelDisconnected (h : Same b b' s s') (reason : U8) :
    Same b b' (s.onTunnelDisconnected reason) (s'.onTunnelDisconnected reason) := by
  unfold TCPSession.onTunnelDisconnected
  rw [h.state]
  split
  · exact h.onRemoteFinished
  · exact h.onRemoteFinished
  · exact h.switchState _
  · exact h.switchState _
  · exact h.switchState _
  · exact h.switchState _
  · exact h.resetConnection

-- The loop of `onTunnelDataBack` pushes as many bytes.
theorem Same.relayLoop (h : Same b b' s s') (fuel : Nat) (data : Bytes) :
    (relayLoop fuel data s').1 = (relayLoop fuel data s).1 ∧
      Same b b' (relayLoop fuel data s).2 (relayLoop fuel data s').2 := by
  induction fuel generalizing data s s' with
  | zero => exact ⟨rfl, h⟩
  | succ fuel ih =>
    obtain ⟨hpushed, hsame⟩ := h.pushInBackQueue ACK (data.take TCP_IP_PAYLOAD_SIZE)
    unfold TCPSession.relayLoop
    split
    · exact ⟨rfl, h⟩
    · generalize TCPSession.pushInBackQueue ACK (data.take TCP_IP_PAYLOAD_SIZE) s = r
        at hpushed hsame ⊢
      generalize TCPSession.pushInBackQueue ACK (data.take TCP_IP_PAYLOAD_SIZE) s' = r'
        at hpushed hsame ⊢
      obtain ⟨taken, t⟩ := r
      obtain ⟨taken', t'⟩ := r'
      obtain rfl : taken' = taken := hpushed
      cases taken' with
      | false => exact ⟨rfl, hsame⟩
      | true =>
        obtain ⟨hcount, hlater⟩ := ih hsame (data.drop TCP_IP_PAYLOAD_SIZE)
        exact ⟨congrArg ((data.take TCP_IP_PAYLOAD_SIZE).length + ·) hcount, hlater⟩

omit [ITunnel τ] in
theorem Same.noteTime (h : Same b b' s s') : Same b b' s.noteTime s'.noteTime :=
  h.map TCPSession.noteTime (fun _ => rfl) rfl

omit [ITunnel τ] in
theorem Same.countRecv (h : Same b b' s s') (i : Nat) : Same b b' (s.countRecv i) (s'.countRecv i) := by
  unfold TCPSession.countRecv
  split
  · apply Same.tell _ rfl rfl
    exact h.map (fun s => { s with mTotalRecv := s.mTotalRecv + BitVec.ofNat 32 i }) (fun _ => rfl) rfl
  · exact h

theorem Same.pauseReceiveData (h : Same b b' s s') :
    Same b b' { s with mTunnel := ITunnel.pauseReceiveData s.mTunnel }
      { s' with mTunnel := ITunnel.pauseReceiveData s'.mTunnel } :=
  h.map (fun s => { s with mTunnel := ITunnel.pauseReceiveData s.mTunnel }) (fun _ => rfl) rfl

theorem Same.pauseIfFull (h : Same b b' s s') : Same b b' s.pauseIfFull s'.pauseIfFull := by
  have hsame : TCP_SESSION_BUFFER_SIZE ≤ s'.mBackQueueDataSize ↔
      TCP_SESSION_BUFFER_SIZE ≤ s.mBackQueueDataSize := by
    rw [h.backSize]
  unfold TCPSession.pauseIfFull
  by_cases hfull : TCP_SESSION_BUFFER_SIZE ≤ s.mBackQueueDataSize
  · rw [if_pos hfull, if_pos (hsame.mpr hfull)]
    exact h.pauseReceiveData
  · rw [if_neg hfull, if_neg (mt hsame.mp hfull)]
    exact h

theorem Same.onTunnelDataBack (h : Same b b' s s') (data : Bytes) :
    Same b b' (s.onTunnelDataBack data) (s'.onTunnelDataBack data) := by
  unfold TCPSession.onTunnelDataBack
  apply Same.noteTime
  split
  · exact h.pauseReceiveData.onRemoteFinished
  · obtain ⟨hcount, hsame⟩ := h.relayLoop data.length data
    dsimp only
    rw [hcount]
    exact (hsame.countRecv _).pauseIfFull

-- The drain loop finds the same payloads.
theorem drainLoop_same (fuel : Nat) {queue queue' : List TCPDatagram}
    (hqueue : List.Forall₂ SameDatagram queue queue') (tunnel : τ) :
    ∃ left, drainLoop fuel queue' tunnel = { drainLoop fuel queue tunnel with queue := left } ∧
      List.Forall₂ SameDatagram (drainLoop fuel queue tunnel).queue left := by
  induction fuel generalizing queue queue' tunnel with
  | zero => exact ⟨queue', rfl, hqueue⟩
  | succ fuel ih =>
    cases hqueue with
    | nil => exact ⟨[], rfl, .nil⟩
    | @cons d d' queue queue' hd hqueue =>
      have hflag : d'.hasFlag PSH = d.hasFlag PSH := by
        rw [hd]
        rfl
      rw [drainLoop_cons, drainLoop_cons, hd.readable, hflag]
      cases ITunnel.sendData tunnel d.readable (!d.hasFlag PSH) with
      | failed reason tunnel => exact ⟨d' :: queue', rfl, .cons hd hqueue⟩
      | sent n tunnel =>
        have hleft : List.Forall₂ SameDatagram (leftOver d n queue) (leftOver d' n queue') := by
          have hconsumed : SameDatagram (d.withSegment (d.consume n)) (d'.withSegment (d'.consume n)) := by
            show d'.withSegment (d'.consume n) = _
            rw [hd]
            rfl
          have hsize : (d'.withSegment (d'.consume n)).size = (d.withSegment (d.consume n)).size := by
            rw [hd]
            rfl
          unfold leftOver
          dsimp only
          rw [hsize]
          split
          · exact hqueue
          · exact .cons hconsumed hqueue
        obtain ⟨left, heq, hsame⟩ := ih hleft tunnel
        dsimp only
        split
        · exact ⟨d' :: queue', rfl, .cons hd hqueue⟩
        · rw [heq]
          exact ⟨left, rfl, hsame⟩

omit [ITunnel τ] in
theorem Same.forward (h : Same b b' s s') :
    List.Forall₂ SameDatagram s.mForwardQueue s'.mForwardQueue := by
  obtain ⟨p, hp, rfl⟩ := h
  exact hp.forward

omit [ITunnel τ] in
theorem length_bytes_same {queue queue' : List TCPDatagram}
    (hqueue : List.Forall₂ SameDatagram queue queue') :
    BufferQueue.bytes queue' = BufferQueue.bytes queue := by
  induction hqueue with
  | nil => rfl
  | @cons d d' queue queue' hd _ ih =>
    rw [BufferQueue.bytes_cons, BufferQueue.bytes_cons, hd.readable, ih]

theorem Same.drain (h : Same b b' s s') :
    ∃ left, drain s'.mForwardQueue s'.mTunnel =
        { drain s.mForwardQueue s.mTunnel with queue := left } ∧
      List.Forall₂ SameDatagram (drain s.mForwardQueue s.mTunnel).queue left := by
  have htunnel : s'.mTunnel = s.mTunnel := by
    obtain ⟨p, -, rfl⟩ := h
    rfl
  unfold TCPSession.drain
  rw [htunnel, length_bytes_same h.forward]
  exact drainLoop_same _ h.forward s.mTunnel

theorem Same.drained (h : Same b b' s s') : Same b b' s.drained s'.drained := by
  obtain ⟨left, heq, hleft⟩ := h.drain
  unfold TCPSession.drained
  dsimp only
  rw [heq]
  apply Same.tell _ rfl rfl
  obtain ⟨p, hp, rfl⟩ := h
  exact ⟨{ p with forward := left }, ⟨hp.bases, hp.bases', hp.back, hleft, hp.packages⟩, rfl⟩

theorem Same.countSent (h : Same b b' s s') (n : Nat) :
    Same b b' (s.countSent n) (s'.countSent n) := by
  unfold TCPSession.countSent
  split
  · apply Same.tell _ rfl rfl
    exact h.map (fun s => { s with
      mTotalSent := s.mTotalSent + BitVec.ofNat 32 n
      mForwardQueueDataSize := s.mForwardQueueDataSize - BitVec.ofNat 32 n }) (fun _ => rfl) rfl
  · exact h.map (fun s => { s with mTunnel := ITunnel.pauseSendData s.mTunnel }) (fun _ => rfl) rfl

theorem Same.onTunnelWritable (h : Same b b' s s') :
    Same b b' s.onTunnelWritable s'.onTunnelWritable := by
  have hempty : s'.mForwardQueue = [] ↔ s.mForwardQueue = [] := by
    rw [← List.length_eq_zero_iff, ← List.length_eq_zero_iff, h.forward.length_eq]
  obtain ⟨left, heq, -⟩ := h.drain
  have hdrained := h.drained
  unfold TCPSession.onTunnelWritable
  by_cases hnone : s.mForwardQueue = []
  · rw [if_pos hnone, if_pos (hempty.mpr hnone)]
    exact h.map (fun s => { s with mTunnel := ITunnel.pauseSendData s.mTunnel }) (fun _ => rfl) rfl
  · rw [if_neg hnone, if_neg (mt hempty.mp hnone)]
    dsimp only
    rw [heq]
    dsimp only
    split
    · exact (hdrained.onTunnelDisconnected _).countSent _
    · exact hdrained.countSent _

omit [ITunnel τ] in
theorem Same.written (h : Same b b' s s') (i n : Nat) :
    Same b b' { s with mBackQueue := s.mBackQueue.modify i (routerWrote n) }
      { s' with mBackQueue := s'.mBackQueue.modify i (routerWrote n) } := by
  apply h.withBack
  have hback := h.back
  generalize s.mBackQueue = queue at hback
  generalize s'.mBackQueue = queue' at hback
  induction hback generalizing i with
  | nil => cases i <;> exact .nil
  | cons hd hrest ih =>
    cases i with
    | zero => exact .cons (hd.routerWrote n) hrest
    | succ i => exact .cons hd (ih i)

end TCPSession
end NetCore
