import NetCore.Lib.Run
import NetCore.UDPSession.Link

/-!
# Datagrams forwarded one to one

What a direct session has sent and what it has queued are together what it has accepted, datagram by
datagram.  A segment of the queue has storage if its datagram has a byte: for an empty one the
constructor allocates nothing, `write` returns the 0 it is compared with, and the segment is queued.
-/

namespace NetCore

def Segment.Allocated (seg : Segment) : Prop := 0 < seg.capacity

instance (seg : Segment) : Decidable seg.Allocated := inferInstanceAs (Decidable (_ < _))

namespace UDPSession

/-- The datagrams of the `sendto` calls of `sendLoop` that do not fail. -/
def sentDatagrams : List Segment → (Nat → SendOutcome) → List Bytes
  | [], _ => []
  | segment :: queue, sends =>
      match sends 0 with
      | .error _ => []
      | .accepted _ => segment.readable :: sentDatagrams queue fun n => sends (n + 1)

def datagrams (queue : List Segment) : List Bytes := queue.map Segment.readable

-- The send loop takes datagrams off the front, and their bytes are what it has sent.
theorem sendLoop_datagrams (queue : List Segment) (sends : Nat → SendOutcome) :
    sentDatagrams queue sends ++ datagrams (sendLoop queue sends).1 = datagrams queue ∧
      (sentDatagrams queue sends).flatten = (sendLoop queue sends).2.1 ∧
      (sendLoop queue sends).1 <:+ queue := by
  induction queue generalizing sends with
  | nil => exact ⟨rfl, rfl, List.suffix_refl _⟩
  | cons segment queue ih =>
    rw [sentDatagrams, sendLoop]
    cases sends 0 with
    | error errno => exact ⟨rfl, rfl, List.suffix_refl _⟩
    | accepted n =>
      obtain ⟨hqueue, hbytes, hsuffix⟩ := ih fun n => sends (n + 1)
      refine ⟨congrArg (segment.readable :: ·) hqueue, ?_, hsuffix.trans (List.suffix_cons _ _)⟩
      rw [List.flatten_cons, hbytes]

def filledSegment (ip : Datagram) : Segment := (Segment.new ip.payload.length).write ip.payload

theorem filledSegment_readable (ip : Datagram) : (filledSegment ip).readable = ip.payload := by
  have hfits := ip.fits
  have hroom : ip.payload.length ≤ (Segment.new ip.payload.length).remain := by
    unfold Segment.remain Segment.capacity Segment.new
    simp only [Nat.sub_zero]
    split
    next houtside =>
      rw [List.length_nil]
      omega
    next => rw [List.length_replicate]
  exact Segment.readable_write_of_le hroom

theorem filledSegment_allocated (ip : Datagram) : (filledSegment ip).Allocated ↔ ip.payload ≠ [] := by
  have hfits := ip.fits
  have hlength : ip.payload ≠ [] ↔ 0 < ip.payload.length := List.length_pos_iff.symm
  rw [Segment.Allocated, filledSegment, Segment.capacity_write, Segment.capacity, Segment.new, hlength]
  dsimp only
  split
  · rw [List.length_nil]
    omega
  · rw [List.length_replicate]

-- A session that is closed takes nothing, an open one queues every payload.
theorem accept_mOutBuffer {τ : Type} [ITunnel τ] (ip : Datagram) (tunnel : Option τ)
    (s : UDPSession) : (s.accept ip tunnel).1.mOutBuffer =
      s.mOutBuffer ++ if s.mAlive then [filledSegment ip] else [] := by
  have hcounted : (s.countAccepted ip).mOutBuffer = s.mOutBuffer := by
    unfold countAccepted
    dsimp only
    split <;> rfl
  have hreactor (f : EpollReactor → EpollReactor) (s : UDPSession) :
      (s.withReactor f).mOutBuffer = s.mOutBuffer := by
    unfold withReactor
    split <;> rfl
  have hwritable : (Segment.new ip.payload.length).writable ip.payload.length = ip.payload.length := by
    have hfits := ip.fits
    unfold Segment.writable Segment.capacity Segment.new
    dsimp only
    rw [Nat.zero_add]
    refine if_neg ?_
    split
    next houtside =>
      rw [List.length_nil]
      omega
    next =>
      rw [List.length_replicate]
      omega
  unfold accept
  cases halive : s.mAlive with
  | false => exact (List.append_nil _).symm
  | true =>
    rw [if_neg Bool.true_eq_false.mp, if_pos hwritable, if_pos rfl]
    dsimp only
    split
    · exact congrArg (· ++ [filledSegment ip]) hcounted
    · refine (hreactor _ _).trans ?_
      exact congrArg (· ++ [filledSegment ip]) hcounted

theorem close_mOutBuffer (s : UDPSession) : s.close.mOutBuffer = s.mOutBuffer := by
  unfold close withReactor
  dsimp only
  split
  · split <;> rfl
  · rfl

theorem onReadable_mOutBuffer (outcome : Option Bytes) (s : UDPSession) :
    (s.onReadable outcome).mOutBuffer = s.mOutBuffer := by
  cases outcome with
  | none => exact s.close_mOutBuffer
  | some received => rfl

theorem onWritable_mOutBuffer (s : UDPSession) :
    s.onWritable.mOutBuffer = (sendLoop s.mOutBuffer s.sends).1 := by
  unfold onWritable
  split
  next hempty =>
    rw [hempty]
    unfold withReactor
    split <;> exact hempty
  next =>
    unfold countSent
    dsimp only
    split <;> rfl

-- A session without a tunnel stays without one.
theorem accept_direct {τ : Type} [ITunnel τ] (ip : Datagram) (s : UDPSession) :
    (s.accept ip (none : Option τ)).2 = none := by
  unfold accept
  split
  · rfl
  · dsimp only
    split
    · split <;> rfl
    · rfl

end UDPSession

namespace UDPLink

variable {τ : Type}

def accepted (w : UDPLink τ) : Event τ → List Bytes
  | .accept ip => if w.session.mAlive then [ip.payload] else []
  | _ => []

def sent (w : UDPLink τ) : Event τ → List Bytes
  | .writable => UDPSession.sentDatagrams w.session.mOutBuffer w.session.sends
  | _ => []

/-- A direct session whose queue has only segments with storage. -/
def Stored (w : UDPLink τ) : Prop := ∀ segment ∈ w.session.mOutBuffer, segment.Allocated

/-- No empty datagram is accepted. -/
def Filled (w : UDPLink τ) : Event τ → Prop
  | .accept ip => w.session.mAlive → ip.payload ≠ []
  | _ => True

variable [ITunnel τ] {w w' : UDPLink τ}

-- What a step does to the queue of a direct session.
theorem step_mOutBuffer {e : Event τ} (hdirect : w.mTunnel = none) (hstep : w.step e = some w') :
    w'.mTunnel = none ∧
      UDPSession.datagrams w.session.mOutBuffer ++ w.accepted e =
        w.sent e ++ UDPSession.datagrams w'.session.mOutBuffer ∧
      (w.Stored → (w'.Stored ↔ w.Filled e)) := by
  have hkept (hsent : w.sent e = []) (haccepted : w.accepted e = []) (hfilled : w.Filled e)
      (hsame : w'.session.mOutBuffer = w.session.mOutBuffer) (hnone : w'.mTunnel = none) :
      w'.mTunnel = none ∧
        UDPSession.datagrams w.session.mOutBuffer ++ w.accepted e =
          w.sent e ++ UDPSession.datagrams w'.session.mOutBuffer ∧
        (w.Stored → (w'.Stored ↔ w.Filled e)) := by
    refine ⟨hnone, ?_, fun hstored => iff_of_true ?_ hfilled⟩
    · rw [hsent, haccepted, hsame, List.append_nil, List.nil_append]
    · unfold Stored
      rw [hsame]
      exact hstored
  cases e with
  | accept ip =>
    cases hstep
    have hqueue := UDPSession.accept_mOutBuffer ip w.mTunnel w.session
    refine ⟨?_, ?_, fun hstored => ?_⟩
    · dsimp only
      rw [hdirect]
      exact UDPSession.accept_direct ip w.session
    · dsimp only
      rw [hqueue, UDPSession.datagrams, UDPSession.datagrams, List.map_append]
      cases halive : w.session.mAlive with
      | true =>
        rw [accepted, halive, if_pos rfl, if_pos rfl, List.map_singleton,
          UDPSession.filledSegment_readable]
        rfl
      | false =>
        rw [accepted, halive, if_neg Bool.false_ne_true, if_neg Bool.false_ne_true]
        rfl
    · unfold Stored Filled
      dsimp only
      rw [hqueue]
      cases halive : w.session.mAlive with
      | true =>
        rw [if_pos rfl, List.forall_mem_append, List.forall_mem_singleton,
          UDPSession.filledSegment_allocated]
        exact ⟨fun h _ => h.2, fun h => ⟨hstored, h rfl⟩⟩
      | false =>
        rw [if_neg Bool.false_ne_true, List.append_nil]
        exact ⟨fun _ h => absurd h Bool.false_ne_true, fun _ => hstored⟩
  | readable outcome =>
    obtain ⟨-, rfl⟩ := onSocket_eq_some hstep
    exact hkept rfl rfl trivial (UDPSession.onReadable_mOutBuffer outcome _) rfl
  | writable =>
    obtain ⟨-, rfl⟩ := onSocket_eq_some hstep
    obtain ⟨hqueue, -, hsuffix⟩ :=
      UDPSession.sendLoop_datagrams w.session.mOutBuffer w.session.sends
    refine ⟨rfl, ?_, fun hstored => iff_of_true ?_ trivial⟩
    · dsimp only
      rw [UDPSession.onWritable_mOutBuffer]
      exact (List.append_nil _).trans hqueue.symm
    · unfold Stored
      dsimp only
      rw [UDPSession.onWritable_mOutBuffer]
      exact fun segment hsegment => hstored segment (hsuffix.subset hsegment)
  | exception =>
    obtain ⟨-, rfl⟩ := onSocket_eq_some hstep
    exact hkept rfl rfl trivial (UDPSession.close_mOutBuffer _) rfl
  | periodicCheck =>
    cases hstep
    refine hkept rfl rfl trivial ?_ hdirect
    show (if w.session.timeout then w.session.close else w.session).mOutBuffer = _
    split
    · exact UDPSession.close_mOutBuffer _
    · rfl
  | environment =>
    cases hstep
    refine hkept rfl rfl trivial rfl ?_
    dsimp only
    rw [hdirect]
    rfl
  | tunnelDataBack data =>
    obtain ⟨tunnel, htunnel, -⟩ := onTunnel_eq_some hstep
    rw [hdirect] at htunnel
    cases htunnel
  | tunnelWritable =>
    obtain ⟨tunnel, htunnel, -⟩ := onTunnel_eq_some (Option.filter_eq_some_iff.mp hstep).1
    rw [hdirect] at htunnel
    cases htunnel
  | tunnelDisconnected reason =>
    obtain ⟨tunnel, htunnel, -⟩ :=
      onTunnel_eq_some (f := fun s tunnel => (s.onTunnelDisconnected reason, tunnel)) hstep
    rw [hdirect] at htunnel
    cases htunnel

/-- What a run of a direct session forwards: every datagram once and in order, and each from storage of
    its own. -/
structure Forwards (w : UDPLink τ) (es : List (Event τ)) (w' : UDPLink τ) : Prop where
  /-- The datagrams sent, then those queued, are those accepted. -/
  order : Lib.trail step sent w es ++ UDPSession.datagrams w'.session.mOutBuffer =
    Lib.trail step accepted w es
  stored : Lib.Along step (fun w e => ∀ w', w.step e = some w' → w'.Stored) w es

-- In every run of a direct session what is accepted goes behind the queue, and what is sent comes from
-- its front.
theorem run_conserves {es : List (Event τ)} (hdirect : w.mTunnel = none)
    (hrun : Lib.run step w es = some w') :
    UDPSession.datagrams w.session.mOutBuffer ++ Lib.trail step accepted w es =
      Lib.trail step sent w es ++ UDPSession.datagrams w'.session.mOutBuffer := by
  induction es generalizing w with
  | nil =>
    cases hrun
    exact List.append_nil _
  | cons e es ih =>
    cases hstep : w.step e with
    | none => simp [Lib.run, hstep] at hrun
    | some u =>
      obtain ⟨hnone, hqueue, -⟩ := step_mOutBuffer hdirect hstep
      rw [Lib.run_cons es hstep] at hrun
      have hrest := ih hnone hrun
      simp only [Lib.trail, hstep]
      rw [← List.append_assoc, hqueue, List.append_assoc, hrest, List.append_assoc]

/-- A run forwards as it should exactly if no datagram that it accepts is empty. -/
theorem run_forwards_iff {es : List (Event τ)} (hdirect : w.mTunnel = none)
    (hempty : w.session.mOutBuffer = []) (hrun : Lib.run step w es = some w') :
    Forwards w es w' ↔ Lib.Along step Filled w es := by
  have hstored : w.Stored := by
    unfold Stored
    rw [hempty]
    exact List.forall_mem_nil _
  have horder := run_conserves hdirect hrun
  rw [hempty] at horder
  have hiff : Lib.Along step (fun w e => ∀ w', w.step e = some w' → w'.Stored) w es ↔
      Lib.Along step Filled w es := by
    refine Lib.Along.leaves_iff (fun w => w.mTunnel = none) Stored
      (fun _ _ _ h hstep => (step_mOutBuffer h hstep).1) ?_ hdirect hstored
    intro u e hnone hu
    cases hstep : u.step e with
    | some u' =>
      have hleaves := (step_mOutBuffer hnone hstep).2.2 hu
      exact ⟨fun h => hleaves.mp (h u' rfl), fun h t ht => by cases ht; exact hleaves.mpr h⟩
    | none =>
      -- every datagram is accepted or refused
      have hfilled : u.Filled e := by
        cases e <;> first | exact trivial | cases hstep
      exact iff_of_true (fun _ ht => by cases ht) hfilled
  exact ⟨fun h => hiff.mp h.stored, fun h => ⟨horder.symm, hiff.mpr h⟩⟩

-- Two datagrams, the first of them sent.
def sampleForward : List (Event TCPTunnel) :=
  [.accept (sampleOctet 0x61), .writable, .accept (sampleOctet 0x62)]

theorem run_forwards_sample : ∃ w', Lib.run step sampleSocket sampleForward = some w' ∧
    (Forwards sampleSocket sampleForward w' ↔ Lib.Along step Filled sampleSocket sampleForward) := by
  have hreach : ∃ w', Lib.run step sampleSocket sampleForward = some w' ∧
      w'.session.mTotalSent = 1 := Lib.run_reaches (by decide)
  obtain ⟨w', hrun, -⟩ := hreach
  exact ⟨w', hrun, run_forwards_iff rfl rfl hrun⟩

/-- An empty datagram is queued in a segment without storage, and sent from it. -/
theorem empty_datagram_unstored :
    ∃ w', Lib.run step sampleSocket [.accept sampleVoid] = some w' ∧
      ¬ Forwards sampleSocket [.accept sampleVoid] w' ∧ w'.sent .writable = [[]] := by
  refine ⟨_, rfl, fun h => ?_, rfl⟩
  have hstored := h.stored.1 _ rfl
  unfold Stored at hstored
  revert hstored
  decide

end UDPLink

end NetCore
