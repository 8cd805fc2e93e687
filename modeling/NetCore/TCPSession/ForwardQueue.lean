import NetCore.Lib.Ascending
import NetCore.Lib.Serial
import NetCore.TCPSession.Upload

/-!
# The forward queue as a set

`findNotSmaller` compares sequence numbers by the sign of their difference, which is an order only
among numbers that lie within half the circle.  As long as the numbers queued and the one that arrives
do so, the queue ascends, no number is in it twice, and a new one is put where it belongs.
-/

namespace NetCore
namespace TCPSession

open Lib

structure SortedSet (queue : List TCPDatagram) : Prop where
  increasing : queue.Pairwise fun a b => a.compare b < 0
  distinct : (queue.map (·.mSeq)).Nodup

def distance (base : U32) (d : TCPDatagram) : Nat := (d.mSeq - base).toNat

/-- The numbers of the datagrams lie within half the circle from `base` on. -/
def Spanned (base : U32) (queue : List TCPDatagram) : Prop := ∀ d ∈ queue, distance base d < 2 ^ 31

variable {base : U32} {a b d : TCPDatagram} {queue : List TCPDatagram}

/-! ## The comparator within a span -/

theorem compare_eq (ha : distance base a < 2 ^ 31) (hb : distance base b < 2 ^ 31) :
    a.compare b = (distance base a : Int) - distance base b := by
  unfold distance at ha hb
  apply toInt_sub_of_span
  · omega
  · omega

theorem compare_lt_iff (ha : distance base a < 2 ^ 31) (hb : distance base b < 2 ^ 31) :
    a.compare b < 0 ↔ distance base a < distance base b := by
  rw [compare_eq ha hb]
  omega

theorem distance_eq_iff : distance base a = distance base b ↔ a.mSeq = b.mSeq := by
  constructor
  · intro heq
    exact (BitVec.sub_left_inj base).mp (BitVec.eq_of_toNat_eq heq)
  · intro heq
    unfold distance
    rw [heq]

-- Within a span the queue is a sorted set exactly if the distances ascend.
theorem sortedSet_iff (hspan : Spanned base queue) :
    SortedSet queue ↔ Ascending (distance base) queue := by
  constructor
  · intro h
    apply h.increasing.imp_of_mem
    intro a b ha hb hlt
    exact (compare_lt_iff (hspan a ha) (hspan b hb)).mp hlt
  · intro h
    constructor
    · apply List.Pairwise.imp_of_mem _ h
      intro a b ha hb hlt
      exact (compare_lt_iff (hspan a ha) (hspan b hb)).mpr hlt
    · apply List.pairwise_map.mpr
      apply List.Pairwise.imp _ h
      intro a b hlt heq
      exact Nat.ne_of_lt hlt (distance_eq_iff.mpr heq)

-- The code searches the place by the comparator.
theorem findNotSmaller_eq (hd : distance base d < 2 ^ 31) (hspan : Spanned base queue) :
    BufferQueue.findNotSmaller TCPDatagram.compare d queue = placeOf (distance base) d queue := by
  induction queue with
  | nil => rfl
  | cons item queue ih =>
    obtain ⟨hitem, hrest⟩ := List.forall_mem_cons.mp hspan
    have hle : d.compare item ≤ 0 ↔ distance base d ≤ distance base item := by
      rw [compare_eq hd hitem]
      omega
    rw [BufferQueue.findNotSmaller, placeOf, ih hrest]
    simp only [hle]

/-! ## The calls -/

/-- What happens to a session, as far as the queue is concerned. -/
inductive QueueCall (τ : Type) where
  | enqueueIfNeed (ip : Packet)
  | onTunnelWritable
  /-- Anything else, which leaves the queue alone. -/
  | other (t : TCPSession τ)

variable {τ : Type} [ITunnel τ]

def queueCall (s : TCPSession τ) : QueueCall τ → Option (TCPSession τ)
  | .enqueueIfNeed ip => some (enqueueIfNeed ip s).2
  | .onTunnelWritable => some s.onTunnelWritable
  | .other t => some { t with mForwardQueue := s.mForwardQueue }

omit [ITunnel τ] in
/-- The numbers queued and the one that arrives lie within half the circle from `base` on. -/
def SpanFrom (base : U32) (s : TCPSession τ) : QueueCall τ → Prop
  | .enqueueIfNeed ip => Spanned base (s.forwardDatagram ip :: s.mForwardQueue)
  | .onTunnelWritable | .other _ => True

instance (base : U32) (s : TCPSession τ) : (c : QueueCall τ) → Decidable (SpanFrom base s c)
  | .enqueueIfNeed _ => inferInstanceAs (Decidable (∀ _ ∈ _, _))
  | .onTunnelWritable | .other _ => inferInstanceAs (Decidable True)

omit [ITunnel τ] in
/-- A payload that has not been acknowledged and whose number is not in the queue. -/
def New (ip : Packet) (s : TCPSession τ) : Prop :=
  ip.payload ≠ [] ∧ ¬ s.Repeated ip ∧ ∀ d ∈ s.mForwardQueue, d.mSeq ≠ s.relativeSeq ip

omit [ITunnel τ] in
/-- The payload is queued whole, and nothing else changes in the queue. -/
def Inserted (ip : Packet) (s t : TCPSession τ) : Prop :=
  ∃ before after d, s.mForwardQueue = before ++ after ∧ t.mForwardQueue = before ++ d :: after ∧
    d.mSeq = s.relativeSeq ip ∧ d.readable = ip.payload

omit [ITunnel τ] in
def QueueSpec (s t : TCPSession τ) : QueueCall τ → Prop
  | .enqueueIfNeed ip =>
      (s.New ip → Inserted ip s t) ∧ (¬ s.New ip → t.mForwardQueue = s.mForwardQueue)
  | .onTunnelWritable => t.mForwardQueue.map (·.mSeq) <:+ s.mForwardQueue.map (·.mSeq)
  | .other _ => t.mForwardQueue = s.mForwardQueue

omit [ITunnel τ] in
-- Within a span the duplicate test finds a number exactly if it is in the queue.
theorem queuedAlready_iff {s : TCPSession τ} {ip : Packet}
    (hspan : Spanned base (s.forwardDatagram ip :: s.mForwardQueue))
    (hsorted : SortedSet s.mForwardQueue) :
    s.QueuedAlready ip ↔ ∃ d ∈ s.mForwardQueue, d.mSeq = s.relativeSeq ip := by
  obtain ⟨harrives, hqueued⟩ := List.forall_mem_cons.mp hspan
  have hnumber (d : TCPDatagram) :
      d.mSeq = s.relativeSeq ip ↔ distance base d = distance base (s.forwardDatagram ip) :=
    (@distance_eq_iff base d (s.forwardDatagram ip)).symm
  unfold QueuedAlready
  simp only [hnumber]
  rw [findNotSmaller_eq harrives hqueued]
  exact exists_at_place_iff ((sortedSet_iff hqueued).mp hsorted)

omit [ITunnel τ] in
-- Within a span a payload is queued exactly if it is new.
theorem queues_iff_new {s : TCPSession τ} {ip : Packet}
    (hspan : Spanned base (s.forwardDatagram ip :: s.mForwardQueue))
    (hsorted : SortedSet s.mForwardQueue) : s.Queues ip ↔ s.New ip := by
  unfold Queues New
  rw [queuedAlready_iff hspan hsorted]
  simp only [not_exists, not_and, ne_eq]

-- A new datagram keeps the queue a sorted set.
theorem queuedForward_sorted {s : TCPSession τ} {ip : Packet}
    (hspan : Spanned base (s.forwardDatagram ip :: s.mForwardQueue))
    (hsorted : SortedSet s.mForwardQueue) (hnew : s.New ip) :
    SortedSet (s.queuedForward ip).mForwardQueue ∧ Inserted ip s (s.queuedForward ip) := by
  obtain ⟨harrives, hqueued⟩ := List.forall_mem_cons.mp hspan
  have hascending := (sortedSet_iff hqueued).mp hsorted
  have hsame : distance base (s.forwardDatagram ip) = distance base (s.filledDatagram ip) := rfl
  have hkeys : ∀ d ∈ s.mForwardQueue, distance base d ≠ distance base (s.filledDatagram ip) := by
    intro d hd heq
    exact hnew.2.2 d hd (distance_eq_iff.mp heq)
  have hqueue : (s.queuedForward ip).mForwardQueue =
      s.mForwardQueue.take (placeOf (distance base) (s.filledDatagram ip) s.mForwardQueue) ++
        s.filledDatagram ip ::
          s.mForwardQueue.drop (placeOf (distance base) (s.filledDatagram ip) s.mForwardQueue) := by
    show s.mForwardQueue.insertIdx (BufferQueue.findNotSmaller _ _ _) _ = _
    rw [findNotSmaller_eq harrives hqueued, placeOf_congr hsame, insertIdx_placeOf]
  rw [hqueue]
  constructor
  · apply (@sortedSet_iff base _ ?_).mpr (hascending.insert hkeys)
    intro d hd
    rcases List.mem_append.mp hd with hfront | hback
    · exact hqueued d (List.mem_of_mem_take hfront)
    · rcases List.mem_cons.mp hback with rfl | hback
      · exact harrives
      · exact hqueued d (List.mem_of_mem_drop hback)
  · exact ⟨_, _, s.filledDatagram ip, (List.take_append_drop _ _).symm, hqueue, rfl,
      filledDatagram_readable ip s⟩

-- `enqueueIfNeed` inserts what is new, and leaves the queue alone otherwise.
theorem enqueueIfNeed_sorted {s : TCPSession τ} {ip : Packet}
    (hspan : Spanned base (s.forwardDatagram ip :: s.mForwardQueue))
    (hsorted : SortedSet s.mForwardQueue) :
    SortedSet (enqueueIfNeed ip s).2.mForwardQueue ∧
      QueueSpec s (enqueueIfNeed ip s).2 (.enqueueIfNeed ip) := by
  have hqueues := queues_iff_new hspan hsorted
  have hkept {t : TCPSession τ} (hnot : ¬ s.Queues ip) (hsame : t.mForwardQueue = s.mForwardQueue) :
      SortedSet t.mForwardQueue ∧ QueueSpec s t (.enqueueIfNeed ip) := by
    rw [hsame]
    exact ⟨hsorted, fun hnew => absurd (hqueues.mpr hnew) hnot, fun _ => hsame⟩
  rcases enqueueIfNeed_cases ip s with ⟨hempty, heq⟩ | ⟨-, hrepeated, heq⟩ | ⟨-, -, hqueued, heq⟩ |
    ⟨hne, hfresh, hfree, heq⟩ <;> rw [heq]
  · exact hkept (fun h => h.1 hempty) rfl
  · exact hkept (fun h => h.2.1 hrepeated) (pushInBackQueue_frame ACK [] s).forwardQueue
  · exact hkept (fun h => h.2.2 hqueued) rfl
  · have hnew := hqueues.mp ⟨hne, hfresh, hfree⟩
    obtain ⟨hset, hinserted⟩ := queuedForward_sorted hspan hsorted hnew
    exact ⟨hset, fun _ => hinserted, fun hold => absurd hnew hold⟩

/-! ## Pops -/

-- The loop of `onTunnelWritable` takes datagrams off the front; the last of them may keep a part.
theorem drainLoop_seqs (fuel : Nat) (queue : List TCPDatagram) (tunnel : τ) :
    (drainLoop fuel queue tunnel).queue.map (·.mSeq) <:+ queue.map (·.mSeq) := by
  induction fuel generalizing queue tunnel with
  | zero => exact List.suffix_refl _
  | succ fuel ih =>
    cases queue with
    | nil => exact List.suffix_refl _
    | cons segment queue =>
      rw [drainLoop_cons]
      cases ITunnel.sendData tunnel segment.readable (!segment.hasFlag PSH) with
      | failed reason tunnel => exact List.suffix_refl _
      | sent n tunnel =>
        have hleft : (leftOver segment n queue).map (·.mSeq) <:+ (segment :: queue).map (·.mSeq) := by
          unfold leftOver
          dsimp only
          split
          · exact List.suffix_cons _ _
          · exact List.suffix_refl _
        dsimp only
        split
        · exact List.suffix_refl _
        · exact (ih _ tunnel).trans hleft

theorem onTunnelWritable_seqs (s : TCPSession τ) :
    s.onTunnelWritable.mForwardQueue.map (·.mSeq) <:+ s.mForwardQueue.map (·.mSeq) := by
  rcases onTunnelWritable_upload s with hsame | hdrained
  · rw [hsame.forwardQueue]
  · rw [hdrained.forwardQueue]
    exact drainLoop_seqs _ s.mForwardQueue s.mTunnel

-- Only the numbers matter.
theorem SortedSet.of_suffix {queue queue' : List TCPDatagram} (h : SortedSet queue)
    (hsuffix : queue'.map (·.mSeq) <:+ queue.map (·.mSeq)) : SortedSet queue' := by
  constructor
  · have hseqs : (queue.map (·.mSeq)).Pairwise fun a b => (a - b).toInt < 0 :=
      List.pairwise_map.mpr h.increasing
    exact List.pairwise_map.mp (hseqs.sublist hsuffix.sublist)
  · exact h.distinct.sublist hsuffix.sublist

/-! ## Runs -/

-- One call, from a sorted set.
theorem queueCall_sorted {s t : TCPSession τ} {c : QueueCall τ} (hsorted : SortedSet s.mForwardQueue)
    (hspan : ∃ base, SpanFrom base s c) (hstep : queueCall s c = some t) :
    SortedSet t.mForwardQueue ∧ QueueSpec s t c := by
  obtain ⟨base, hspan⟩ := hspan
  cases c with
  | enqueueIfNeed ip =>
    cases hstep
    exact enqueueIfNeed_sorted hspan hsorted
  | onTunnelWritable =>
    cases hstep
    have hseqs := onTunnelWritable_seqs s
    exact ⟨hsorted.of_suffix hseqs, hseqs⟩
  | other t =>
    cases hstep
    exact ⟨hsorted, rfl⟩

/-- In a run whose numbers, queued and arriving, always lie within half the circle (within one span
    all along, or one that moves with them), the queue is a sorted set before and after every call, and
    the call does to it what it should. -/
theorem forwardQueue_sorted {s : TCPSession τ} {calls : List (QueueCall τ)}
    (hsorted : SortedSet s.mForwardQueue)
    (hspan : Along queueCall (fun s c => ∃ base, SpanFrom base s c) s calls) :
    Along queueCall (fun s c => ∀ t, queueCall s c = some t →
      SortedSet s.mForwardQueue ∧ SortedSet t.mForwardQueue ∧ QueueSpec s t c) s calls := by
  apply Along.steps (fun s : TCPSession τ => SortedSet s.mForwardQueue) _ hsorted hspan
  intro s c t hsorted hspan hstep
  obtain ⟨hafter, hspec⟩ := queueCall_sorted hsorted hspan hstep
  exact ⟨hafter, hsorted, hafter, hspec⟩

def arrival (seq : U32) (b : U8) : QueueCall TCPTunnel :=
  .enqueueIfNeed (sampleByte seq b)

-- Two bytes in the wrong order, the first of the stream twice.
def sampleArrivals : List (QueueCall TCPTunnel) :=
  [arrival 102 0x62, arrival 101 0x61, arrival 101 0x63, .onTunnelWritable]

theorem forwardQueue_sorted_sample :
    Along queueCall (fun s c => ∀ t, queueCall s c = some t →
      SortedSet s.mForwardQueue ∧ SortedSet t.mForwardQueue ∧ QueueSpec s t c)
      (sampleBorn sampleTunnel) sampleArrivals := by
  have hempty : (sampleBorn sampleTunnel).mForwardQueue = [] :=
    (sampleBorn_born (by decide)).newborn.forwardQueue
  have hsorted : SortedSet (sampleBorn sampleTunnel).mForwardQueue := by
    rw [hempty]
    exact ⟨List.Pairwise.nil, List.nodup_nil⟩
  have hspan : Along queueCall (SpanFrom 0) (sampleBorn sampleTunnel) sampleArrivals := by decide
  exact forwardQueue_sorted hsorted (hspan.mono fun _ _ hfrom => ⟨0, hfrom⟩)

/-! ## The session -/

-- What `accept` makes of the queue is what `enqueueIfNeed` makes of it, or nothing.
theorem accept_queue {ip : Packet} {s s' : TCPSession τ} (hopened : s.mState ≠ .listen)
    (hstep : accept ip s = some s') :
    s'.mForwardQueue = s.mForwardQueue ∨
      s'.mForwardQueue = (enqueueIfNeed ip s).2.mForwardQueue := by
  by_cases hplain : ip.Plain
  · rcases accept_upload hopened hplain hstep with hsame | ⟨-, hqueues, hsame⟩
    · exact .inl hsame.forwardQueue
    · right
      rcases enqueueIfNeed_cases ip s with ⟨hempty, -⟩ | ⟨-, hrepeated, -⟩ | ⟨-, -, hqueued, -⟩ |
        ⟨-, -, -, heq⟩
      · exact absurd hempty hqueues.1
      · exact absurd hrepeated hqueues.2.1
      · exact absurd hqueued hqueues.2.2
      · rw [heq]
        exact hsame.forwardQueue
  · obtain ⟨t, haccepted, rfl⟩ := accept_accepted hopened hstep
    have hcounted := (countAccepted_frame ip s).forwardQueue
    left
    show t.mForwardQueue = _
    cases haccepted with
    | syn => exact (flushBackQueue_frame _).forwardQueue.trans hcounted
    | fin => exact (onReceiveFIN_frame ip _).forwardQueue.trans hcounted
    | rst => exact (switchState_frame .closed _).forwardQueue.trans hcounted
    | stale _ h => exact absurd h hplain
    | ack h => exact absurd h hplain

omit [ITunnel τ] in
/-- When a packet comes in, its number and those queued lie within half the circle from `base` on. -/
def PacketSpans (base : U32) (s : TCPSession τ) : Event τ → Prop
  | .accept ip => Spanned base (s.forwardDatagram ip :: s.mForwardQueue)
  | _ => True

instance (base : U32) (s : TCPSession τ) : ∀ e, Decidable (s.PacketSpans base e)
  | .accept _ => inferInstanceAs (Decidable (∀ _ ∈ _, _))
  | .tunnelConnected | .tunnelDisconnected _ | .tunnelWritable | .tunnelDataBack _ | .written _ _
  | .environment _ _ _ => inferInstanceAs (Decidable True)

-- Every step of a session that has left LISTEN is a run of these calls.
theorem step_queueCalls {e : Event τ} {s s' : TCPSession τ} (hopened : s.mState ≠ .listen)
    (hstep : step s e = some s') :
    ∃ calls, run queueCall s calls = some s' ∧
      ∀ base, s.PacketSpans base e → Along queueCall (SpanFrom base) s calls := by
  have hother {t : TCPSession τ} (hsame : t.mForwardQueue = s.mForwardQueue) :
      ∃ calls, run queueCall s calls = some t ∧
        ∀ base, s.PacketSpans base e → Along queueCall (SpanFrom base) s calls := by
    refine ⟨[.other t], ?_, fun _ _ => .single trivial⟩
    show some { t with mForwardQueue := s.mForwardQueue } = _
    rw [← hsame]
  cases e with
  | accept ip =>
    rcases accept_queue hopened hstep with hsame | hqueued
    · exact hother hsame
    · refine ⟨[.enqueueIfNeed ip, .other s'], ?_, ?_⟩
      · show some { s' with mForwardQueue := (enqueueIfNeed ip s).2.mForwardQueue } = _
        rw [← hqueued]
      · exact fun base hspan => ⟨hspan, trivial, trivial⟩
  | tunnelWritable =>
    cases hstep
    exact ⟨[.onTunnelWritable], rfl, fun _ _ => .single trivial⟩
  | tunnelConnected =>
    cases hstep
    exact hother rfl
  | tunnelDisconnected reason =>
    cases hstep
    exact hother (onTunnelDisconnected_upload reason s).forwardQueue
  | tunnelDataBack data =>
    cases hstep
    exact hother (onTunnelDataBack_upload data s).forwardQueue
  | written i n =>
    cases hstep
    exact hother rfl
  | environment tunnel now rand =>
    cases hstep
    exact hother rfl

/-- The queue of a session is a sorted set all along, as long as the numbers lie within half the circle
    whenever a packet comes in. -/
theorem run_forwardQueue {s s' : TCPSession τ} {es : List (Event τ)} (hborn : s.Born)
    (hspan : Along step (fun s e => ∃ base, s.PacketSpans base e) s es)
    (hrun : run step s es = some s') : SortedSet s'.mForwardQueue := by
  have hnew := hborn.newborn
  have hstart : s.Opened ∧ SortedSet s.mForwardQueue := by
    rw [hnew.forwardQueue]
    exact ⟨hnew.opened, List.Pairwise.nil, List.nodup_nil⟩
  have hend := hspan.invariant (fun s => s.Opened ∧ SortedSet s.mForwardQueue) ?_ hstart hrun
  · exact hend.2
  · rintro s e t ⟨hopened, hsorted⟩ ⟨base, hspan⟩ hstep
    obtain ⟨calls, hcalls, hspanned⟩ := step_queueCalls hopened.2 hstep
    have hafter := (hspanned base hspan).invariant (fun s => SortedSet s.mForwardQueue)
      (fun s c u hs hfrom hcall => (queueCall_sorted hs ⟨base, hfrom⟩ hcall).1) hsorted hcalls
    exact ⟨step_opened hopened hstep, hafter⟩

-- Four bytes in the wrong order, one of them twice, and a delivery.
def sampleDisorder : List (Event TCPTunnel) :=
  [.accept (sampleByte 103 0x63), .accept (sampleByte 102 0x62), .accept (sampleByte 105 0x65),
    .accept (sampleByte 105 0x65), .accept (sampleByte 104 0x64), .tunnelDataBack [1, 2]]

theorem run_forwardQueue_sample :
    ∃ s' : TCPSession TCPTunnel, Lib.run step (sampleBorn sampleTunnel) sampleDisorder = some s' ∧
      s'.mForwardQueue.map (·.mSeq) = [2, 3, 4, 5] ∧ SortedSet s'.mForwardQueue := by
  have hreach : ∃ s' : TCPSession TCPTunnel,
      Lib.run step (sampleBorn sampleTunnel) sampleDisorder = some s' ∧
        s'.mForwardQueue.map (·.mSeq) = [2, 3, 4, 5] := Lib.run_reaches (by decide)
  obtain ⟨s', hrun, hqueue⟩ := hreach
  have hspan : Along step (PacketSpans 0) (sampleBorn sampleTunnel) sampleDisorder := by decide
  exact ⟨s', hrun, hqueue, run_forwardQueue (sampleBorn_born (by decide))
    (hspan.mono fun _ _ hfrom => ⟨0, hfrom⟩) hrun⟩

end TCPSession

end NetCore
