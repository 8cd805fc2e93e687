import NetCore.Lib.Outbox
import NetCore.Router.Wakeup

/-!
# What comes out of the tun

The router is a stream of packets: the segments of `mData` are the packets that wait, and what
`write` has taken is their bytes in the order in which they were handed over, no packet inside
another.  Only `safeReleaseSegment` cuts a packet short, and what is captured is the packets that
left whole.
-/

namespace NetCore

open Lib (Outbox Parcel)

def RouterPoint.bytesOut : RouterPoint → List Bytes
  | .wrote _ data => [data]
  | _ => []

def RouterPoint.packetSeen : RouterPoint → List Bytes
  | .captured data => [data]
  | _ => []

def RouterPoint.queues : RouterPoint → Bool
  | .queued _ _ => true
  | _ => false

/-- The segment is the packet as it waits: marked as it came, advanced by what is out. -/
structure BufferSegment.StandsFor (segment : BufferSegment) (x : Parcel U8 Bool) : Prop where
  marked : segment.rewind.readable = x.items
  left : segment.readable = x.left
  needCapture : segment.needCapture = x.label

namespace Router

variable {r r' : Router} {p q : Nat} {segment : BufferSegment} {rest released : List Nat}
  {o : Outbox U8 Bool} {x : Parcel U8 Bool}

/-- The bytes of each `write` that took some. -/
def writesMade (r : Router) : List Bytes := r.trace.flatMap RouterPoint.bytesOut

def written (r : Router) : Bytes := r.writesMade.flatten

def capturedPackets (r : Router) : List Bytes := r.trace.flatMap RouterPoint.packetSeen

/-- The packet a step hands over, and whether it is to be captured. -/
def handing (r : Router) : Event → List (Bytes × Bool)
  | .writePackage p =>
      match r.memory.cells p with
      | none => []
      | some segment =>
          if (r.onSyncEvent p).1 then [(segment.readable, segment.needCapture)] else []
  | _ => []

def handedOver (r : Router) : Nat := r.trace.countP RouterPoint.queues

/-- The place of a waiting packet among all that were handed over. -/
def place (p : Nat) (r : Router) : Nat := r.handedOver - r.mData.length + r.mData.idxOf p

/-- The packet a step releases while it waits. -/
def releasing (r : Router) : Event → List Nat
  | .release p => if p ∈ r.mData then [r.place p] else []
  | _ => []

def Waits (r : Router) (p : Nat) (x : Parcel U8 Bool) : Prop :=
  ∃ segment, r.memory.cells p = some segment ∧ segment.StandsFor x

-- What the router has got and given, as a stream of packets.
structure Streams (r : Router) (o : Outbox U8 Bool) : Prop where
  waits : List.Forall₂ r.Waits r.mData o.waiting
  orderly : o.Orderly
  written : r.written = o.output
  captured : r.capturedPackets = (o.completed.filter fun x => x.label).map Parcel.items

-- The packets cut short are those released while they waited: `released` has their places.
structure Cuts (released : List Nat) (r : Router) (o : Outbox U8 Bool) : Prop where
  count : r.handedOver = o.parcels.length
  gone : ∀ i x, o.gone[i]? = some x → (x.Whole ↔ i ∉ released)
  waiting : ∀ j p segment, r.mData[j]? = some p → r.memory.cells p = some segment →
    (segment.isAbort = true ↔ o.gone.length + j ∈ released)
  bound : ∀ i ∈ released, i < o.parcels.length

theorem writesMade_append {points : List RouterPoint} (h : r'.trace = r.trace ++ points) :
    r'.writesMade = r.writesMade ++ points.flatMap RouterPoint.bytesOut := by
  unfold writesMade
  rw [h, List.flatMap_append]

theorem written_append {points : List RouterPoint} (h : r'.trace = r.trace ++ points) :
    r'.written = r.written ++ (points.flatMap RouterPoint.bytesOut).flatten := by
  unfold written
  rw [writesMade_append h, List.flatten_append]

theorem capturedPackets_append {points : List RouterPoint} (h : r'.trace = r.trace ++ points) :
    r'.capturedPackets = r.capturedPackets ++ points.flatMap RouterPoint.packetSeen := by
  unfold capturedPackets
  rw [h, List.flatMap_append]

theorem handedOver_append {points : List RouterPoint} (h : r'.trace = r.trace ++ points) :
    r'.handedOver = r.handedOver + points.countP RouterPoint.queues := by
  unfold handedOver
  rw [h, List.countP_append]

theorem waits_congr {ps : List Nat} {xs : List (Parcel U8 Bool)} (h : List.Forall₂ r.Waits ps xs)
    (hcells : ∀ p ∈ ps, r'.memory.cells p = r.memory.cells p) : List.Forall₂ r'.Waits ps xs := by
  induction h with
  | nil => exact .nil
  | cons hhead _ ih =>
    obtain ⟨segment, hcell, hstands⟩ := hhead
    refine .cons ⟨segment, (hcells _ List.mem_cons_self).trans hcell, hstands⟩ (ih fun q hq => ?_)
    exact hcells q (List.mem_cons_of_mem _ hq)

-- Every `write` has taken one whole packet.
structure Packetwise (r : Router) (o : Outbox U8 Bool) : Prop where
  writes : r.writesMade = o.completed.map Parcel.items
  untouched : ∀ x ∈ o.waiting, x.taken = 0

theorem Packetwise.congr (h : r.Packetwise o) (htrace : r'.trace = r.trace) : r'.Packetwise o := by
  refine ⟨?_, h.untouched⟩
  unfold writesMade
  rw [htrace]
  exact h.writes

-- A step that is not about the segments in the queue.
theorem Streams.congr (h : r.Streams o) (hdata : r'.mData = r.mData)
    (hcells : ∀ p ∈ r.mData, r'.memory.cells p = r.memory.cells p) (htrace : r'.trace = r.trace) :
    r'.Streams o where
  waits := by
    rw [hdata]
    exact waits_congr h.waits hcells
  orderly := h.orderly
  written := by
    unfold Router.written writesMade
    rw [htrace]
    exact h.written
  captured := by
    unfold capturedPackets
    rw [htrace]
    exact h.captured

/-! ## What is cut short -/

theorem Streams.length (h : r.Streams o) : r.mData.length = o.waiting.length := h.waits.length_eq

theorem Cuts.congr (h : r.Cuts released o) (hdata : r'.mData = r.mData)
    (hcells : ∀ p ∈ r.mData, r'.memory.cells p = r.memory.cells p) (htrace : r'.trace = r.trace) :
    r'.Cuts released o where
  count := by
    unfold handedOver
    rw [htrace]
    exact h.count
  gone := h.gone
  waiting j p segment hj hcell := by
    rw [hdata] at hj
    rw [hcells p (List.mem_of_getElem? hj)] at hcell
    exact h.waiting j p segment hj hcell
  bound := h.bound

-- A packet that is handed over comes behind all others, and is not released yet.
theorem Cuts.accepted (h : r.Cuts released o) (hstreams : r.Streams o) (hsound : r.Sound)
    (hcell : r.memory.cells p = some segment) (hbuffering : segment.isBuffering = false)
    (habort : segment.isAbort = false) :
    (r.accepted p segment).requestWrite.Cuts released
      (o.hand segment.readable segment.needCapture) := by
  obtain ⟨hdata, hmemory, htrace⟩ := requestWrite_eq (r.accepted p segment)
  have hpoints : (r.accepted p segment).requestWrite.trace =
      r.trace ++ [.queued p segment.readable] := htrace
  have hlength : (o.hand segment.readable segment.needCapture).parcels.length =
      o.parcels.length + 1 := by
    simp [Outbox.hand, Outbox.parcels, Nat.add_assoc]
  refine ⟨?_, h.gone, fun j q other hj hother => ?_, fun i hi => ?_⟩
  · rw [handedOver_append hpoints, hlength, h.count]
    rfl
  · rw [hdata] at hj
    rw [hmemory] at hother
    replace hj : (r.mData ++ [p])[j]? = some q := hj
    replace hother : (r.memory.modify p .hold).cells q = some other := hother
    by_cases hlt : j < r.mData.length
    · rw [List.getElem?_append_left hlt] at hj
      have hne : q ≠ p := by
        rintro rfl
        have hheld := ((hsound.fits q).buffering hcell).mpr (List.mem_of_getElem? hj)
        rw [hbuffering] at hheld
        cases hheld
      rw [Lib.Heap.modify_of_ne hne] at hother
      exact h.waiting j q other hj hother
    · rw [List.getElem?_append_right (by omega), List.getElem?_singleton] at hj
      split at hj
      next hzero =>
        cases hj
        rw [Lib.Heap.modify_self hcell] at hother
        cases hother
        have hnew : o.gone.length + j ∉ released := by
          intro hmem
          have hlt' := h.bound _ hmem
          rw [Outbox.length_parcels, ← hstreams.length] at hlt'
          omega
        refine iff_of_false ?_ hnew
        show ¬ segment.isAbort = true
        rw [habort]
        exact Bool.false_ne_true
      next => cases hj
  · rw [hlength]
    exact Nat.lt_succ_of_lt (h.bound i hi)

theorem Cuts.place (h : r.Cuts released o) (hstreams : r.Streams o) (p : Nat) :
    r.place p = o.gone.length + r.mData.idxOf p := by
  have hcount := h.count
  rw [Outbox.length_parcels, ← hstreams.length] at hcount
  unfold Router.place
  omega

-- Whoever releases a waiting packet cuts it short.
theorem Cuts.safeRelease (h : r.Cuts released o) (hstreams : r.Streams o) (hsound : r.Sound)
    (p : Nat) : (r.safeRelease p).Cuts (released ++ r.releasing (.release p)) o := by
  have hplace := h.place hstreams p
  have hdata : (r.safeRelease p).mData = r.mData := by
    unfold Router.safeRelease
    split <;> rfl
  have htrace : (r.safeRelease p).trace = r.trace := by
    unfold Router.safeRelease
    split <;> rfl
  by_cases hmem : p ∈ r.mData
  · have hreleasing : r.releasing (.release p) = [o.gone.length + r.mData.idxOf p] := by
      rw [releasing, if_pos hmem, hplace]
    obtain ⟨segment, hcell⟩ := ((hsound.fits p).held hmem).cell
    have hbuffering := ((hsound.fits p).buffering hcell).mpr hmem
    have hmemory : (r.safeRelease p).memory = r.memory.modify p .abort := by
      unfold Router.safeRelease
      rw [hcell]
      simp only [hbuffering, if_true]
      rfl
    have hidx := List.idxOf_lt_length_iff.mpr hmem
    rw [hreleasing]
    refine ⟨?_, fun i x hx => ?_, fun j q other hj hother => ?_, fun i hi => ?_⟩
    · unfold handedOver
      rw [htrace]
      exact h.count
    · -- the packets that are gone stand before it
      have hlt := (List.getElem?_eq_some_iff.mp hx).1
      rw [h.gone i x hx, List.mem_append, List.mem_singleton, not_or]
      exact (and_iff_left (by omega)).symm
    · rw [hdata] at hj
      rw [hmemory] at hother
      rw [List.mem_append, List.mem_singleton]
      obtain ⟨hlt, hq⟩ := List.getElem?_eq_some_iff.mp hj
      by_cases hqp : q = p
      · subst hqp
        rw [Lib.Heap.modify_self hcell] at hother
        cases hother
        refine iff_of_true rfl (.inr ?_)
        rw [← hq, hsound.nodup.idxOf_getElem]
      · rw [Lib.Heap.modify_of_ne hqp] at hother
        rw [h.waiting j q other hj hother]
        refine (or_iff_left fun heq => hqp ?_).symm
        have hj' : r.mData.idxOf p = j := by omega
        rw [← hq, ← List.getElem_idxOf hidx]
        congr 1
        exact hj'.symm
    · rcases List.mem_append.mp hi with hi | hi
      · exact h.bound i hi
      · rw [List.mem_singleton.mp hi, Outbox.length_parcels, ← hstreams.length]
        omega
  · have hreleasing : r.releasing (.release p) = [] := by rw [releasing, if_neg hmem]
    rw [hreleasing, List.append_nil]
    refine h.congr hdata (fun q hq => ?_) htrace
    have hne : q ≠ p := ne_of_mem_of_not_mem hq hmem
    unfold Router.safeRelease
    cases hcell : r.memory.cells p with
    | none => rfl
    | some segment =>
      show ((if segment.isBuffering then Lib.Heap.modify p .abort else .free p) r.memory).cells q = _
      split
      · exact Lib.Heap.modify_of_ne hne
      · exact Lib.Heap.free_of_ne hne

/-! ## Handing over and releasing -/

theorem Streams.build (h : r.Streams o) (hsound : r.Sound) (segment : BufferSegment) :
    (r.build segment).Streams o :=
  h.congr rfl (fun _ hq => Lib.Heap.alloc_of_live ((hsound.fits _).held hq)) rfl

-- The segment is marked where it starts, and nothing of it is out.
theorem standsFor_hold (segment : BufferSegment) :
    segment.hold.StandsFor { items := segment.readable, label := segment.needCapture } :=
  ⟨rfl, rfl, rfl⟩

theorem Streams.accepted (h : r.Streams o) (hsound : r.Sound)
    (hcell : r.memory.cells p = some segment) (hbuffering : segment.isBuffering = false) :
    (r.accepted p segment).requestWrite.Streams (o.hand segment.readable segment.needCapture) := by
  obtain ⟨hdata, hmemory, htrace⟩ := requestWrite_eq (r.accepted p segment)
  have hout : ∀ q ∈ r.mData, q ≠ p := by
    rintro q hq rfl
    have hheld := ((hsound.fits q).buffering hcell).mpr hq
    rw [hbuffering] at hheld
    cases hheld
  have hself : (r.accepted p segment).memory.cells p = some segment.hold :=
    Lib.Heap.modify_self hcell
  have hpoints : (r.accepted p segment).requestWrite.trace =
      r.trace ++ [.queued p segment.readable] := htrace
  refine ⟨?_, h.orderly.hand _ _, ?_, ?_⟩
  · rw [hdata]
    refine List.rel_append (waits_congr h.waits fun q hq => ?_) (.cons ⟨_, ?_, standsFor_hold _⟩ .nil)
    · rw [hmemory]
      exact Lib.Heap.modify_of_ne (hout q hq)
    · rw [hmemory]
      exact hself
  · rw [written_append hpoints, Outbox.output_hand, h.written]
    exact List.append_nil _
  · rw [capturedPackets_append hpoints, Outbox.completed_hand, h.captured]
    exact List.append_nil _

theorem Packetwise.accepted (h : r.Packetwise o) (p : Nat) (segment : BufferSegment) :
    (r.accepted p segment).requestWrite.Packetwise (o.hand segment.readable segment.needCapture) := by
  obtain ⟨-, -, htrace⟩ := requestWrite_eq (r.accepted p segment)
  have hpoints : (r.accepted p segment).requestWrite.trace =
      r.trace ++ [.queued p segment.readable] := htrace
  refine ⟨?_, fun x hx => ?_⟩
  · rw [writesMade_append hpoints, Outbox.completed_hand, h.writes]
    exact List.append_nil _
  · rcases List.mem_append.mp hx with hold | hnew
    · exact h.untouched x hold
    · rw [List.mem_singleton.mp hnew]

theorem Streams.fault (h : r.Streams o) (p : Nat) : (r.onMemory (.fault p)).Streams o :=
  h.congr rfl (fun _ _ => rfl) rfl

theorem Streams.onSyncEvent (h : r.Streams o) (hsound : r.Sound) (p : Nat) :
    ∃ o', (r.onSyncEvent p).2.Streams o' ∧ o'.handed = o.handed ++ r.handing (.writePackage p) ∧
      (r.Packetwise o → (r.onSyncEvent p).2.Packetwise o') ∧
      (∀ released, r.Cuts released o → (r.onSyncEvent p).2.Cuts released o') := by
  rcases onSyncEvent_cases p r with
    ⟨hnone, heq⟩ | ⟨segment, hcell, -, hbuffering, habort, heq⟩ | heq
  · refine ⟨o, ?_, ?_, fun hpacketwise => ?_, fun released hcuts => ?_⟩
    · rw [heq]
      exact h.fault p
    · simp [handing, hnone]
    · rw [heq]
      exact hpacketwise.congr rfl
    · rw [heq]
      exact hcuts.congr rfl (fun _ _ => rfl) rfl
  · refine ⟨o.hand segment.readable segment.needCapture, ?_, ?_, fun hpacketwise => ?_,
      fun released hcuts => ?_⟩
    · rw [heq]
      exact h.accepted hsound hcell hbuffering
    · simp [handing, hcell, heq]
    · rw [heq]
      exact hpacketwise.accepted p segment
    · rw [heq]
      exact hcuts.accepted h hsound hcell hbuffering habort
  · refine ⟨o, ?_, ?_, fun hpacketwise => ?_, fun released hcuts => ?_⟩
    · rw [heq]
      exact h
    · cases hcell : r.memory.cells p with
      | none => simp [handing, hcell]
      | some segment => simp [handing, hcell, heq]
    · rw [heq]
      exact hpacketwise
    · rw [heq]
      exact hcuts

-- A segment the router holds stays as it is, whatever its builder wants.
theorem Streams.safeRelease (h : r.Streams o) (hsound : r.Sound) (p : Nat) :
    (r.safeRelease p).Streams o := by
  unfold Router.safeRelease
  cases hcell : r.memory.cells p with
  | none => exact h.fault p
  | some segment =>
    show (r.onMemory (if segment.isBuffering then .modify p .abort else .free p)).Streams o
    by_cases hbuffering : segment.isBuffering = true
    · rw [if_pos hbuffering]
      refine ⟨?_, h.orderly, h.written, h.captured⟩
      have hwaits : ∀ q y, r.Waits q y → (r.onMemory (.modify p .abort)).Waits q y := by
        rintro q y ⟨other, hother, hstands⟩
        by_cases hq : q = p
        · subst hq
          cases hcell.symm.trans hother
          exact ⟨_, Lib.Heap.modify_self hcell, hstands.marked, hstands.left, hstands.needCapture⟩
        · exact ⟨other, (Lib.Heap.modify_of_ne hq).trans hother, hstands⟩
      exact h.waits.imp hwaits
    · have hout : p ∉ r.mData := fun hmem => hbuffering (((hsound.fits p).buffering hcell).mpr hmem)
      rw [if_neg hbuffering]
      exact h.congr rfl (fun q hq => Lib.Heap.free_of_ne (ne_of_mem_of_not_mem hq hout)) rfl

/-! ## Writing -/

theorem finish_trace (p : Nat) (segment : BufferSegment) (r : Router) :
    (r.finish p segment).trace =
      r.trace ++ if segment.needCapture then [.captured segment.rewind.readable] else [] := by
  unfold finish
  simp only
  split
  · rfl
  · rw [List.append_nil]
    rfl

theorem standsFor_consumed {n : Nat} (h : segment.StandsFor x) (hle : n ≤ segment.size) :
    (segment.consumed n).StandsFor (x.take n) where
  marked := by
    rw [BufferSegment.rewind_consumed]
    exact h.marked
  left := by
    rw [Parcel.left_take, ← h.left]
    exact Segment.readable_consume hle
  needCapture := h.needCapture

-- What the queue and the stream have in front.
theorem Streams.front (h : r.Streams o) (hdata : r.mData = p :: rest)
    (hcell : r.memory.cells p = some segment) :
    ∃ x xs, o.waiting = x :: xs ∧ segment.StandsFor x ∧ List.Forall₂ r.Waits rest xs := by
  have hwaits := h.waits
  rw [hdata] at hwaits
  cases hwaiting : o.waiting with
  | nil =>
    rw [hwaiting] at hwaits
    cases hwaits
  | cons x xs =>
    rw [hwaiting] at hwaits
    obtain ⟨⟨other, hother, hstands⟩, hrest⟩ := List.forall₂_cons.mp hwaits
    cases hcell.symm.trans hother
    exact ⟨x, xs, rfl, hstands, hrest⟩

-- The segment in front leaves as it is.
theorem Streams.popped {xs : List (Parcel U8 Bool)} (h : r.Streams o) (hdata : r.mData = p :: rest)
    (hwaiting : o.waiting = x :: xs) (hout : p ∉ rest) (hdata' : r'.mData = rest)
    (hothers : ∀ q, q ≠ p → r'.memory.cells q = r.memory.cells q)
    (hwritten : r'.written = r.written)
    (hcaptured : r'.capturedPackets = r.capturedPackets ++
      if x.Whole ∧ x.label then [x.items] else []) : r'.Streams o.leave where
  waits := by
    have hwaits := h.waits
    rw [hdata, hwaiting] at hwaits
    rw [Outbox.leave_cons hwaiting, hdata']
    exact waits_congr (List.forall₂_cons.mp hwaits).2 fun q hq =>
      hothers q (ne_of_mem_of_not_mem hq hout)
  orderly := h.orderly.leave hwaiting
  written := by rw [hwritten, Outbox.output_leave, h.written]
  captured := by
    rw [hcaptured, Outbox.completed_leave hwaiting, h.captured, List.filter_append, List.map_append]
    by_cases hwhole : x.Whole
    · cases hlabel : x.label <;> simp [hwhole, hlabel]
    · simp [hwhole]

-- `write` takes bytes of the front.
theorem Streams.advance {xs : List (Parcel U8 Bool)} (h : r.Streams o) (hsound : r.Sound)
    (hdata : r.mData = p :: rest) (hcell : r.memory.cells p = some segment)
    (hwaiting : o.waiting = x :: xs) (hstands : segment.StandsFor x)
    (hrest : List.Forall₂ r.Waits rest xs) {n : Nat} (hle : n ≤ segment.size) :
    (r.answered.advance p segment n).Streams (o.take n) := by
  have hpoints : (r.answered.advance p segment n).trace =
      r.trace ++ [.wrote p (segment.readable.take n)] := rfl
  obtain ⟨hout, -⟩ := hsound.tail hdata
  refine ⟨?_, h.orderly.take n hwaiting, ?_, ?_⟩
  · show List.Forall₂ _ r.mData _
    rw [hdata, Outbox.take_cons n hwaiting]
    refine .cons ⟨_, advance_cells_self hcell n, standsFor_consumed hstands hle⟩ ?_
    exact waits_congr hrest fun q hq => Lib.Heap.modify_of_ne (ne_of_mem_of_not_mem hq hout)
  · rw [written_append hpoints, Outbox.output_take n h.orderly hwaiting, h.written, hstands.left]
    simp [RouterPoint.bytesOut]
  · rw [capturedPackets_append hpoints, Outbox.completed_take, h.captured]
    exact List.append_nil _

-- The front leaves: it is whole unless its place is one of those released.
theorem Cuts.popped {xs : List (Parcel U8 Bool)} (h : r.Cuts released o)
    (hdata : r.mData = p :: rest) (hwaiting : o.waiting = x :: xs) (hout : p ∉ rest)
    (hwhole : x.Whole ↔ o.gone.length ∉ released) (hdata' : r'.mData = rest)
    (hothers : ∀ q, q ≠ p → r'.memory.cells q = r.memory.cells q)
    (hcount : r'.handedOver = r.handedOver) : r'.Cuts released o.leave := by
  have hparcels : o.leave.parcels = o.parcels := Outbox.parcels_leave o
  have hgone : o.leave.gone = o.gone ++ [x] := by rw [Outbox.leave_cons hwaiting]
  refine ⟨?_, fun i y hy => ?_, fun j q other hj hother => ?_, fun i hi => ?_⟩
  · rw [hcount, hparcels]
    exact h.count
  · rw [hgone] at hy
    by_cases hlt : i < o.gone.length
    · rw [List.getElem?_append_left hlt] at hy
      exact h.gone i y hy
    · rw [List.getElem?_append_right (by omega), List.getElem?_singleton] at hy
      split at hy
      next hzero =>
        cases hy
        rw [hwhole, show i = o.gone.length by omega]
      next => cases hy
  · -- the places behind the front are one nearer
    rw [hdata'] at hj
    rw [hothers q (ne_of_mem_of_not_mem (List.mem_of_getElem? hj) hout)] at hother
    have hj' : r.mData[j + 1]? = some q := by
      rw [hdata]
      exact hj
    rw [h.waiting (j + 1) q other hj' hother, hgone, List.length_append, List.length_singleton,
      Nat.add_assoc, Nat.add_comm j 1]
  · rw [hparcels]
    exact h.bound i hi

theorem Cuts.advance (h : r.Cuts released o) (hcell : r.memory.cells p = some segment) (n : Nat) :
    (r.answered.advance p segment n).Cuts released (o.take n) := by
  have hpoints : (r.answered.advance p segment n).trace =
      r.trace ++ [.wrote p (segment.readable.take n)] := rfl
  have hlength : (o.take n).parcels.length = o.parcels.length := Outbox.length_take n o
  have hgone : (o.take n).gone = o.gone := Outbox.gone_take n o
  refine ⟨?_, fun i y hy => ?_, fun j q other hj hother => ?_, fun i hi => ?_⟩
  · rw [handedOver_append hpoints, hlength]
    exact h.count
  · rw [hgone] at hy
    exact h.gone i y hy
  · rw [hgone]
    by_cases hq : q = p
    · subst hq
      rw [advance_cells_self hcell n] at hother
      cases hother
      exact h.waiting j q segment hj hcell
    · exact h.waiting j q other hj ((Lib.Heap.modify_of_ne hq).symm.trans hother)
  · rw [hlength]
    exact h.bound i hi

-- A parcel with bytes left is not whole.
theorem not_whole_of_left (hstands : segment.StandsFor x) (hsize : 0 < segment.size) :
    ¬ x.Whole := by
  intro hwhole
  have hleft : x.left = [] := List.drop_eq_nil_iff.mpr hwhole
  rw [← hstands.left, ← List.length_eq_zero_iff, Segment.length_readable] at hleft
  omega

theorem whole_take_size (hstands : segment.StandsFor x) : (x.take segment.size).Whole := by
  have hlength := congrArg List.length hstands.left
  rw [Segment.length_readable] at hlength
  unfold Parcel.left at hlength
  rw [List.length_drop] at hlength
  show x.items.length ≤ x.taken + segment.size
  omega

-- The segment is written to the end: what is captured is the whole packet.
theorem finish_points (hstands : segment.StandsFor x) (rest : List Nat) :
    ({ r.answered.advance p segment segment.size with mData := rest }.finish p
        (segment.consumed segment.size)).trace =
      (r.answered.advance p segment segment.size).trace ++
        if x.label then [.captured x.items] else [] := by
  rw [finish_trace, BufferSegment.rewind_consumed, hstands.marked, ← hstands.needCapture]
  rfl

-- A round of the loop, on the stream.
theorem Streams.round (h : r.Streams o) (hsound : r.Sound) (hdata : r.mData = p :: rest)
    (hcell : r.memory.cells p = some segment) (hsize : 0 < segment.size) {out : Bool × Router}
    (hcase : RoundCase p segment rest r out) :
    ∃ o', out.2.Streams o' ∧ o'.handed = o.handed ∧
      ((∀ n, r.writes 0 = .accepted n → n = 0 ∨ segment.size ≤ n) → r.Packetwise o →
        out.2.Packetwise o') ∧ (∀ released, r.Cuts released o → out.2.Cuts released o') := by
  obtain ⟨x, xs, hwaiting, hstands, hrest⟩ := h.front hdata hcell
  obtain ⟨hout, -⟩ := hsound.tail hdata
  have hfront : r.mData[0]? = some p := by rw [hdata, List.getElem?_cons_zero]
  cases hcase with
  | aborted habort =>
    have hpart := not_whole_of_left hstands hsize
    refine ⟨o.leave, ?_, Outbox.handed_leave o, fun _ hpacketwise => ⟨?_, fun y hy => ?_⟩,
      fun released hcuts => ?_⟩
    · refine h.popped hdata hwaiting hout rfl (fun q hq => cells_letGo_of_ne hq) rfl ?_
      rw [if_neg (fun hboth => hpart hboth.1), List.append_nil]
      rfl
    · rw [Outbox.completed_leave hwaiting, if_neg hpart, List.append_nil]
      exact hpacketwise.writes
    · rw [Outbox.leave_cons hwaiting] at hy
      exact hpacketwise.untouched y (hwaiting ▸ List.mem_cons_of_mem x hy)
    · have hreleased := (hcuts.waiting 0 p segment hfront hcell).mp habort
      exact hcuts.popped hdata hwaiting hout (iff_of_false hpart (not_not_intro hreleased)) rfl
        (fun q hq => cells_letGo_of_ne hq) rfl
  | failed habort hanswer =>
    exact ⟨o, h.congr rfl (fun _ _ => rfl) rfl, rfl, fun _ hpacketwise => hpacketwise.congr rfl,
      fun released hcuts => hcuts.congr rfl (fun _ _ => rfl) rfl⟩
  | part n habort hanswer hpos hlt =>
    refine ⟨o.take n, h.advance hsound hdata hcell hwaiting hstands hrest (Nat.le_of_lt hlt),
      Outbox.handed_take n o, fun hwhole => ?_, fun released hcuts => hcuts.advance hcell n⟩
    have hanswered := hwhole n hanswer
    omega
  | whole n habort hanswer hpos hle =>
    have hadvanced := h.advance hsound hdata hcell hwaiting hstands hrest (Nat.le_refl segment.size)
    have hwaiting' : (o.take segment.size).waiting = x.take segment.size :: xs := by
      rw [Outbox.take_cons segment.size hwaiting]
    have hwhole := whole_take_size hstands
    have hpoints := finish_points (r := r) (p := p) hstands rest
    have hbytes : (if x.label then [RouterPoint.captured x.items] else []).flatMap
        RouterPoint.bytesOut = [] := by
      cases x.label <;> rfl
    have hothers (q : Nat) (hq : q ≠ p) :
        ({ r.answered.advance p segment segment.size with mData := rest }.finish p
          (segment.consumed segment.size)).memory.cells q =
          (r.answered.advance p segment segment.size).memory.cells q := by
      obtain ⟨points, -, hfinish⟩ := finish_eq p (segment.consumed segment.size)
        { r.answered.advance p segment segment.size with mData := rest }
      rw [hfinish]
      exact (cells_letGo_of_ne hq).trans (Lib.Heap.modify_of_ne hq)
    refine ⟨(o.take segment.size).leave, ?_, ?_, fun _ hpacketwise => ⟨?_, fun y hy => ?_⟩,
      fun released hcuts => ?_⟩
    · refine hadvanced.popped hdata hwaiting' hout mData_finish hothers ?_ ?_
      · rw [written_append hpoints, hbytes, List.flatten_nil, List.append_nil]
      · rw [capturedPackets_append hpoints]
        congr 1
        cases hlabel : x.label with
        | true =>
          rw [if_pos rfl, if_pos ⟨hwhole, hlabel⟩]
          rfl
        | false =>
          rw [if_neg Bool.false_ne_true, if_neg fun hboth => ?_]
          · rfl
          · exact Bool.false_ne_true (hlabel.symm.trans hboth.2)
    · rw [Outbox.handed_leave, Outbox.handed_take]
    · have htaken : x.taken = 0 :=
        hpacketwise.untouched x (hwaiting ▸ List.mem_cons_self)
      have hall : segment.readable.take segment.size = x.items := by
        rw [← Segment.length_readable, List.take_length, hstands.left, Parcel.left, htaken,
          List.drop_zero]
      have hwrote : (r.answered.advance p segment segment.size).writesMade =
          r.writesMade ++ [x.items] := by
        have hwrite : (r.answered.advance p segment segment.size).trace =
            r.trace ++ [.wrote p (segment.readable.take segment.size)] := rfl
        rw [← hall, writesMade_append hwrite]
        rfl
      rw [writesMade_append hpoints, hbytes, List.append_nil, hwrote, hpacketwise.writes,
        Outbox.completed_leave hwaiting', Outbox.completed_take, if_pos hwhole, List.map_append]
      rfl
    · rw [Outbox.leave_cons hwaiting'] at hy
      exact hpacketwise.untouched y (hwaiting ▸ List.mem_cons_of_mem x hy)
    · have hreleased : (o.take segment.size).gone.length ∉ released := by
        rw [Outbox.gone_take]
        intro hmem
        have haborted := (hcuts.waiting 0 p segment hfront hcell).mpr hmem
        exact Bool.false_ne_true (habort.symm.trans haborted)
      have hcount : ((if x.label then [RouterPoint.captured x.items] else []).countP
          RouterPoint.queues) = 0 := by
        cases x.label <;> rfl
      refine (hcuts.advance hcell segment.size).popped hdata hwaiting' hout
        (iff_of_true hwhole hreleased) mData_finish hothers ?_
      rw [handedOver_append hpoints, hcount, Nat.add_zero]

/-! ## The loop and the steps -/

/-- The largest packet the tun carries. -/
def MTU : Nat := 65535

/-- The tun takes whole packets: a `write` takes nothing or all of the packet. -/
def TakesWhole (writes : Nat → SendOutcome) : Prop :=
  ∀ k n, writes k = .accepted n → n = 0 ∨ MTU ≤ n

-- A round uses up an answer or none.
theorem round_writes {out : Bool × Router} (hcase : RoundCase p segment rest r out) :
    ∃ d, ∀ k, out.2.writes k = r.writes (k + d) := by
  cases hcase with
  | aborted habort => exact ⟨0, fun _ => rfl⟩
  | failed habort hanswer => exact ⟨1, fun _ => rfl⟩
  | part n habort hanswer hpos hlt => exact ⟨1, fun _ => rfl⟩
  | whole n habort hanswer hpos hle =>
    refine ⟨1, fun k => ?_⟩
    rw [writes_finish]
    rfl

theorem TakesWhole.round (h : TakesWhole r.writes) {out : Bool × Router}
    (hcase : RoundCase p segment rest r out) : TakesWhole out.2.writes := by
  obtain ⟨d, hwrites⟩ := round_writes hcase
  intro k n hanswer
  rw [hwrites] at hanswer
  exact h (k + d) n hanswer

-- The front is one of the packets that came.
theorem front_fits (hfits : ∀ y ∈ o.handed, y.1.length ≤ MTU) {xs : List (Parcel U8 Bool)}
    (hwaiting : o.waiting = x :: xs) (hstands : segment.StandsFor x) : segment.size ≤ MTU := by
  have hmem : (x.items, x.label) ∈ o.handed := by
    refine List.mem_map.mpr ⟨x, ?_, rfl⟩
    unfold Outbox.parcels
    rw [hwaiting]
    exact List.mem_append_right _ List.mem_cons_self
  have hlength := hfits _ hmem
  have hsize : segment.size ≤ x.items.length := by
    rw [← Segment.length_readable, hstands.left, Parcel.left, List.length_drop]
    omega
  exact Nat.le_trans hsize hlength

theorem Streams.writeLoop (fuel : Nat) (h : r.Streams o) (hsound : r.Sound) :
    ∃ o', (writeLoop fuel r).Streams o' ∧ o'.handed = o.handed ∧
      (TakesWhole r.writes → (∀ y ∈ o.handed, y.1.length ≤ MTU) → r.Packetwise o →
        (Router.writeLoop fuel r).Packetwise o' ∧ TakesWhole (Router.writeLoop fuel r).writes) ∧
      (∀ released, r.Cuts released o → (Router.writeLoop fuel r).Cuts released o') := by
  induction fuel generalizing r o with
  | zero =>
    exact ⟨o, h, rfl, fun hwhole _ hpacketwise => ⟨hpacketwise, hwhole⟩, fun _ hcuts => hcuts⟩
  | succ fuel ih =>
    cases hdata : r.mData with
    | nil =>
      rw [writeLoop_nil _ hdata]
      exact ⟨o, h, rfl, fun hwhole _ hpacketwise => ⟨hpacketwise, hwhole⟩, fun _ hcuts => hcuts⟩
    | cons p rest =>
      obtain ⟨segment, hcell, -, hsize⟩ := hsound.front hdata
      obtain ⟨x, xs, hwaiting, hstands, -⟩ := h.front hdata hcell
      have hcase : RoundCase p segment rest r (r.writeRound p segment rest) := writeRound_case hsize
      have hkept := hsound.round hdata hcell hcase
      obtain ⟨o₁, hround, hhanded, hpacketwise, hcut⟩ := h.round hsound hdata hcell hsize hcase
      -- an answer that is enough for the largest packet is enough for this one
      have hanswer (hwhole : TakesWhole r.writes) (hfits : ∀ y ∈ o.handed, y.1.length ≤ MTU) (n : Nat)
          (ht : r.writes 0 = .accepted n) : n = 0 ∨ segment.size ≤ n := by
        have hle := front_fits hfits hwaiting hstands
        have hn := hwhole 0 n ht
        omega
      rw [writeLoop_cons fuel hdata hcell]
      split
      · obtain ⟨o', hloop, hhanded', hpacketwise', hcut'⟩ := ih hround hkept.sound
        refine ⟨o', hloop, hhanded'.trans hhanded, fun hwhole hfits hpackets => ?_,
          fun released hcuts => hcut' released (hcut released hcuts)⟩
        exact hpacketwise' (hwhole.round hcase) (hhanded ▸ hfits)
          (hpacketwise (hanswer hwhole hfits) hpackets)
      · refine ⟨o₁, hround, hhanded, fun hwhole hfits hpackets => ?_, hcut⟩
        exact ⟨hpacketwise (hanswer hwhole hfits) hpackets, hwhole.round hcase⟩

theorem Streams.onWritable (h : r.Streams o) (hsound : r.Sound) :
    ∃ o', r.onWritable.Streams o' ∧ o'.handed = o.handed ∧
      (TakesWhole r.writes → (∀ y ∈ o.handed, y.1.length ≤ MTU) → r.Packetwise o →
        r.onWritable.Packetwise o' ∧ TakesWhole r.onWritable.writes) ∧
      (∀ released, r.Cuts released o → r.onWritable.Cuts released o') := by
  obtain ⟨o', hloop, hhanded, hpacketwise, hcut⟩ := h.writeLoop r.writeFuel hsound
  refine ⟨o', hloop.congr rfl (fun _ _ => rfl) rfl, hhanded, fun hwhole hfits hpackets => ?_,
    fun released hcuts => (hcut released hcuts).congr rfl (fun _ _ => rfl) rfl⟩
  obtain ⟨hpackets', hwhole'⟩ := hpacketwise hwhole hfits hpackets
  exact ⟨hpackets'.congr rfl, hwhole'⟩

-- A step takes what is handed over, cuts what is released and keeps the stream.
theorem Streams.step (h : r.Streams o) (hsound : r.Sound) (hcuts : r.Cuts released o) {e : Event}
    (hstep : r.step e = some r') :
    ∃ o', r'.Streams o' ∧ r'.Cuts (released ++ r.releasing e) o' ∧
      o'.handed = o.handed ++ r.handing e := by
  cases e with
  | build segment releaseAfterBuffering needCapture =>
    cases hstep
    refine ⟨o, h.build hsound _, ?_, (List.append_nil _).symm⟩
    show Cuts (released ++ []) _ _
    rw [List.append_nil]
    exact hcuts.congr rfl (fun _ hq => Lib.Heap.alloc_of_live ((hsound.fits _).held hq)) rfl
  | writePackage p =>
    cases hstep
    obtain ⟨o', hstreams, hhanded, -, hcut⟩ := h.onSyncEvent hsound p
    refine ⟨o', hstreams, ?_, hhanded⟩
    show Cuts (released ++ []) _ _
    rw [List.append_nil]
    exact hcut released hcuts
  | writable =>
    cases hstep
    obtain ⟨o', hstreams, hhanded, -, hcut⟩ := h.onWritable hsound
    refine ⟨o', hstreams, ?_, hhanded.trans (List.append_nil _).symm⟩
    show Cuts (released ++ []) _ _
    rw [List.append_nil]
    exact hcut released hcuts
  | release p =>
    cases hstep
    exact ⟨o, h.safeRelease hsound p, hcuts.safeRelease h hsound p, (List.append_nil _).symm⟩
  | reactor call =>
    simp only [Router.step] at hstep
    split at hstep
    · cases hstep
    · cases hstep
      refine ⟨o, h.congr rfl (fun _ _ => rfl) rfl, ?_, (List.append_nil _).symm⟩
      show Cuts (released ++ []) _ _
      rw [List.append_nil]
      exact hcuts.congr rfl (fun _ _ => rfl) rfl
  | environment writes =>
    cases hstep
    refine ⟨o, h.congr rfl (fun _ _ => rfl) rfl, ?_, (List.append_nil _).symm⟩
    show Cuts (released ++ []) _ _
    rw [List.append_nil]
    exact hcuts.congr rfl (fun _ _ => rfl) rfl

theorem Started.streams (h : Started r) : r.Streams {} where
  waits := by
    rw [h.empty]
    exact .nil
  orderly := by simp [Outbox.Orderly]
  written := by
    unfold written writesMade
    rw [h.unwritten]
    rfl
  captured := by
    unfold capturedPackets
    rw [h.unwritten]
    rfl

theorem Started.cuts (h : Started r) : r.Cuts [] {} where
  count := by
    unfold handedOver
    rw [h.unwritten]
    rfl
  gone i x hx := by cases hx
  waiting j p segment hj _ := by
    rw [h.empty] at hj
    cases hj
  bound i hi := by cases hi

/-- The packets handed over in a run are on the tun one behind the other, each with the bytes taken
    of it, those that left whole or were cut short before those that wait; cut short are those
    released while they waited, and no other; the packets that left whole and asked for it are
    captured, in this order. -/
theorem run_streams {es : List Event} (hstart : Started r) (hrun : Lib.run step r es = some r') :
    ∃ o : Outbox U8 Bool, o.handed = Lib.trail step handing r es ∧ r'.written = o.output ∧
      o.Orderly ∧ List.Forall₂ r'.Waits r'.mData o.waiting ∧
      (∀ i x, o.gone[i]? = some x → (x.Whole ↔ i ∉ Lib.trail step releasing r es)) ∧
      r'.capturedPackets = (o.completed.filter fun x => x.label).map Parcel.items := by
  have hstart' : r.Sound ∧ ∃ o, r.Streams o ∧ r.Cuts [] o ∧ o.handed = [] :=
    ⟨hstart.sound, {}, hstart.streams, hstart.cuts, rfl⟩
  have hkept (handed : List (Bytes × Bool)) (released : List Nat) (r : Router) (e : Event)
      (r' : Router) (h : r.Sound ∧ ∃ o, r.Streams o ∧ r.Cuts released o ∧ o.handed = handed)
      (hstep : r.step e = some r') :
      r'.Sound ∧ ∃ o, r'.Streams o ∧ r'.Cuts (released ++ r.releasing e) o ∧
        o.handed = handed ++ r.handing e := by
    obtain ⟨hsound, o, hstreams, hcuts, rfl⟩ := h
    exact ⟨hsound.step hstep, hstreams.step hsound hcuts hstep⟩
  obtain ⟨-, o, hstreams, hcuts, hhanded⟩ := Lib.run_trails _ hkept hstart' hrun
  exact ⟨o, hhanded, hstreams.written, hstreams.orderly, hstreams.waits, hcuts.gone,
    hstreams.captured⟩

-- The kernel takes two bytes, has no room once, and takes all from then on.
def cutWrites : Nat → SendOutcome
  | 0 => .accepted 2
  | 1 => .error EAGAIN
  | _ => .accepted MTU

-- Two packets; the first is released when two of its three bytes are out.
def cutEvents : List Event :=
  [.build (.ofBytes [1, 2, 3]) true true, .build (.ofBytes [4, 5]) true true, .writePackage 0,
    .writePackage 1, .writable, .release 0, .writable]

theorem run_streams_sample :
    ∃ t, Lib.run step (sampleRouter cutWrites) cutEvents = some t ∧ t.written = [1, 2, 4, 5] ∧
      t.capturedPackets = [[4, 5]] ∧
      Lib.trail step releasing (sampleRouter cutWrites) cutEvents = [0] ∧ ∃ o : Outbox U8 Bool,
        o.handed = Lib.trail step handing (sampleRouter cutWrites) cutEvents ∧
        t.written = o.output ∧ o.Orderly ∧ List.Forall₂ t.Waits t.mData o.waiting ∧
        (∀ i x, o.gone[i]? = some x → (x.Whole ↔
          i ∉ Lib.trail step releasing (sampleRouter cutWrites) cutEvents)) ∧
        t.capturedPackets = (o.completed.filter fun x => x.label).map Parcel.items := by
  have hreach : ∃ t, Lib.run step (sampleRouter cutWrites) cutEvents = some t ∧
      t.written = [1, 2, 4, 5] ∧ t.capturedPackets = [[4, 5]] := Lib.run_reaches (by decide)
  obtain ⟨t, hrun, hwritten, hcaptured⟩ := hreach
  exact ⟨t, hrun, hwritten, hcaptured, by decide,
    run_streams (sampleRouter_started cutWrites) hrun⟩

end Router

end NetCore
