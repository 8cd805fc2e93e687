import NetCore.Router

/-!
# What the router holds

`mData` and the flags of the segments agree, address by address: a segment is in the queue exactly
as long as it is marked as buffered, it is there, it has bytes left, and its marks are those of the
packet that was handed over.  Every operation changes one address, so it keeps the agreement as soon
as it keeps it there.
-/

namespace NetCore

namespace BufferSegment

@[simp] theorem rewind_consumed (n : Nat) (segment : BufferSegment) :
    (segment.consumed n).rewind = segment.rewind := by
  unfold rewind consumed Segment.consume
  split <;> rfl

theorem size_consumed {segment : BufferSegment} {n : Nat} (h : n ≤ segment.size) :
    (segment.consumed n).size = segment.size - n := Segment.size_consume h

-- What a `write` of `n` bytes leaves of a segment that comes back.
def wrote (n : Nat) (segment : BufferSegment) : BufferSegment :=
  if segment.isBuffering then
    if (segment.consumed n).size ≤ 0 then segment.rewind.giveBack else segment.consumed n
  else segment

def wroteAll (ns : List Nat) (segment : BufferSegment) : BufferSegment :=
  ns.foldl (fun segment n => segment.wrote n) segment

theorem wroteAll_append (ns ms : List Nat) (segment : BufferSegment) :
    wroteAll (ns ++ ms) segment = wroteAll ms (wroteAll ns segment) := List.foldl_append

@[simp] theorem releaseAfterBuffering_wrote (n : Nat) (segment : BufferSegment) :
    (segment.wrote n).releaseAfterBuffering = segment.releaseAfterBuffering := by
  unfold wrote
  split
  · split <;> rfl
  · rfl

theorem releaseAfterBuffering_wroteAll (ns : List Nat) (segment : BufferSegment) :
    (wroteAll ns segment).releaseAfterBuffering = segment.releaseAfterBuffering := by
  induction ns generalizing segment with
  | nil => rfl
  | cons n ns ih => exact (ih (segment.wrote n)).trans (releaseAfterBuffering_wrote n segment)

end BufferSegment

namespace Router

-- What the queue, the heap and the trace say about one address.
structure Fits (r : Router) (p : Nat) : Prop where
  held : p ∈ r.mData → r.memory.Live p
  buffering {segment : BufferSegment} :
    r.memory.cells p = some segment → (segment.isBuffering = true ↔ p ∈ r.mData)
  unwritten {segment : BufferSegment} :
    r.memory.cells p = some segment → segment.isBuffering = true → 0 < segment.size
  aborted {segment : BufferSegment} :
    r.memory.cells p = some segment → segment.isAbort = true → segment.releaseAfterBuffering = true
  known {data : Bytes} : .queued p data ∈ r.trace → p < r.memory.next
  whole {segment : BufferSegment} {data : Bytes} :
    r.memory.cells p = some segment → .queued p data ∈ r.trace →
      (if segment.isBuffering then segment.rewind else segment).readable = data

structure Sound (r : Router) : Prop where
  nodup : r.mData.Nodup
  fits : ∀ p, r.Fits p

-- `r'` differs from `r` at the address `p` only.
structure Apart (p : Nat) (r r' : Router) : Prop where
  cells : ∀ q, q ≠ p → r'.memory.cells q = r.memory.cells q
  mData : ∀ q, q ≠ p → (q ∈ r'.mData ↔ q ∈ r.mData)
  trace : ∀ q, q ≠ p → ∀ data, .queued q data ∈ r'.trace → .queued q data ∈ r.trace
  next : r.memory.next ≤ r'.memory.next

variable {r r' : Router} {p q : Nat} {segment : BufferSegment} {rest : List Nat}

theorem Fits.of_cell (hcell : r.memory.cells p = some segment)
    (hbuffering : segment.isBuffering = true ↔ p ∈ r.mData)
    (hunwritten : segment.isBuffering = true → 0 < segment.size)
    (haborted : segment.isAbort = true → segment.releaseAfterBuffering = true)
    (hwhole : ∀ data, .queued p data ∈ r.trace →
      (if segment.isBuffering then segment.rewind else segment).readable = data) : r.Fits p where
  held _ := Lib.Heap.live_of_cell hcell
  buffering h := by
    cases hcell.symm.trans h
    exact hbuffering
  unwritten h := by
    cases hcell.symm.trans h
    exact hunwritten
  aborted h := by
    cases hcell.symm.trans h
    exact haborted
  known _ := (Lib.Heap.live_of_cell hcell).lt
  whole h := by
    cases hcell.symm.trans h
    exact hwhole _

theorem Fits.of_none (hcell : r.memory.cells p = none) (hout : p ∉ r.mData)
    (hknown : ∀ data, .queued p data ∈ r.trace → p < r.memory.next) : r.Fits p where
  held h := absurd h hout
  buffering h := by cases hcell.symm.trans h
  unwritten h := by cases hcell.symm.trans h
  aborted h := by cases hcell.symm.trans h
  known h := hknown _ h
  whole h := by cases hcell.symm.trans h

theorem Fits.apart (h : r.Fits q) (hapart : Apart p r r') (hne : q ≠ p) : r'.Fits q where
  held hmem := by
    have hlive := h.held ((hapart.mData q hne).mp hmem)
    unfold Lib.Heap.Live at hlive ⊢
    rw [hapart.cells q hne]
    exact hlive
  buffering hcell := by
    rw [hapart.cells q hne] at hcell
    rw [hapart.mData q hne]
    exact h.buffering hcell
  unwritten hcell := by
    rw [hapart.cells q hne] at hcell
    exact h.unwritten hcell
  aborted hcell := by
    rw [hapart.cells q hne] at hcell
    exact h.aborted hcell
  known hqueued := Nat.lt_of_lt_of_le (h.known (hapart.trace q hne _ hqueued)) hapart.next
  whole hcell hqueued := by
    rw [hapart.cells q hne] at hcell
    exact h.whole hcell (hapart.trace q hne _ hqueued)

-- An operation on one address is judged there.
theorem Sound.apart (h : r.Sound) (hapart : Apart p r r') (hnodup : r'.mData.Nodup)
    (hfits : r'.Fits p) : r'.Sound where
  nodup := hnodup
  fits q := by
    by_cases hq : q = p
    · subst hq
      exact hfits
    · exact (h.fits q).apart hapart hq

theorem Sound.front (h : r.Sound) (hdata : r.mData = p :: rest) :
    ∃ segment, r.memory.cells p = some segment ∧ segment.isBuffering = true ∧ 0 < segment.size := by
  have hmem : p ∈ r.mData := by rw [hdata]; exact List.mem_cons_self
  obtain ⟨segment, hcell⟩ := ((h.fits p).held hmem).cell
  have hbuffering := ((h.fits p).buffering hcell).mpr hmem
  exact ⟨segment, hcell, hbuffering, (h.fits p).unwritten hcell hbuffering⟩

theorem Sound.tail (h : r.Sound) (hdata : r.mData = p :: rest) : p ∉ rest ∧ rest.Nodup := by
  have hnodup := h.nodup
  rw [hdata] at hnodup
  exact List.nodup_cons.mp hnodup

/-! ## Building, handing over, releasing -/

theorem apart_build (r : Router) (segment : BufferSegment) :
    Apart r.memory.next r (r.build segment) where
  cells _ hq := Lib.Heap.alloc_of_ne hq
  mData _ _ := Iff.rfl
  trace _ _ _ := id
  next := Nat.le_succ _

theorem apart_free (p : Nat) (r : Router) : Apart p r (r.onMemory (.free p)) where
  cells _ hq := Lib.Heap.free_of_ne hq
  mData _ _ := Iff.rfl
  trace _ _ _ := id
  next := Nat.le_of_eq Lib.Heap.next_free.symm

theorem apart_modify (p : Nat) (f : BufferSegment → BufferSegment) (r : Router) :
    Apart p r (r.onMemory (.modify p f)) where
  cells _ hq := Lib.Heap.modify_of_ne hq
  mData _ _ := Iff.rfl
  trace _ _ _ := id
  next := Nat.le_of_eq Lib.Heap.next_modify.symm

theorem Sound.build (h : r.Sound) (hbuffering : segment.isBuffering = false)
    (habort : segment.isAbort = false) : (r.build segment).Sound := by
  have hnew : r.memory.next ∉ r.mData := fun hmem =>
    Lib.Heap.not_live_next ((h.fits _).held hmem)
  have hself : (r.build segment).memory.cells r.memory.next = some segment := Lib.Heap.alloc_self
  have hunknown {data : Bytes} : .queued r.memory.next data ∉ r.trace := fun hqueued =>
    Nat.lt_irrefl _ ((h.fits _).known hqueued)
  refine h.apart (apart_build r segment) h.nodup (Fits.of_cell hself ?_ ?_ ?_ ?_)
  · rw [hbuffering]
    exact iff_of_false (by decide) hnew
  · rw [hbuffering]
    intro hb
    exact absurd hb (by decide)
  · rw [habort]
    intro ha
    exact absurd ha (by decide)
  · intro data hqueued
    exact absurd hqueued hunknown

theorem requestWrite_eq (r : Router) :
    r.requestWrite.mData = r.mData ∧ r.requestWrite.memory = r.memory ∧
      r.requestWrite.trace = r.trace := by
  unfold requestWrite
  split <;> exact ⟨rfl, rfl, rfl⟩

-- The router's reactor is no part of the agreement.
theorem Sound.congr (h : r.Sound) (hdata : r'.mData = r.mData) (hmemory : r'.memory = r.memory)
    (htrace : r'.trace = r.trace) : r'.Sound := by
  refine ⟨by rw [hdata]; exact h.nodup, fun p => ?_⟩
  have hfits := h.fits p
  constructor
  · rw [hdata, hmemory]
    exact hfits.held
  · rw [hdata, hmemory]
    exact hfits.buffering
  · rw [hmemory]
    exact hfits.unwritten
  · rw [hmemory]
    exact hfits.aborted
  · rw [hmemory, htrace]
    exact hfits.known
  · rw [hmemory, htrace]
    exact hfits.whole

def accepted (p : Nat) (segment : BufferSegment) (r : Router) : Router :=
  emit (.queued p segment.readable)
    { r with mData := r.mData ++ [p], memory := r.memory.modify p .hold }

theorem apart_accepted (p : Nat) (segment : BufferSegment) (r : Router) :
    Apart p r (r.accepted p segment) where
  cells _ hq := Lib.Heap.modify_of_ne hq
  mData q hq := by
    show q ∈ r.mData ++ [p] ↔ _
    simp [hq]
  trace q hq data hqueued := by
    rcases List.mem_append.mp hqueued with hold | hnew
    · exact hold
    · simp [hq] at hnew
  next := Nat.le_of_eq Lib.Heap.next_modify.symm

theorem Sound.accepted (h : r.Sound) (hcell : r.memory.cells p = some segment)
    (hsize : 0 < segment.size) (hbuffering : segment.isBuffering = false) :
    (r.accepted p segment).Sound := by
  have hlive := Lib.Heap.live_of_cell hcell
  have hout : p ∉ r.mData := fun hmem => by
    have htrue := ((h.fits p).buffering hcell).mpr hmem
    rw [hbuffering] at htrue
    exact absurd htrue (by decide)
  have hself : (r.accepted p segment).memory.cells p = some segment.hold :=
    Lib.Heap.modify_self hcell
  have hmem : p ∈ (r.accepted p segment).mData := List.mem_append_right _ List.mem_cons_self
  refine h.apart (apart_accepted p segment r) ?_ ?_
  · show (r.mData ++ [p]).Nodup
    rw [List.nodup_append_comm]
    exact List.nodup_cons.mpr ⟨hout, h.nodup⟩
  refine Fits.of_cell hself (iff_of_true rfl hmem) (fun _ => hsize) ?_ ?_
  · have hflag : segment.isAbort = true → segment.releaseAfterBuffering = true :=
      (h.fits p).aborted hcell
    exact hflag
  · intro data hqueued
    show segment.readable = data
    rcases List.mem_append.mp hqueued with hold | hnew
    · have hwhole := (h.fits p).whole hcell hold
      rw [hbuffering, if_neg (by decide)] at hwhole
      exact hwhole
    · simp only [List.mem_singleton, RouterPoint.queued.injEq, true_and] at hnew
      exact hnew.symm

-- What `onSyncEvent` does, from outside.
theorem onSyncEvent_cases (p : Nat) (r : Router) :
    (r.memory.cells p = none ∧ r.onSyncEvent p = (false, r.onMemory (.fault p))) ∨
    (∃ segment, r.memory.cells p = some segment ∧ 0 < segment.size ∧
      segment.isBuffering = false ∧ segment.isAbort = false ∧
      r.onSyncEvent p = (true, (r.accepted p segment).requestWrite)) ∨
    (r.onSyncEvent p = (false, r)) := by
  cases hcell : r.memory.cells p with
  | none =>
    refine Or.inl ⟨rfl, ?_⟩
    unfold onSyncEvent
    rw [hcell]
  | some segment =>
    refine Or.inr ?_
    by_cases htest : 0 < segment.size ∧ segment.isBuffering = false ∧ segment.isAbort = false
    · refine Or.inl ⟨segment, rfl, htest.1, htest.2.1, htest.2.2, ?_⟩
      unfold onSyncEvent
      rw [hcell]
      exact if_pos htest
    · refine Or.inr ?_
      unfold onSyncEvent
      rw [hcell]
      exact if_neg htest

theorem Apart.trans {r'' : Router} (h : Apart p r r') (h' : Apart p r' r'') : Apart p r r'' where
  cells q hq := (h'.cells q hq).trans (h.cells q hq)
  mData q hq := (h'.mData q hq).trans (h.mData q hq)
  trace q hq data hqueued := h.trace q hq data (h'.trace q hq data hqueued)
  next := Nat.le_trans h.next h'.next

-- The segment is taken, and the rest stays as it is.
theorem onSyncEvent_taken (hcell : r.memory.cells p = some segment) (hsize : 0 < segment.size)
    (hbuffering : segment.isBuffering = false) (habort : segment.isAbort = false) :
    Apart p r (r.onSyncEvent p).2 ∧ (r.onSyncEvent p).2.memory.cells p = some segment.hold ∧
      (r.onSyncEvent p).2.mData = r.mData ++ [p] ∧
      (r.onSyncEvent p).2.memory.faults = r.memory.faults ∧
      (r.onSyncEvent p).2.trace = r.trace ++ [.queued p segment.readable] := by
  have htaken : (r.onSyncEvent p).2 = (r.accepted p segment).requestWrite := by
    unfold onSyncEvent
    rw [hcell]
    exact congrArg Prod.snd (if_pos ⟨hsize, hbuffering, habort⟩)
  obtain ⟨hdata, hmemory, htrace⟩ := requestWrite_eq (r.accepted p segment)
  rw [htaken, hdata, hmemory, htrace]
  refine ⟨(apart_accepted p segment r).trans ?_, Lib.Heap.modify_self hcell, rfl,
    Lib.Heap.faults_modify (Lib.Heap.live_of_cell hcell), rfl⟩
  refine ⟨fun q _ => ?_, fun q _ => ?_, fun q _ data => ?_, ?_⟩
  · rw [hmemory]
  · rw [hdata]
  · rw [htrace]
    exact id
  · rw [hmemory]

theorem Sound.fault (h : r.Sound) (p : Nat) : (r.onMemory (.fault p)).Sound := by
  refine ⟨h.nodup, fun q => ?_⟩
  have hfits := h.fits q
  exact ⟨hfits.held, hfits.buffering, hfits.unwritten, hfits.aborted, hfits.known, hfits.whole⟩

theorem Sound.onSyncEvent (h : r.Sound) (p : Nat) : (r.onSyncEvent p).2.Sound := by
  rcases onSyncEvent_cases p r with ⟨_, heq⟩ | ⟨segment, hcell, hsize, hbuffering, -, heq⟩ | heq
  · rw [heq]
    exact h.fault p
  · obtain ⟨hdata, hmemory, htrace⟩ := requestWrite_eq (r.accepted p segment)
    rw [heq]
    exact (h.accepted hcell hsize hbuffering).congr hdata hmemory htrace
  · rw [heq]
    exact h

-- A segment that nobody holds is freed.
theorem Sound.free (h : r.Sound) (hlive : r.memory.Live p) (hout : p ∉ r.mData) :
    (r.onMemory (.free p)).Sound := by
  have hnone : (r.onMemory (.free p)).memory.cells p = none := Lib.Heap.free_self hlive
  refine h.apart (apart_free p r) h.nodup (Fits.of_none hnone hout ?_)
  intro data hqueued
  exact Nat.lt_of_lt_of_le ((h.fits p).known hqueued) (apart_free p r).next

-- A change of the flags of a segment in the queue.
theorem Sound.modify_held (h : r.Sound) {f : BufferSegment → BufferSegment}
    (hcell : r.memory.cells p = some segment) (hbuffering : segment.isBuffering = true)
    (hstill : (f segment).isBuffering = true) (hsize : 0 < (f segment).size)
    (hflag : (f segment).isAbort = true → (f segment).releaseAfterBuffering = true)
    (hmark : (f segment).rewind.readable = segment.rewind.readable) :
    (r.onMemory (.modify p f)).Sound := by
  have hself : (r.onMemory (.modify p f)).memory.cells p = some (f segment) :=
    Lib.Heap.modify_self hcell
  refine h.apart (apart_modify p f r) h.nodup (Fits.of_cell hself ?_ (fun _ => hsize) hflag ?_)
  · exact iff_of_true hstill (((h.fits p).buffering hcell).mp hbuffering)
  · intro data hqueued
    have hwhole := (h.fits p).whole hcell hqueued
    rw [if_pos hbuffering] at hwhole
    rw [if_pos hstill, hmark]
    exact hwhole

theorem Sound.safeRelease (h : r.Sound) (p : Nat) : (r.safeRelease p).Sound := by
  unfold Router.safeRelease
  cases hcell : r.memory.cells p with
  | none => exact h.fault p
  | some segment =>
    show (r.onMemory (if segment.isBuffering then .modify p .abort else .free p)).Sound
    by_cases hbuffering : segment.isBuffering = true
    · rw [if_pos hbuffering]
      have hsize : 0 < segment.size := (h.fits p).unwritten hcell hbuffering
      exact h.modify_held hcell hbuffering hbuffering hsize (fun _ => rfl) rfl
    · have hout : p ∉ r.mData := fun hmem => hbuffering (((h.fits p).buffering hcell).mpr hmem)
      rw [if_neg hbuffering]
      exact h.free (Lib.Heap.live_of_cell hcell) hout

/-! ## The loop of `onWritable` -/

-- The router once an answer of the kernel is used up.
def answered (r : Router) : Router := { r with writes := fun n => r.writes (n + 1) }

inductive RoundCase (p : Nat) (segment : BufferSegment) (rest : List Nat) (r : Router) :
    Bool × Router → Prop where
  | aborted (h : segment.isAbort = true) :
      RoundCase p segment rest r (true, { r with mData := rest }.letGo p segment)
  | failed (habort : segment.isAbort = false)
      (h : ∀ n, r.writes 0 = .accepted n → n = 0) : RoundCase p segment rest r (false, r.answered)
  | part (n : Nat) (habort : segment.isAbort = false) (h : r.writes 0 = .accepted n) (hpos : 0 < n)
      (hlt : n < segment.size) :
      RoundCase p segment rest r (true, r.answered.advance p segment n)
  | whole (n : Nat) (habort : segment.isAbort = false) (h : r.writes 0 = .accepted n)
      (hpos : 0 < n) (hle : segment.size ≤ n) :
      RoundCase p segment rest r
        (true, { r.answered.advance p segment segment.size with mData := rest }.finish p
          (segment.consumed segment.size))

theorem writeRound_case (hsize : 0 < segment.size) :
    RoundCase p segment rest r (r.writeRound p segment rest) := by
  unfold writeRound
  cases habort : segment.isAbort with
  | true => exact .aborted habort
  | false =>
    rw [if_neg (by decide)]
    unfold write
    cases hanswer : r.writes 0 with
    | error errno =>
      refine RoundCase.failed habort fun n h => ?_
      rw [hanswer] at h
      cases h
    | accepted n =>
      simp only
      cases hmin : min n segment.size with
      | zero =>
        refine RoundCase.failed habort fun m h => ?_
        rw [hanswer] at h
        cases h
        omega
      | succ w =>
        have hleft : (segment.consumed (w + 1)).size = segment.size - (w + 1) :=
          BufferSegment.size_consumed (by omega)
        simp only
        by_cases hlt : n < segment.size
        · have hn : w + 1 = n := by omega
          rw [hn] at hleft ⊢
          rw [if_neg (by omega)]
          exact .part n habort hanswer (by omega) hlt
        · have hn : w + 1 = segment.size := by omega
          rw [hn] at hleft ⊢
          rw [if_pos (by omega)]
          exact .whole n habort hanswer (by omega) (by omega)

-- The front segment leaves the queue: it is freed, or given back as it was handed over.
theorem Sound.popped (h : r.Sound) (hdata : r.mData = p :: rest)
    (hcell : r.memory.cells p = some segment) (hdata' : r'.mData = rest)
    (hothers : ∀ q, q ≠ p → r'.memory.cells q = r.memory.cells q)
    (htrace : ∀ q data, .queued q data ∈ r'.trace → .queued q data ∈ r.trace)
    (hnext : r'.memory.next = r.memory.next)
    (hself : r'.memory.cells p = none ∨ r'.memory.cells p = some segment.rewind.giveBack) :
    r'.Sound := by
  obtain ⟨hout, hnodup⟩ := h.tail hdata
  have hapart : Apart p r r' :=
    { cells := hothers
      mData := fun q hq => by
        rw [hdata, hdata', List.mem_cons]
        exact ⟨Or.inr, fun hmem => hmem.resolve_left hq⟩
      trace := fun q _ data => htrace q data
      next := Nat.le_of_eq hnext.symm }
  have hout' : p ∉ r'.mData := by
    rw [hdata']
    exact hout
  refine h.apart hapart (by rw [hdata']; exact hnodup) ?_
  rcases hself with hnone | hback
  · refine Fits.of_none hnone hout' fun data hqueued => ?_
    rw [hnext]
    exact (h.fits p).known (htrace p data hqueued)
  · have hbuffering : segment.isBuffering = true :=
      ((h.fits p).buffering hcell).mpr (by rw [hdata]; exact List.mem_cons_self)
    have hflag : segment.isAbort = true → segment.releaseAfterBuffering = true :=
      (h.fits p).aborted hcell
    refine Fits.of_cell hback (iff_of_false Bool.false_ne_true hout')
      (fun hb => absurd hb Bool.false_ne_true) hflag fun data hqueued => ?_
    have hwhole := (h.fits p).whole hcell (htrace p data hqueued)
    rw [if_pos hbuffering] at hwhole
    exact hwhole

@[simp] theorem next_letGo : (r.letGo p segment).memory.next = r.memory.next := by
  unfold letGo onMemory
  split <;> simp

theorem cells_letGo_of_ne (hq : q ≠ p) : (r.letGo p segment).memory.cells q = r.memory.cells q := by
  unfold letGo onMemory
  split
  · exact Lib.Heap.free_of_ne hq
  · exact Lib.Heap.modify_of_ne hq

theorem cells_letGo {x : BufferSegment} (hcell : r.memory.cells p = some x) :
    (r.letGo p segment).memory.cells p =
      if segment.releaseAfterBuffering then none else some x.giveBack := by
  unfold letGo onMemory
  split
  · exact Lib.Heap.free_self (Lib.Heap.live_of_cell hcell)
  · exact Lib.Heap.modify_self hcell

theorem faults_letGo (hlive : r.memory.Live p) :
    (r.letGo p segment).memory.faults = r.memory.faults := by
  unfold letGo onMemory
  split
  · exact Lib.Heap.faults_free hlive
  · exact Lib.Heap.faults_modify hlive

-- The captured packet is all that `finish` adds to a rewound segment that is let go.
theorem finish_eq (p : Nat) (segment : BufferSegment) (r : Router) :
    ∃ points, (∀ q data, .queued q data ∉ points) ∧
      r.finish p segment =
        ({ r with trace := r.trace ++ points }.onMemory (.modify p .rewind)).letGo p segment := by
  unfold finish
  by_cases hcapture : segment.needCapture = true
  · refine ⟨[.captured segment.rewind.readable], by simp, ?_⟩
    simp only [hcapture, if_true]
    rfl
  · refine ⟨[], by simp, ?_⟩
    simp only [hcapture, List.append_nil]
    rfl

@[simp] theorem mData_finish : (r.finish p segment).mData = r.mData := by
  unfold finish
  simp only
  split <;> rfl

@[simp] theorem writes_finish : (r.finish p segment).writes = r.writes := by
  unfold finish
  simp only
  split <;> rfl

structure RoundKept (p : Nat) (r r' : Router) : Prop where
  sound : r'.Sound
  cells : ∀ q, q ≠ p → r'.memory.cells q = r.memory.cells q
  faults : r'.memory.faults = r.memory.faults
  mReactor : r'.mReactor = r.mReactor
  mTunFd : r'.mTunFd = r.mTunFd
  handler : r'.handler = r.handler

theorem advance_cells_self (hcell : r.memory.cells p = some segment) (n : Nat) :
    (r.answered.advance p segment n).memory.cells p = some (segment.consumed n) :=
  Lib.Heap.modify_self hcell

theorem mem_trace_advance {n : Nat} {data : Bytes}
    (h : .queued q data ∈ (r.answered.advance p segment n).trace) : .queued q data ∈ r.trace := by
  rcases List.mem_append.mp h with hold | hnew
  · exact hold
  · simp at hnew

-- The segment is popped as it is.
theorem Sound.round_aborted (h : r.Sound) (hdata : r.mData = p :: rest)
    (hcell : r.memory.cells p = some segment) (habort : segment.isAbort = true) :
    RoundKept p r ({ r with mData := rest }.letGo p segment) := by
  have hflag : segment.releaseAfterBuffering = true := (h.fits p).aborted hcell habort
  have hself : ({ r with mData := rest }.letGo p segment).memory.cells p = none :=
    (cells_letGo (r := { r with mData := rest }) hcell).trans (if_pos hflag)
  exact
    { sound :=
        h.popped hdata hcell rfl (fun q hq => cells_letGo_of_ne hq) (fun q data => id) next_letGo
          (Or.inl hself)
      cells := fun q hq => cells_letGo_of_ne hq
      faults := faults_letGo (Lib.Heap.live_of_cell hcell)
      mReactor := rfl
      mTunFd := rfl
      handler := rfl }

-- The segment stays in front with fewer bytes.
theorem Sound.round_part (h : r.Sound) (hdata : r.mData = p :: rest)
    (hcell : r.memory.cells p = some segment) {n : Nat} (hlt : n < segment.size) :
    RoundKept p r (r.answered.advance p segment n) := by
  have hmem : p ∈ r.mData := by rw [hdata]; exact List.mem_cons_self
  have hbuffering : segment.isBuffering = true := ((h.fits p).buffering hcell).mpr hmem
  have hflag : segment.isAbort = true → segment.releaseAfterBuffering = true :=
    (h.fits p).aborted hcell
  have hself := advance_cells_self hcell n
  have hapart : Apart p r (r.answered.advance p segment n) :=
    { cells := fun q hq => Lib.Heap.modify_of_ne hq
      mData := fun _ _ => Iff.rfl
      trace := fun q _ data => mem_trace_advance
      next := Nat.le_of_eq Lib.Heap.next_modify.symm }
  have hsize : (segment.consumed n).size = segment.size - n :=
    BufferSegment.size_consumed (Nat.le_of_lt hlt)
  have hfits : (r.answered.advance p segment n).Fits p := by
    refine Fits.of_cell hself (iff_of_true hbuffering hmem) (fun _ => by omega) hflag ?_
    intro data hqueued
    have hwhole := (h.fits p).whole hcell (mem_trace_advance hqueued)
    rw [if_pos hbuffering] at hwhole
    show (if segment.isBuffering then (segment.consumed n).rewind else _).readable = data
    rw [if_pos hbuffering, BufferSegment.rewind_consumed]
    exact hwhole
  exact
    { sound := h.apart hapart h.nodup hfits
      cells := hapart.cells
      faults := Lib.Heap.faults_modify (Lib.Heap.live_of_cell hcell)
      mReactor := rfl
      mTunFd := rfl
      handler := rfl }

-- What a segment written to the end leaves.
theorem cells_finish (rest : List Nat) (hcell : r.memory.cells p = some segment) (n : Nat) :
    ({ r.answered.advance p segment n with mData := rest }.finish p
        (segment.consumed n)).memory.cells p =
      if segment.releaseAfterBuffering then none else some segment.rewind.giveBack := by
  obtain ⟨points, -, hfinish⟩ :=
    finish_eq p (segment.consumed n) { r.answered.advance p segment n with mData := rest }
  have hrewound : ((r.answered.advance p segment n).memory.modify p .rewind).cells p =
      some segment.rewind := by
    rw [Lib.Heap.modify_self (advance_cells_self hcell n), BufferSegment.rewind_consumed]
  rw [hfinish]
  exact cells_letGo hrewound

-- The segment is popped, rewound.
theorem Sound.round_whole (h : r.Sound) (hdata : r.mData = p :: rest)
    (hcell : r.memory.cells p = some segment) (n : Nat) :
    RoundKept p r
      ({ r.answered.advance p segment n with mData := rest }.finish p (segment.consumed n)) := by
  obtain ⟨points, hpoints, hfinish⟩ :=
    finish_eq p (segment.consumed n) { r.answered.advance p segment n with mData := rest }
  rw [hfinish]
  have hadvanced := advance_cells_self hcell n
  have hrewound : ((r.answered.advance p segment n).memory.modify p .rewind).cells p =
      some segment.rewind := by
    rw [Lib.Heap.modify_self hadvanced, BufferSegment.rewind_consumed]
  have hothers (q : Nat) (hq : q ≠ p) :
      ((r.answered.advance p segment n).memory.modify p .rewind).cells q = r.memory.cells q :=
    (Lib.Heap.modify_of_ne hq).trans (Lib.Heap.modify_of_ne hq)
  have hfaults : ((r.answered.advance p segment n).memory.modify p .rewind).faults =
      r.memory.faults :=
    (Lib.Heap.faults_modify (Lib.Heap.live_of_cell hadvanced)).trans
      (Lib.Heap.faults_modify (Lib.Heap.live_of_cell hcell))
  have hnext : ((r.answered.advance p segment n).memory.modify p .rewind).next = r.memory.next :=
    Lib.Heap.next_modify.trans Lib.Heap.next_modify
  have htrace (q : Nat) (data : Bytes)
      (hmem : .queued q data ∈ (r.answered.advance p segment n).trace ++ points) :
      .queued q data ∈ r.trace := by
    rcases List.mem_append.mp hmem with hold | hnew
    · exact mem_trace_advance hold
    · exact absurd hnew (hpoints q data)
  exact
    { sound := by
        refine h.popped hdata hcell rfl (fun q hq => (cells_letGo_of_ne hq).trans (hothers q hq))
          htrace (next_letGo.trans hnext) ?_
        rw [← hfinish, cells_finish rest hcell]
        split
        · exact Or.inl rfl
        · exact Or.inr rfl
      cells := fun q hq => (cells_letGo_of_ne hq).trans (hothers q hq)
      faults := (faults_letGo (Lib.Heap.live_of_cell hrewound)).trans hfaults
      mReactor := rfl
      mTunFd := rfl
      handler := rfl }

theorem Sound.round (h : r.Sound) (hdata : r.mData = p :: rest)
    (hcell : r.memory.cells p = some segment) {out : Bool × Router}
    (hcase : RoundCase p segment rest r out) : RoundKept p r out.2 := by
  cases hcase with
  | aborted habort => exact h.round_aborted hdata hcell habort
  | failed habort hanswer =>
    exact
      { sound := h.congr rfl rfl rfl
        cells := fun _ _ => rfl
        faults := rfl
        mReactor := rfl
        mTunFd := rfl
        handler := rfl }
  | part n habort hanswer hpos hlt => exact h.round_part hdata hcell hlt
  | whole n habort hanswer hpos hle => exact h.round_whole hdata hcell segment.size

/-! ## What the segments become -/

-- From `r` to `r'` the kernel has taken bytes of segments in the queue.
structure Written (r r' : Router) : Prop where
  back {q : Nat} {x : BufferSegment} : r.memory.cells q = some x →
    x.releaseAfterBuffering = false → ∃ ns, r'.memory.cells q = some (x.wroteAll ns)
  origin {q : Nat} {y : BufferSegment} : r'.memory.cells q = some y →
    ∃ x, r.memory.cells q = some x ∧ y.releaseAfterBuffering = x.releaseAfterBuffering
  owed {q : Nat} {y : BufferSegment} : r'.memory.cells q = some y →
    y.releaseAfterBuffering = true → q ∈ r.mData → q ∈ r'.mData

theorem Written.of_eq (hmemory : r'.memory.cells = r.memory.cells) (hdata : r'.mData = r.mData) :
    Written r r' where
  back hcell _ := ⟨[], by rw [hmemory]; exact hcell⟩
  origin hcell := ⟨_, by rw [← hmemory]; exact hcell, rfl⟩
  owed _ _ hmem := by
    rw [hdata]
    exact hmem

theorem Written.trans {r'' : Router} (h : Written r r') (h' : Written r' r'') : Written r r'' where
  back {q x} hcell hrelease := by
    obtain ⟨ns, hns⟩ := h.back hcell hrelease
    obtain ⟨ms, hms⟩ := h'.back hns
      ((BufferSegment.releaseAfterBuffering_wroteAll ns x).trans hrelease)
    exact ⟨ns ++ ms, by rw [BufferSegment.wroteAll_append]; exact hms⟩
  origin hcell := by
    obtain ⟨y, hy, hflag⟩ := h'.origin hcell
    obtain ⟨x, hx, hflag'⟩ := h.origin hy
    exact ⟨x, hx, hflag.trans hflag'⟩
  owed hcell hrelease hmem := by
    obtain ⟨y, hy, hflag⟩ := h'.origin hcell
    exact h'.owed hcell hrelease (h.owed hy (hflag.symm.trans hrelease) hmem)

-- The front is the only segment that changes, and the only one that leaves.
theorem Written.of_front (hcell : r.memory.cells p = some segment)
    (hothers : ∀ q, q ≠ p → r'.memory.cells q = r.memory.cells q)
    (hdata : ∀ q, q ≠ p → q ∈ r.mData → q ∈ r'.mData)
    (hback : segment.releaseAfterBuffering = false →
      ∃ ns, r'.memory.cells p = some (segment.wroteAll ns))
    (howed : segment.releaseAfterBuffering = true → ∀ y, r'.memory.cells p = some y →
      y.releaseAfterBuffering = true ∧ p ∈ r'.mData) : Written r r' where
  back {q x} hx hrelease := by
    by_cases hq : q = p
    · subst hq
      cases hcell.symm.trans hx
      exact hback hrelease
    · exact ⟨[], (hothers q hq).trans hx⟩
  origin {q y} hy := by
    by_cases hq : q = p
    · subst hq
      refine ⟨segment, hcell, ?_⟩
      cases hrelease : segment.releaseAfterBuffering with
      | true => exact (howed hrelease y hy).1
      | false =>
        obtain ⟨ns, hns⟩ := hback hrelease
        cases hns.symm.trans hy
        exact (BufferSegment.releaseAfterBuffering_wroteAll ns segment).trans hrelease
    · exact ⟨y, (hothers q hq).symm.trans hy, rfl⟩
  owed {q y} hy hrelease hmem := by
    by_cases hq : q = p
    · subst hq
      cases hflag : segment.releaseAfterBuffering with
      | true => exact (howed hflag y hy).2
      | false =>
        obtain ⟨ns, hns⟩ := hback hflag
        cases hns.symm.trans hy
        rw [BufferSegment.releaseAfterBuffering_wroteAll, hflag] at hrelease
        cases hrelease
    · exact hdata q hq hmem

theorem Sound.round_written (h : r.Sound) (hdata : r.mData = p :: rest)
    (hcell : r.memory.cells p = some segment) {out : Bool × Router}
    (hcase : RoundCase p segment rest r out) : Written r out.2 := by
  have hkept := h.round hdata hcell hcase
  have hmem : p ∈ r.mData := by rw [hdata]; exact List.mem_cons_self
  have hbuffering : segment.isBuffering = true := ((h.fits p).buffering hcell).mpr hmem
  have hrest (q : Nat) (hq : q ≠ p) (hmem : q ∈ r.mData) : q ∈ rest := by
    rw [hdata] at hmem
    exact (List.mem_cons.mp hmem).resolve_left hq
  cases hcase with
  | aborted habort =>
    have hflag : segment.releaseAfterBuffering = true := (h.fits p).aborted hcell habort
    have hself : ({ r with mData := rest }.letGo p segment).memory.cells p = none :=
      (cells_letGo (r := { r with mData := rest }) hcell).trans (if_pos hflag)
    refine .of_front hcell hkept.cells hrest (fun hfalse => ?_) (fun _ y hy => ?_)
    · cases hflag.symm.trans hfalse
    · cases hself.symm.trans hy
  | failed habort hanswer => exact .of_eq rfl rfl
  | part n habort hanswer hpos hlt =>
    have hself := advance_cells_self hcell n
    have hsize : (segment.consumed n).size = segment.size - n :=
      BufferSegment.size_consumed (Nat.le_of_lt hlt)
    refine .of_front hcell hkept.cells (fun _ _ hmem => hmem) (fun _ => ⟨[n], ?_⟩) fun hflag y hy => ?_
    · show _ = some (segment.wrote n)
      rw [BufferSegment.wrote, if_pos hbuffering, if_neg (by omega)]
      exact hself
    · cases hself.symm.trans hy
      exact ⟨hflag, hmem⟩
  | whole n habort hanswer hpos hle =>
    have hself := cells_finish rest hcell segment.size
    have hsize : (segment.consumed segment.size).size = segment.size - segment.size :=
      BufferSegment.size_consumed (Nat.le_refl _)
    refine .of_front hcell hkept.cells (fun q hq hmem => ?_) (fun hflag => ⟨[segment.size], ?_⟩)
      fun hflag y hy => ?_
    · rw [mData_finish]
      exact hrest q hq hmem
    · show _ = some (segment.wrote segment.size)
      rw [BufferSegment.wrote, if_pos hbuffering, if_pos (by omega), hself, hflag,
        if_neg Bool.false_ne_true]
    · rw [hflag, if_pos rfl] at hself
      cases hself.symm.trans hy

/-! ## The whole loop -/

theorem writeLoop_nil (fuel : Nat) (hdata : r.mData = []) : writeLoop fuel r = r := by
  cases fuel with
  | zero => rfl
  | succ fuel => rw [writeLoop, hdata]

theorem writeLoop_cons (fuel : Nat) (hdata : r.mData = p :: rest)
    (hcell : r.memory.cells p = some segment) :
    writeLoop (fuel + 1) r =
      if (r.writeRound p segment rest).1 then writeLoop fuel (r.writeRound p segment rest).2
      else (r.writeRound p segment rest).2 := by
  rw [writeLoop, hdata]
  simp only [hcell]
  cases r.writeRound p segment rest with
  | mk go next => cases go <;> rfl

-- A whole loop, whatever the answers of the kernel.
theorem Sound.writeLoop (fuel : Nat) (h : r.Sound) :
    (writeLoop fuel r).Sound ∧ (writeLoop fuel r).memory.faults = r.memory.faults ∧
      (writeLoop fuel r).mReactor = r.mReactor ∧ (writeLoop fuel r).mTunFd = r.mTunFd ∧
      (writeLoop fuel r).handler = r.handler := by
  induction fuel generalizing r with
  | zero => exact ⟨h, rfl, rfl, rfl, rfl⟩
  | succ fuel ih =>
    cases hdata : r.mData with
    | nil =>
      rw [writeLoop_nil _ hdata]
      exact ⟨h, rfl, rfl, rfl, rfl⟩
    | cons p rest =>
      obtain ⟨segment, hcell, -, hsize⟩ := h.front hdata
      have hkept := h.round hdata hcell (writeRound_case hsize)
      rw [writeLoop_cons fuel hdata hcell]
      split
      · obtain ⟨hsound, hfaults, hreactor, htunFd, hhandler⟩ := ih hkept.sound
        exact ⟨hsound, hfaults.trans hkept.faults, hreactor.trans hkept.mReactor,
          htunFd.trans hkept.mTunFd, hhandler.trans hkept.handler⟩
      · exact ⟨hkept.sound, hkept.faults, hkept.mReactor, hkept.mTunFd, hkept.handler⟩

theorem Sound.writeLoop_written (fuel : Nat) (h : r.Sound) : Written r (Router.writeLoop fuel r) := by
  induction fuel generalizing r with
  | zero => exact .of_eq rfl rfl
  | succ fuel ih =>
    cases hdata : r.mData with
    | nil =>
      rw [writeLoop_nil _ hdata]
      exact .of_eq rfl rfl
    | cons p rest =>
      obtain ⟨segment, hcell, -, hsize⟩ := h.front hdata
      have hcase : RoundCase p segment rest r (r.writeRound p segment rest) := writeRound_case hsize
      have hwritten := h.round_written hdata hcell hcase
      rw [writeLoop_cons fuel hdata hcell]
      split
      · exact hwritten.trans (ih (h.round hdata hcell hcase).sound)
      · exact hwritten

theorem Sound.onWritable_written (h : r.Sound) : Written r r.onWritable :=
  (h.writeLoop_written r.writeFuel).trans (.of_eq rfl rfl)

theorem Sound.onWritable (h : r.Sound) : r.onWritable.Sound :=
  (h.writeLoop r.writeFuel).1.congr rfl rfl rfl

theorem Sound.step (h : r.Sound) {e : Event} (hstep : r.step e = some r') : r'.Sound := by
  cases e with
  | build segment releaseAfterBuffering needCapture =>
    cases hstep
    exact h.build rfl rfl
  | writePackage p =>
    cases hstep
    exact h.onSyncEvent p
  | writable =>
    cases hstep
    exact h.onWritable
  | release p =>
    cases hstep
    exact h.safeRelease p
  | reactor call =>
    simp only [Router.step] at hstep
    split at hstep
    · cases hstep
    · cases hstep
      exact h.congr rfl rfl rfl
  | environment writes =>
    cases hstep
    exact h.congr rfl rfl rfl

theorem Started.sound (h : Started r) : r.Sound := by
  refine ⟨by rw [h.empty]; exact List.nodup_nil, fun p => ?_⟩
  have hcell : r.memory.cells p = none := by
    rw [h.nothing]
    rfl
  refine Fits.of_none hcell (by rw [h.empty]; exact List.not_mem_nil) fun data hqueued => ?_
  rw [h.unwritten] at hqueued
  exact absurd hqueued List.not_mem_nil

end Router

end NetCore
