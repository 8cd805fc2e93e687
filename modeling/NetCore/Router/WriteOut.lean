import NetCore.Router.Stream

/-!
# Segments that were written out

The router writes a segment in pieces, and a retransmitted one again from its beginning.  `WroteOut`
reads off the trace that all of a segment has been written once; a segment that was handed over and
is not in the queue any more has been written so, unless it was aborted.
-/

namespace NetCore

-- The bytes of the segment among these points.
def writtenOf (p : Nat) (points : List RouterPoint) : Bytes :=
  points.flatMap fun
    | .wrote q data => if q = p then data else []
    | _ => []

/-- After the segment was taken, all its bytes were written. -/
def WentOut (p : Nat) : List RouterPoint → Prop
  | [] => False
  | .queued q data :: points => (q = p ∧ data <+: writtenOf p points) ∨ WentOut p points
  | .wrote _ _ :: points => WentOut p points
  | .captured _ :: points => WentOut p points

instance WentOut.decidable (p : Nat) : ∀ points, Decidable (WentOut p points)
  | [] => inferInstanceAs (Decidable False)
  | .queued _ _ :: points =>
      haveI := WentOut.decidable p points
      inferInstanceAs (Decidable (_ ∨ _))
  | .wrote _ _ :: points => WentOut.decidable p points
  | .captured _ :: points => WentOut.decidable p points

-- What is left of the segment since it was taken last.
def Underway (p : Nat) (left : Bytes) (points : List RouterPoint) : Prop :=
  ∃ before data after, points = before ++ .queued p data :: after ∧ writtenOf p after ++ left = data

section Points

variable {p q : Nat} {data left : Bytes} {points more : List RouterPoint}

theorem writtenOf_append (p : Nat) (points more : List RouterPoint) :
    writtenOf p (points ++ more) = writtenOf p points ++ writtenOf p more := List.flatMap_append

theorem WentOut.append (h : WentOut p points) (more : List RouterPoint) : WentOut p (points ++ more) := by
  induction points with
  | nil => exact h.elim
  | cons point points ih =>
    cases point with
    | queued q data =>
      rcases h with ⟨hq, hbegins⟩ | hlater
      · refine .inl ⟨hq, hbegins.trans ?_⟩
        show writtenOf p points <+: writtenOf p (points ++ more)
        rw [writtenOf_append]
        exact List.prefix_append _ _
      · exact .inr (ih hlater)
    | wrote q data => exact ih h
    | captured data => exact ih h

theorem WentOut.mono (h : WentOut p points) (hbegins : points <+: more) : WentOut p more := by
  obtain ⟨rest, rfl⟩ := hbegins
  exact h.append rest

theorem WentOut.behind (h : WentOut p points) (before : List RouterPoint) : WentOut p (before ++ points) := by
  induction before with
  | nil => exact h
  | cons point before ih =>
    cases point with
    | queued q data => exact .inr ih
    | wrote q data => exact ih
    | captured data => exact ih

theorem Underway.taken (p : Nat) (data : Bytes) (points : List RouterPoint) :
    Underway p data (points ++ [.queued p data]) :=
  ⟨points, data, [], rfl, rfl⟩

-- Points that do not tell of the segment.
theorem Underway.append (h : Underway p left points) (hmore : writtenOf p more = []) :
    Underway p left (points ++ more) := by
  obtain ⟨before, data, after, rfl, hdata⟩ := h
  refine ⟨before, data, after ++ more, by rw [List.append_assoc, List.cons_append], ?_⟩
  rw [writtenOf_append, hmore, List.append_nil]
  exact hdata

theorem Underway.wrote (h : Underway p (data ++ left) points) :
    Underway p left (points ++ [.wrote p data]) := by
  obtain ⟨before, whole, after, rfl, hwhole⟩ := h
  refine ⟨before, whole, after ++ [.wrote p data], by rw [List.append_assoc, List.cons_append], ?_⟩
  have hlast : writtenOf p [.wrote p data] = data := by simp [writtenOf]
  rw [writtenOf_append, hlast, List.append_assoc]
  exact hwhole

theorem Underway.wentOut (h : Underway p [] points) : WentOut p points := by
  obtain ⟨before, data, after, rfl, hdata⟩ := h
  rw [List.append_nil] at hdata
  have hlast : WentOut p (.queued p data :: after) := .inl ⟨rfl, hdata ▸ List.prefix_rfl⟩
  exact hlast.behind before

end Points

namespace Router

variable {r r' : Router} {p q : Nat} {segment : BufferSegment} {rest : List Nat}

def WroteOut (r : Router) (p : Nat) : Prop := WentOut p r.trace

instance (r : Router) (p : Nat) : Decidable (r.WroteOut p) :=
  inferInstanceAs (Decidable (WentOut _ _))

-- What the trace says of a segment with these flags.
structure Tells (r : Router) (p : Nat) (segment : BufferSegment) : Prop where
  held : segment.isBuffering = true → Underway p segment.readable r.trace
  back {data : Bytes} : segment.isBuffering = false → .queued p data ∈ r.trace → r.WroteOut p

def Logged (r : Router) : Prop := ∀ p segment, r.memory.cells p = some segment → r.Tells p segment

-- From `r` to `r'` the trace has grown and still tells what the flags say.
structure Writes (r r' : Router) : Prop where
  sound : r'.Sound
  grows : r.trace <+: r'.trace
  logged : r.Logged → r'.Logged

theorem WroteOut.mono (h : r.WroteOut p) (hgrows : r.trace <+: r'.trace) : r'.WroteOut p :=
  WentOut.mono h hgrows

theorem Writes.trans {r'' : Router} (h : r.Writes r') (h' : r'.Writes r'') : r.Writes r'' :=
  ⟨h'.sound, h.grows.trans h'.grows, fun hlogged => h'.logged (h.logged hlogged)⟩

theorem Writes.of_same (hsound : r'.Sound) (hcells : r'.memory.cells = r.memory.cells)
    (htrace : r'.trace = r.trace) : r.Writes r' where
  sound := hsound
  grows := htrace ▸ List.prefix_rfl
  logged hlogged q x hcell := by
    rw [hcells] at hcell
    obtain ⟨hheld, hback⟩ := hlogged q x hcell
    constructor
    · rw [htrace]
      exact hheld
    · unfold WroteOut
      rw [htrace]
      exact hback

-- A change at one address, with points that tell of no other.
theorem Writes.of_one (points : List RouterPoint) (hsound : r'.Sound)
    (hcells : ∀ q, q ≠ p → r'.memory.cells q = r.memory.cells q)
    (htrace : r'.trace = r.trace ++ points)
    (hpoints : ∀ q, q ≠ p → writtenOf q points = [] ∧ ∀ data, .queued q data ∉ points)
    (hself : r.Logged → ∀ x, r'.memory.cells p = some x → r'.Tells p x) : r.Writes r' where
  sound := hsound
  grows := ⟨points, htrace.symm⟩
  logged hlogged q x hcell := by
    by_cases hq : q = p
    · subst hq
      exact hself hlogged x hcell
    · rw [hcells q hq] at hcell
      obtain ⟨hheld, hback⟩ := hlogged q x hcell
      obtain ⟨hwritten, hqueued⟩ := hpoints q hq
      constructor
      · intro hbuffering
        rw [htrace]
        exact (hheld hbuffering).append hwritten
      · intro data hbuffering hmem
        rw [htrace, List.mem_append] at hmem
        have hold := hback hbuffering (hmem.resolve_right (hqueued data))
        exact hold.mono ⟨points, htrace.symm⟩

/-! ## Building, handing over, releasing -/

theorem Sound.build_writes (h : r.Sound) (hbuffering : segment.isBuffering = false)
    (habort : segment.isAbort = false) : r.Writes (r.build segment) := by
  refine .of_one (p := r.memory.next) [] (h.build hbuffering habort)
    (apart_build r segment).cells (List.append_nil _).symm (fun q _ => ⟨rfl, fun _ => List.not_mem_nil⟩)
    fun _ x hcell => ?_
  cases Lib.Heap.alloc_self.symm.trans hcell
  refine ⟨fun hheld => ?_, fun _ hqueued => ?_⟩
  · rw [hbuffering] at hheld
    cases hheld
  · exact absurd ((h.fits _).known hqueued) (Nat.lt_irrefl _)

theorem Sound.onSyncEvent_writes (h : r.Sound) (p : Nat) : r.Writes (r.onSyncEvent p).2 := by
  have hsound := h.onSyncEvent p
  rcases onSyncEvent_cases p r with
    ⟨-, heq⟩ | ⟨segment, hcell, hsize, hbuffering, habort, heq⟩ | heq
  · rw [heq] at hsound ⊢
    exact .of_same hsound rfl rfl
  · obtain ⟨hapart, hself, -, -, htrace⟩ := onSyncEvent_taken hcell hsize hbuffering habort
    refine .of_one _ hsound hapart.cells htrace (fun q hq => ⟨rfl, fun data hmem => ?_⟩) fun _ x hx => ?_
    · cases List.mem_singleton.mp hmem
      exact hq rfl
    · cases hself.symm.trans hx
      refine ⟨fun _ => ?_, fun hfalse => by cases hfalse⟩
      rw [htrace]
      exact .taken p segment.readable r.trace
  · rw [heq]
    exact .of_same h rfl rfl

theorem Sound.safeRelease_writes (h : r.Sound) (p : Nat) : r.Writes (r.safeRelease p) := by
  have hsound := h.safeRelease p
  unfold Router.safeRelease at hsound ⊢
  cases hcell : r.memory.cells p with
  | none =>
    rw [hcell] at hsound
    exact .of_same hsound rfl rfl
  | some segment =>
    rw [hcell] at hsound
    have hnone (q : Nat) (_ : q ≠ p) :
        writtenOf q [] = [] ∧ ∀ data, RouterPoint.queued q data ∉ ([] : List RouterPoint) :=
      ⟨rfl, fun _ => List.not_mem_nil⟩
    have htrace (f : Lib.Heap BufferSegment → Lib.Heap BufferSegment) :
        (r.onMemory f).trace = r.trace ++ [] := (List.append_nil _).symm
    simp only at hsound ⊢
    split at hsound
    next hbuffering =>
      rw [if_pos hbuffering]
      refine .of_one _ hsound (apart_modify p _ r).cells (htrace _) hnone fun hlogged x hx => ?_
      cases (Lib.Heap.modify_self hcell).symm.trans hx
      obtain ⟨hheld, -⟩ := hlogged p segment hcell
      exact ⟨hheld, fun hfalse => absurd (hbuffering.symm.trans hfalse) (by decide)⟩
    next hbuffering =>
      rw [if_neg hbuffering]
      refine .of_one _ hsound (apart_free p r).cells (htrace _) hnone fun _ x hx => ?_
      cases (Lib.Heap.free_self (Lib.Heap.live_of_cell hcell)).symm.trans hx

/-! ## Writing -/

theorem finish_points_tell (p : Nat) (segment : BufferSegment) (r : Router) :
    ∃ points, (r.finish p segment).trace = r.trace ++ points ∧
      ∀ q, writtenOf q points = [] ∧ ∀ data, .queued q data ∉ points := by
  refine ⟨_, finish_trace p segment r, fun q => ?_⟩
  split
  · exact ⟨rfl, by simp⟩
  · exact ⟨rfl, by simp⟩

-- A round of the loop: what leaves the queue not aborted was written out.
theorem Sound.round_writes (h : r.Sound) (hdata : r.mData = p :: rest)
    (hcell : r.memory.cells p = some segment) {out : Bool × Router}
    (hcase : RoundCase p segment rest r out) : r.Writes out.2 := by
  have hkept := h.round hdata hcell hcase
  have hbuffering : segment.isBuffering = true :=
    ((h.fits p).buffering hcell).mpr (by rw [hdata]; exact List.mem_cons_self)
  have hwrote (n : Nat) (q : Nat) (hq : q ≠ p) :
      writtenOf q [.wrote p (segment.readable.take n)] = [] ∧
        ∀ data, RouterPoint.queued q data ∉ [.wrote p (segment.readable.take n)] := by
    refine ⟨?_, by simp⟩
    simp [writtenOf, Ne.symm hq]
  cases hcase with
  | aborted habort =>
    have hflag : segment.releaseAfterBuffering = true := (h.fits p).aborted hcell habort
    have hself : ({ r with mData := rest }.letGo p segment).memory.cells p = none :=
      (cells_letGo (r := { r with mData := rest }) hcell).trans (if_pos hflag)
    refine .of_one [] hkept.sound hkept.cells (List.append_nil _).symm
      (fun _ _ => ⟨rfl, fun _ => List.not_mem_nil⟩) fun _ x hx => ?_
    cases hself.symm.trans hx
  | failed habort hanswer => exact .of_same hkept.sound rfl rfl
  | part n habort hanswer hpos hlt =>
    refine .of_one _ hkept.sound hkept.cells rfl (hwrote n) fun hlogged x hx => ?_
    cases (advance_cells_self hcell n).symm.trans hx
    have hstill : (segment.consumed n).isBuffering = true := hbuffering
    refine ⟨fun _ => ?_, fun hfalse => absurd (hstill.symm.trans hfalse) (by decide)⟩
    have hleft : (segment.consumed n).readable = segment.readable.drop n :=
      Segment.readable_consume (Nat.le_of_lt hlt)
    have hunderway := (hlogged p segment hcell).held hbuffering
    rw [hleft]
    refine Underway.wrote ?_
    rw [List.take_append_drop]
    exact hunderway
  | whole n habort hanswer hpos hle =>
    obtain ⟨points, htrace, hpoints⟩ := finish_points_tell p (segment.consumed segment.size)
      { r.answered.advance p segment segment.size with mData := rest }
    have hall : segment.readable.take segment.size = segment.readable := by
      rw [← Segment.length_readable, List.take_length]
    have hgrown : ({ r.answered.advance p segment segment.size with mData := rest }.finish p
        (segment.consumed segment.size)).trace =
          r.trace ++ ([.wrote p (segment.readable.take segment.size)] ++ points) := by
      rw [htrace, ← List.append_assoc]
      rfl
    refine .of_one _ hkept.sound hkept.cells hgrown (fun q hq => ?_) fun hlogged x hx => ?_
    · obtain ⟨hone, hnot⟩ := hwrote segment.size q hq
      rw [writtenOf_append, hone, (hpoints q).1]
      refine ⟨rfl, fun data hmem => ?_⟩
      exact (List.mem_append.mp hmem).elim (hnot data) ((hpoints q).2 data)
    · have hself := (cells_finish rest hcell segment.size).symm.trans hx
      split at hself
      · cases hself
      · cases hself
        refine ⟨fun hfalse => (by cases hfalse), fun _ _ => ?_⟩
        have hunderway := (hlogged p segment hcell).held hbuffering
        rw [← hall, ← List.append_nil (segment.readable.take segment.size)] at hunderway
        have hwent := hunderway.wrote.wentOut
        unfold WroteOut
        rw [hgrown, ← List.append_assoc]
        exact hwent.append points

end Router

end NetCore
