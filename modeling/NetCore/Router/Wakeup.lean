import NetCore.Router.Holding

/-!
# The write event of the tun

`onSyncEvent` asks for the write event under a test, `onWritable` gives it up in any case, also when
its loop was left with packets in the queue.  `TakesAll` says that this does not happen, and the last
theorem that the packets of a run stay covered exactly then.
-/

namespace NetCore

namespace Router

variable {r r' : Router} {p : Nat} {segment : BufferSegment} {rest : List Nat}

/-- The packets in the queue wait for an event that is asked for. -/
def Covered (r : Router) : Prop :=
  r.mData ≠ [] → r.mReactor.containEvent r.mTunFd evWRITE = 1

-- The tun has been registered by `start`, and is still read from.
def Watching (r : Router) : Prop :=
  ¬ r.mTunFd < 0 ∧ ∃ events, r.mReactor.Registered r.mTunFd events ∧ events &&& evREAD = evREAD

/-- The answers of `write`, as far as they are asked for, are all positive.  The list is what is left
    to write, packet after packet. -/
inductive TakesAll : List Nat → (Nat → SendOutcome) → Prop where
  | nil {writes : Nat → SendOutcome} : TakesAll [] writes
  | part {size n : Nat} {sizes : List Nat} {writes : Nat → SendOutcome}
      (answer : writes 0 = .accepted n) (pos : 0 < n) (lt : n < size)
      (more : TakesAll ((size - n) :: sizes) fun k => writes (k + 1)) :
      TakesAll (size :: sizes) writes
  | whole {size n : Nat} {sizes : List Nat} {writes : Nat → SendOutcome}
      (answer : writes 0 = .accepted n) (pos : 0 < n) (le : size ≤ n)
      (more : TakesAll sizes fun k => writes (k + 1)) : TakesAll (size :: sizes) writes

/-- What is to be written of the segment at `p`; an aborted one is only dropped. -/
def pendingAt (r : Router) (p : Nat) : Option Nat :=
  (r.memory.cells p).bind fun segment => if segment.isAbort then none else some segment.size

def pending (r : Router) : List Nat := r.mData.filterMap r.pendingAt

/-- A writable event finds the kernel ready for all there is. -/
def WritesTaken (r : Router) : Event → Prop
  | .writable => TakesAll r.pending r.writes
  | _ => True

/-! ## The loop ends empty exactly if every answer is positive -/

theorem TakesAll.size_pos {size : Nat} {sizes : List Nat} {writes : Nat → SendOutcome}
    (h : TakesAll (size :: sizes) writes) : ∃ n, writes 0 = .accepted n ∧ 0 < n := by
  cases h with
  | part answer pos _ _ => exact ⟨_, answer, pos⟩
  | whole answer pos _ _ => exact ⟨_, answer, pos⟩

theorem takesAll_part {size n : Nat} {sizes : List Nat} {writes : Nat → SendOutcome}
    (answer : writes 0 = .accepted n) (pos : 0 < n) (lt : n < size) :
    TakesAll (size :: sizes) writes ↔
      TakesAll ((size - n) :: sizes) fun k => writes (k + 1) := by
  constructor
  · intro h
    cases h with
    | part answer' _ _ more =>
      cases answer.symm.trans answer'
      exact more
    | whole answer' _ le _ =>
      cases answer.symm.trans answer'
      omega
  · exact .part answer pos lt

theorem takesAll_whole {size n : Nat} {sizes : List Nat} {writes : Nat → SendOutcome}
    (answer : writes 0 = .accepted n) (pos : 0 < n) (le : size ≤ n) :
    TakesAll (size :: sizes) writes ↔ TakesAll sizes fun k => writes (k + 1) := by
  constructor
  · intro h
    cases h with
    | part answer' _ lt _ =>
      cases answer.symm.trans answer'
      omega
    | whole answer' _ _ more => exact more
  · exact .whole answer pos le

theorem pendingAt_congr {q : Nat} (h : r'.memory.cells q = r.memory.cells q) :
    r'.pendingAt q = r.pendingAt q := by
  unfold pendingAt
  rw [h]

theorem sizeAt_congr {q : Nat} (h : r'.memory.cells q = r.memory.cells q) :
    r'.sizeAt q = r.sizeAt q := by
  unfold sizeAt
  rw [h]

-- The segments behind the front are not touched.
theorem Sound.behind (h : r.Sound) (hdata : r.mData = p :: rest)
    (hcells : ∀ q, q ≠ p → r'.memory.cells q = r.memory.cells q) :
    rest.filterMap r'.pendingAt = rest.filterMap r.pendingAt ∧
      rest.map (fun q => r'.sizeAt q + 1) = rest.map fun q => r.sizeAt q + 1 := by
  have hne (q : Nat) (hq : q ∈ rest) : q ≠ p := fun heq => (h.tail hdata).1 (heq ▸ hq)
  constructor
  · exact List.filterMap_congr fun q hq => pendingAt_congr (hcells q (hne q hq))
  · exact List.map_congr_left fun q hq => by rw [sizeAt_congr (hcells q (hne q hq))]

theorem pending_cons (hdata : r.mData = p :: rest) (hcell : r.memory.cells p = some segment) :
    r.pending = if segment.isAbort then rest.filterMap r.pendingAt
      else segment.size :: rest.filterMap r.pendingAt := by
  unfold pending
  rw [hdata, List.filterMap_cons]
  unfold pendingAt
  rw [hcell]
  cases habort : segment.isAbort <;> simp [habort]

theorem writeFuel_cons (hdata : r.mData = p :: rest) (hcell : r.memory.cells p = some segment) :
    r.writeFuel = segment.size + 1 + (rest.map fun q => r.sizeAt q + 1).foldr (· + ·) 0 := by
  unfold writeFuel
  rw [hdata, List.map_cons, List.foldr_cons]
  unfold sizeAt
  rw [hcell]
  rfl

theorem writeLoop_empties_iff {fuel : Nat} (h : r.Sound) (hfuel : r.writeFuel ≤ fuel) :
    (writeLoop fuel r).mData = [] ↔ TakesAll r.pending r.writes := by
  induction fuel generalizing r with
  | zero =>
    cases hdata : r.mData with
    | nil =>
      have hpending : r.pending = [] := by rw [pending, hdata]; rfl
      rw [hpending]
      exact iff_of_true hdata .nil
    | cons p rest =>
      obtain ⟨segment, hcell, -, -⟩ := h.front hdata
      rw [writeFuel_cons hdata hcell] at hfuel
      omega
  | succ fuel ih =>
    cases hdata : r.mData with
    | nil =>
      have hpending : r.pending = [] := by rw [pending, hdata]; rfl
      rw [writeLoop_nil _ hdata, hpending]
      exact iff_of_true hdata .nil
    | cons p rest =>
      obtain ⟨segment, hcell, -, hsize⟩ := h.front hdata
      have hcase : RoundCase p segment rest r (r.writeRound p segment rest) := writeRound_case hsize
      have hkept := h.round hdata hcell hcase
      rw [writeFuel_cons hdata hcell] at hfuel
      obtain ⟨hpending, hsizes⟩ := h.behind hdata hkept.cells
      rw [writeLoop_cons fuel hdata hcell, pending_cons hdata hcell]
      generalize r.writeRound p segment rest = out at hcase hkept hpending hsizes ⊢
      cases hcase with
      | aborted habort =>
        rw [if_pos rfl, if_pos habort, ih hkept.sound]
        · rw [← hpending]
          exact Iff.rfl
        · show (rest.map _).foldr (· + ·) 0 ≤ fuel
          rw [hsizes]
          omega
      | failed habort hanswer =>
        rw [if_neg Bool.false_ne_true, habort, if_neg (by decide)]
        refine iff_of_false ?_ fun htakes => ?_
        · show r.mData ≠ []
          rw [hdata]
          exact List.cons_ne_nil p rest
        · obtain ⟨n, haccepted, hpos⟩ := htakes.size_pos
          rw [hanswer n haccepted] at hpos
          exact Nat.lt_irrefl 0 hpos
      | part n habort hanswer hpos hlt =>
        have hself := advance_cells_self (r := r) hcell n
        have hdata' : (r.answered.advance p segment n).mData = p :: rest := hdata
        have hleft : (segment.consumed n).size = segment.size - n :=
          BufferSegment.size_consumed (Nat.le_of_lt hlt)
        rw [if_pos rfl, habort, if_neg (by decide), takesAll_part hanswer hpos hlt, ih hkept.sound]
        · rw [pending_cons hdata' hself, hpending, hleft]
          show TakesAll (if segment.isAbort then _ else _) _ ↔ _
          rw [habort, if_neg (by decide)]
          exact Iff.rfl
        · rw [writeFuel_cons hdata' hself, hsizes, hleft]
          omega
      | whole n habort hanswer hpos hle =>
        rw [if_pos rfl, habort, if_neg (by decide), takesAll_whole hanswer hpos hle, ih hkept.sound]
        · rw [pending, mData_finish, writes_finish, ← hpending]
          exact Iff.rfl
        · rw [writeFuel, mData_finish, hsizes]
          omega

/-! ## The registration of the tun -/

theorem Watching.congr (h : r.Watching) (hreactor : r'.mReactor = r.mReactor)
    (htun : r'.mTunFd = r.mTunFd) : r'.Watching := by
  unfold Watching
  rw [hreactor, htun]
  exact h

theorem Watching.requestWrite (h : r.Watching) :
    r.requestWrite.Watching ∧
      r.requestWrite.mReactor.containEvent r.requestWrite.mTunFd evWRITE = 1 := by
  obtain ⟨hfd, events, hregistered, hread⟩ := h
  unfold Router.requestWrite
  by_cases hcontains : r.mReactor.containEvent r.mTunFd evWRITE = 0
  · have hadded := hregistered.addEvent hfd evWRITE r.handler 0
    have hbit : (events ||| evWRITE) &&& evWRITE != 0 := by
      rw [EpollReactor.or_and_self]
      decide
    rw [if_pos hcontains]
    exact ⟨⟨hfd, _, hadded, EpollReactor.kept_or evWRITE hread⟩,
      hadded.containWrite.trans (if_pos hbit)⟩
  · rw [if_neg hcontains]
    refine ⟨⟨hfd, events, hregistered, hread⟩, ?_⟩
    rw [hregistered.containWrite] at hcontains ⊢
    split at hcontains
    · rename_i hbit
      exact if_pos hbit
    · exact absurd rfl hcontains

-- `onWritable` gives the write event up in any case.
theorem Watching.onWritable (h : r.Watching) (hsound : r.Sound) :
    r.onWritable.Watching ∧ r.onWritable.mReactor.containEvent r.onWritable.mTunFd evWRITE = 0 := by
  obtain ⟨hfd, events, hregistered, hread⟩ := h
  obtain ⟨-, -, hreactor, htun, -⟩ := hsound.writeLoop r.writeFuel
  have hleft : (events &&& ~~~evWRITE) &&& evREAD = evREAD :=
    EpollReactor.kept_and_not hread (by decide)
  have hdeleted := hregistered.delEvent (EpollReactor.ne_zero_of_kept hleft (by decide))
  have hbit : ¬ (events &&& ~~~evWRITE) &&& evWRITE != 0 := by
    rw [EpollReactor.and_not_and_self]
    decide
  have hend : r.onWritable.mReactor = (r.mReactor.delEvent r.mTunFd evWRITE).2 := by
    show ((writeLoop r.writeFuel r).mReactor.delEvent (writeLoop r.writeFuel r).mTunFd evWRITE).2 = _
    rw [hreactor, htun]
  have hfdend : r.onWritable.mTunFd = r.mTunFd := htun
  unfold Watching
  rw [hend, hfdend]
  exact ⟨⟨hfd, _, hdeleted, hleft⟩, hdeleted.containWrite.trans (if_neg hbit)⟩

theorem Started.watching (h : Started r) : r.Watching := by
  obtain ⟨reactor, hnew, hadded⟩ := h.registered
  obtain ⟨hfd, hregistered⟩ := EpollReactor.registered_of_addEvent hnew hadded
  exact ⟨hfd, evREAD, hregistered, by decide⟩

/-! ## Runs -/

theorem Watching.step (h : r.Watching) (hsound : r.Sound) {e : Event}
    (hstep : r.step e = some r') : r'.Watching := by
  cases e with
  | build segment releaseAfterBuffering needCapture =>
    cases hstep
    exact h.congr rfl rfl
  | writePackage p =>
    cases hstep
    rcases onSyncEvent_cases p r with ⟨_, heq⟩ | ⟨segment, -, -, -, -, heq⟩ | heq
    · rw [heq]
      exact h.congr rfl rfl
    · rw [heq]
      have haccepted : (r.accepted p segment).Watching := h.congr rfl rfl
      exact haccepted.requestWrite.1
    · rw [heq]
      exact h
  | writable =>
    cases hstep
    exact (h.onWritable hsound).1
  | release p =>
    cases hstep
    unfold Router.safeRelease
    split <;> exact h.congr rfl rfl
  | reactor call =>
    simp only [Router.step] at hstep
    split at hstep
    · cases hstep
    · rename_i hother
      cases hstep
      obtain ⟨hfd, events, hregistered, hread⟩ := h
      exact ⟨hfd, events, hregistered.call hother, hread⟩
  | environment writes =>
    cases hstep
    exact h.congr rfl rfl

theorem Covered.congr (h : r.Covered) (hdata : r'.mData = r.mData)
    (hreactor : r'.mReactor = r.mReactor) (htun : r'.mTunFd = r.mTunFd) : r'.Covered := by
  unfold Covered
  rw [hdata, hreactor, htun]
  exact h

-- One step leaves the packets covered exactly if it is no writable event, or one that empties the
-- queue.
theorem step_covered_iff (hsound : r.Sound) (hwatching : r.Watching) (hcovered : r.Covered)
    (e : Event) : (∀ t, r.step e = some t → t.Covered) ↔ r.WritesTaken e := by
  cases e with
  | build segment releaseAfterBuffering needCapture =>
    refine iff_of_true (fun t ht => ?_) trivial
    cases ht
    exact hcovered.congr rfl rfl rfl
  | writePackage p =>
    refine iff_of_true (fun t ht => ?_) trivial
    cases ht
    rcases onSyncEvent_cases p r with ⟨_, heq⟩ | ⟨segment, -, -, -, -, heq⟩ | heq
    · rw [heq]
      exact hcovered.congr rfl rfl rfl
    · rw [heq]
      have haccepted : (r.accepted p segment).Watching := hwatching.congr rfl rfl
      exact fun _ => haccepted.requestWrite.2
    · rw [heq]
      exact hcovered
  | writable =>
    have hempties : r.onWritable.mData = [] ↔ TakesAll r.pending r.writes :=
      writeLoop_empties_iff hsound (Nat.le_refl _)
    have hclosed := (hwatching.onWritable hsound).2
    show (∀ t, some r.onWritable = some t → t.Covered) ↔ TakesAll r.pending r.writes
    rw [← hempties]
    constructor
    · intro hleaves
      by_contra hleft
      have hone := hleaves _ rfl hleft
      rw [hclosed] at hone
      exact absurd hone (by decide)
    · intro hempty t ht hleft
      cases ht
      exact absurd hempty hleft
  | release p =>
    refine iff_of_true (fun t ht => ?_) trivial
    cases ht
    unfold Router.safeRelease
    split <;> exact hcovered.congr rfl rfl rfl
  | reactor call =>
    refine iff_of_true (fun t ht => ?_) trivial
    simp only [Router.step] at ht
    split at ht
    · cases ht
    · rename_i hother
      cases ht
      obtain ⟨-, events, hregistered, -⟩ := hwatching
      have hkept := hregistered.call hother
      intro hleft
      have hbefore := hcovered hleft
      rw [hregistered.containWrite] at hbefore
      exact hkept.containWrite.trans hbefore
  | environment writes =>
    refine iff_of_true (fun t ht => ?_) trivial
    cases ht
    exact hcovered.congr rfl rfl rfl

/-- After every call of a run the write event is asked for while packets are queued, if and only if
    every writable event of the run finds the kernel ready for all there is. -/
theorem run_covered_iff {es : List Event} (hstart : Started r) :
    Lib.Along step (fun r e => ∀ t, r.step e = some t → t.Covered) r es ↔
      Lib.Along step WritesTaken r es := by
  have hstep (r : Router) (e : Event) (t : Router) (h : r.Sound ∧ r.Watching)
      (ht : r.step e = some t) : t.Sound ∧ t.Watching :=
    ⟨h.1.step ht, h.2.step h.1 ht⟩
  refine Lib.Along.leaves_iff (fun r => r.Sound ∧ r.Watching) Covered hstep ?_
    ⟨hstart.sound, hstart.watching⟩ fun hleft => absurd hstart.empty hleft
  exact fun r e h hcovered => step_covered_iff h.1 h.2 hcovered e

/-! ## A packet left behind -/

def sampleReactor : EpollReactor where
  mEpollFD := 3
  mFd2Events := ∅
  mDelEventStubs := []
  interest := ∅
  refuses := fun _ _ => false

-- The tun is descriptor 7, the kernel answers as given.
def sampleRouter (writes : Nat → SendOutcome) : Router where
  mTunFd := 7
  mReactor := (sampleReactor.addEvent 7 evREAD 1 0).2
  handler := 1
  writes := writes

theorem sampleRouter_started (writes : Nat → SendOutcome) : Started (sampleRouter writes) where
  empty := rfl
  nothing := rfl
  unwritten := rfl
  registered := ⟨sampleReactor, rfl, rfl⟩

def sampleEvents : List Event :=
  [.build (.ofBytes [0x45, 0x00]) true false, .writePackage 0, .writable]

theorem run_covered_sample :
    Started (sampleRouter fun _ => .accepted 1) ∧
      Lib.Along step (fun r e => ∀ t, r.step e = some t → t.Covered)
        (sampleRouter fun _ => .accepted 1) sampleEvents := by
  refine ⟨sampleRouter_started _, (run_covered_iff (sampleRouter_started _)).mpr ?_⟩
  refine ⟨trivial, trivial, ?_, trivial⟩
  -- two answers of one byte each
  exact .part rfl (by decide) (by decide) (.whole rfl (by decide) (by decide) .nil)

/-- The kernel has no room for the packet: it stays in the queue, the event is gone. -/
theorem run_stranded :
    Started (sampleRouter fun _ => .error EAGAIN) ∧
      ∃ t, Lib.run step (sampleRouter fun _ => .error EAGAIN) sampleEvents = some t ∧
        t.mData = [0] ∧ t.mReactor.containEvent t.mTunFd evWRITE = 0 :=
  ⟨sampleRouter_started _, _, rfl, rfl, rfl⟩

end Router

end NetCore
