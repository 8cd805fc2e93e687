import NetCore.EpollReactor.Loop

/-!
# What every call keeps true of the table

The table, the kernel, the list of removed stubs and the heap stay in step through every call.  The
masks in the table are known only up to a rule `P` on them: an addition joins two masks that meet
it, a deletion leaves a part of one.

A registration is known by its stub: the heap gives every stub an address of its own.
-/

namespace NetCore

namespace EpollLoop

open EpollReactor (convertEvent)

/-! ## What the trace says -/

/-- The stub with which each descriptor is registered after these points. -/
def registration (points : List LoopPoint) : Int → Option Nat :=
  points.foldl (fun table point =>
    match point with
    | .added fd p => Function.update table fd (some p)
    | .removed fd _ | .closed fd => Function.update table fd none
    | _ => table) fun _ => none

def pending (points : List LoopPoint) : List Nat :=
  points.foldl (fun stubs point =>
    match point with
    | .removed _ p => stubs ++ [p]
    | .cleaned _ => []
    | _ => stubs) []

def freed (points : List LoopPoint) : List Nat :=
  points.flatMap fun point =>
    match point with
    | .cleaned stubs => stubs
    | _ => []

def added (points : List LoopPoint) : List Nat :=
  points.flatMap fun point =>
    match point with
    | .added _ p => [p]
    | _ => []

-- What a point of the trace should say, with the points before it.
def Sane (before : List LoopPoint) : LoopPoint → Prop
  | .invoked _ fd p _ _ => registration before fd = some p
  | .cleaned stubs => stubs = pending before ∧ ∀ fd, ∀ p ∈ stubs, registration before fd ≠ some p
  | _ => True

section Points

variable (points : List LoopPoint)

@[simp] theorem registration_added (fd : Int) (p : Nat) :
    registration (points ++ [.added fd p]) = Function.update (registration points) fd (some p) := by
  unfold registration
  rw [List.foldl_append]
  rfl

@[simp] theorem registration_removed (fd : Int) (p : Nat) :
    registration (points ++ [.removed fd p]) = Function.update (registration points) fd none := by
  unfold registration
  rw [List.foldl_append]
  rfl

@[simp] theorem registration_closed (fd : Int) :
    registration (points ++ [.closed fd]) = Function.update (registration points) fd none := by
  unfold registration
  rw [List.foldl_append]
  rfl

@[simp] theorem registration_invoked (callback : Callback) (fd : Int) (p listener tag : Nat) :
    registration (points ++ [.invoked callback fd p listener tag]) = registration points := by
  unfold registration
  rw [List.foldl_append]
  rfl

@[simp] theorem registration_cleaned (stubs : List Nat) :
    registration (points ++ [.cleaned stubs]) = registration points := by
  unfold registration
  rw [List.foldl_append]
  rfl

theorem pending_snoc (point : LoopPoint) :
    pending (points ++ [point]) =
      match point with
      | .removed _ p => pending points ++ [p]
      | .cleaned _ => []
      | _ => pending points := by
  unfold pending
  rw [List.foldl_append]
  rfl

@[simp] theorem freed_snoc (point : LoopPoint) :
    freed (points ++ [point]) =
      freed points ++ match point with | .cleaned stubs => stubs | _ => [] := by
  unfold freed
  rw [List.flatMap_append, List.flatMap_singleton]

@[simp] theorem added_snoc (point : LoopPoint) :
    added (points ++ [point]) = added points ++ match point with | .added _ p => [p] | _ => [] := by
  unfold added
  rw [List.flatMap_append, List.flatMap_singleton]

end Points

/-! ## The invariant -/

structure MaskRule (P : U32 → Prop) : Prop where
  join : ∀ a b, P a → P b → P (a ||| b)
  part : ∀ a b, P a → a &&& ~~~b ≠ 0 → P (a &&& ~~~b)

structure Sound (P : U32 → Prop) (r : EpollLoop) : Prop where
  faultless : r.memory.faults = []
  stub : ∀ fd p, r.mFd2Events.lookup fd = some p →
    ∃ stub, r.memory.cells p = some stub ∧ stub.fd = fd ∧ stub.listener ≠ none ∧ P stub.events ∧
      stub.epollEvents = convertEvent stub.events ∧
      ∃ mask, r.interest.lookup fd = some (mask, p) ∧
        ((∀ fd, r.refuses .mod fd = false) → mask = stub.epollEvents)
  watched : ∀ fd mask p, r.interest.lookup fd = some (mask, p) → r.mFd2Events.lookup fd = some p
  opened : ∀ fd p, r.mFd2Events.lookup fd = some p → ¬ r.mEpollFD < 0
  deleted : ∀ p ∈ r.mDelEventStubs, ∃ stub, r.memory.cells p = some stub ∧ stub.listener = none
  registered : ∀ fd, registration r.trace fd = r.mFd2Events.lookup fd
  waiting : pending r.trace = r.mDelEventStubs
  /-- No stub is deleted twice, and none that is still to be deleted has been. -/
  distinct : (freed r.trace ++ r.mDelEventStubs).Nodup
  gone : ∀ p ∈ freed r.trace, p < r.memory.next ∧ r.memory.cells p = none
  once : (added r.trace).Nodup
  known : ∀ p ∈ added r.trace, p < r.memory.next
  /-- On the heap are the stubs registered and not deleted, and nothing else. -/
  live : ∀ p, r.memory.Live p ↔ p ∈ added r.trace ∧ p ∉ freed r.trace
  timely : Lib.Timely Sane r.trace

variable {P : U32 → Prop} {r : EpollLoop} {fd : Int} {p : Nat} {stub : EventStub}

theorem Started.sound (h : r.Started) : Sound P r where
  faultless := by rw [h.memory]; rfl
  stub fd p hentry := by
    rw [h.empty] at hentry
    cases hentry
  watched fd mask p hentry := by
    rw [h.interest] at hentry
    cases hentry
  opened fd p hentry := by
    rw [h.empty] at hentry
    cases hentry
  deleted p hp := by
    rw [h.undeleted] at hp
    cases hp
  registered fd := by rw [h.trace, h.empty]; rfl
  waiting := by rw [h.trace, h.undeleted]; rfl
  distinct := by rw [h.trace, h.undeleted]; exact List.nodup_nil
  gone p hp := by
    rw [h.trace] at hp
    cases hp
  once := by rw [h.trace]; exact List.nodup_nil
  known p hp := by
    rw [h.trace] at hp
    cases hp
  live p := by
    rw [h.memory, h.trace]
    exact iff_of_false Bool.false_ne_true fun hp => List.not_mem_nil hp.1
  timely := by rw [h.trace]; exact Lib.timely_nil

-- The stub of a descriptor belongs to no other one.
theorem Sound.unique (h : Sound P r) {other : Int} (hentry : r.mFd2Events.lookup fd = some p)
    (hother : r.mFd2Events.lookup other = some p) : other = fd := by
  obtain ⟨stub, hcell, hfd, -⟩ := h.stub fd p hentry
  obtain ⟨stub', hcell', hfd', -⟩ := h.stub other p hother
  rw [hcell] at hcell'
  cases hcell'
  exact hfd'.symm.trans hfd

-- A removed stub has left the table.
theorem Sound.removed_left (h : Sound P r) (hp : p ∈ r.mDelEventStubs) (fd : Int) :
    r.mFd2Events.lookup fd ≠ some p := by
  intro hentry
  obtain ⟨stub, hcell, -, hlistener, -⟩ := h.stub fd p hentry
  obtain ⟨stub', hcell', hnone⟩ := h.deleted p hp
  rw [hcell] at hcell'
  cases hcell'
  exact hlistener hnone

/-! ## What the calls do to it -/

-- The stub of `fd` is changed where it is; a refused MOD leaves the kernel behind.
theorem Sound.update (h : Sound P r) (hentry : r.mFd2Events.lookup fd = some p)
    (hcell : r.memory.cells p = some stub) {f : EventStub → EventStub}
    {interest : AList fun _ : Int => U32 × Nat} (hfd : (f stub).fd = stub.fd)
    (hlistener : (f stub).listener ≠ none) (hevents : P (f stub).events)
    (hmask : (f stub).epollEvents = convertEvent (f stub).events)
    (hinterest : interest = r.interest.insert fd ((f stub).epollEvents, p) ∨
      interest = r.interest ∧ r.refuses .mod fd = true) :
    Sound P { r.onMemory (.modify p f) with interest := interest } := by
  have hlive : r.memory.Live p := Lib.Heap.live_of_cell hcell
  have hself : (r.memory.modify p f).cells p = some (f stub) := Lib.Heap.modify_self hcell
  have hother (q : Nat) (hq : q ≠ p) : (r.memory.modify p f).cells q = r.memory.cells q :=
    Lib.Heap.modify_of_ne hq
  constructor
  case faultless => exact (Lib.Heap.faults_modify hlive).trans h.faultless
  case stub =>
    intro fd' q hentry'
    obtain ⟨stub', hcell', hfd', hlistener', hevents', hmask', mask, hkernel, hmirror⟩ :=
      h.stub fd' q hentry'
    by_cases hq : q = p
    · subst hq
      obtain rfl := h.unique hentry hentry'
      rw [hcell] at hcell'
      cases hcell'
      refine ⟨f stub, hself, hfd.trans hfd', hlistener, hevents, hmask, ?_⟩
      rcases hinterest with rfl | ⟨rfl, hrefused⟩
      · exact ⟨_, AList.lookup_insert _, fun _ => rfl⟩
      · refine ⟨mask, hkernel, fun hkept => ?_⟩
        have hkept' : r.refuses .mod fd' = false := hkept fd'
        rw [hkept'] at hrefused
        cases hrefused
    · have hne : fd' ≠ fd := by
        intro heq
        subst heq
        exact hq (Option.some.inj (hentry'.symm.trans hentry))
      refine ⟨stub', (hother q hq).trans hcell', hfd', hlistener', hevents', hmask', mask, ?_,
        hmirror⟩
      rcases hinterest with rfl | ⟨rfl, -⟩
      · exact (AList.lookup_insert_ne hne).trans hkernel
      · exact hkernel
  case watched =>
    intro fd' mask q hkernel
    rcases hinterest with rfl | ⟨rfl, -⟩
    · by_cases heq : fd' = fd
      · subst heq
        rw [AList.lookup_insert] at hkernel
        cases hkernel
        exact hentry
      · exact h.watched fd' mask q ((AList.lookup_insert_ne heq).symm.trans hkernel)
    · exact h.watched fd' mask q hkernel
  case opened => exact h.opened
  case deleted =>
    intro q hq
    obtain ⟨stub', hcell', hnone⟩ := h.deleted q hq
    have hne : q ≠ p := fun heq => h.removed_left hq fd (heq ▸ hentry)
    exact ⟨stub', (hother q hne).trans hcell', hnone⟩
  case registered => exact h.registered
  case waiting => exact h.waiting
  case distinct => exact h.distinct
  case gone =>
    intro q hq
    obtain ⟨hlt, hgone⟩ := h.gone q hq
    have hne : q ≠ p := by
      intro heq
      rw [heq, hcell] at hgone
      cases hgone
    exact ⟨Lib.Heap.next_modify.symm ▸ hlt, (hother q hne).trans hgone⟩
  case once => exact h.once
  case known =>
    intro q hq
    exact Lib.Heap.next_modify.symm ▸ h.known q hq
  case live => exact fun q => Lib.Heap.live_modify.trans (h.live q)
  case timely => exact h.timely

-- A refused ADD: the new stub is deleted at once.
theorem Sound.drop (h : Sound P r) (stub : EventStub) :
    Sound P (r.onMemory fun memory => (memory.alloc stub).free memory.next) := by
  have hlive : (r.memory.alloc stub).Live r.memory.next :=
    Lib.Heap.live_of_cell Lib.Heap.alloc_self
  -- the address was free before and is free again
  have hcells : ((r.memory.alloc stub).free r.memory.next).cells = r.memory.cells := by
    funext q
    by_cases hq : q = r.memory.next
    · rw [hq, Lib.Heap.free_self hlive, r.memory.fresh _ (Nat.le_refl _)]
    · rw [Lib.Heap.free_of_ne hq, Lib.Heap.alloc_of_ne hq]
  have hnext : ((r.memory.alloc stub).free r.memory.next).next = r.memory.next + 1 := by
    rw [Lib.Heap.next_free, Lib.Heap.next_alloc]
  constructor
  case faultless => exact (Lib.Heap.faults_free hlive).trans h.faultless
  case stub =>
    intro fd p hentry
    obtain ⟨stub', hcell, hrest⟩ := h.stub fd p hentry
    exact ⟨stub', (congrFun hcells p).trans hcell, hrest⟩
  case watched => exact h.watched
  case opened => exact h.opened
  case deleted =>
    intro p hp
    obtain ⟨stub', hcell, hnone⟩ := h.deleted p hp
    exact ⟨stub', (congrFun hcells p).trans hcell, hnone⟩
  case registered => exact h.registered
  case waiting => exact h.waiting
  case distinct => exact h.distinct
  case gone =>
    intro p hp
    obtain ⟨hlt, hgone⟩ := h.gone p hp
    have hlt' : p < ((r.memory.alloc stub).free r.memory.next).next := by omega
    exact ⟨hlt', (congrFun hcells p).trans hgone⟩
  case once => exact h.once
  case known =>
    intro p hp
    have hlt := h.known p hp
    show p < ((r.memory.alloc stub).free r.memory.next).next
    omega
  case live =>
    intro p
    show (((r.memory.alloc stub).free r.memory.next).cells p).isSome ↔ _
    rw [hcells]
    exact h.live p
  case timely => exact h.timely

-- ADD of a descriptor that is not there.
theorem Sound.add (h : Sound P r) (hopen : ¬ r.mEpollFD < 0)
    (hentry : r.mFd2Events.lookup fd = none) (hfd : stub.fd = fd) (hlistener : stub.listener ≠ none)
    (hevents : P stub.events) (hmask : stub.epollEvents = convertEvent stub.events) :
    Sound P (emit (.added fd r.memory.next)
      { r.onMemory (.alloc stub) with
        mFd2Events := r.mFd2Events.insert fd r.memory.next
        interest := r.interest.insert fd (stub.epollEvents, r.memory.next) }) := by
  have hcells (q : Nat) (x : EventStub) (hx : r.memory.cells q = some x) :
      (r.memory.alloc stub).cells q = some x :=
    (Lib.Heap.alloc_of_live (Lib.Heap.live_of_cell hx)).trans hx
  constructor
  case faultless => exact h.faultless
  case stub =>
    intro fd' q hentry'
    by_cases heq : fd' = fd
    · subst heq
      obtain rfl : r.memory.next = q :=
        Option.some.inj ((AList.lookup_insert _).symm.trans hentry')
      exact ⟨stub, Lib.Heap.alloc_self, hfd, hlistener, hevents, hmask, _, AList.lookup_insert _,
        fun _ => rfl⟩
    · obtain ⟨stub', hcell, hfd', hlistener', hevents', hmask', mask, hkernel, hmirror⟩ :=
        h.stub fd' q ((AList.lookup_insert_ne heq).symm.trans hentry')
      exact ⟨stub', hcells q stub' hcell, hfd', hlistener', hevents', hmask', mask,
        (AList.lookup_insert_ne heq).trans hkernel, hmirror⟩
  case watched =>
    intro fd' mask q hkernel
    by_cases heq : fd' = fd
    · subst heq
      cases (AList.lookup_insert _).symm.trans hkernel
      exact AList.lookup_insert _
    · exact (AList.lookup_insert_ne heq).trans
        (h.watched fd' mask q ((AList.lookup_insert_ne heq).symm.trans hkernel))
  case opened => exact fun _ _ _ => hopen
  case deleted =>
    intro q hq
    obtain ⟨stub', hcell, hnone⟩ := h.deleted q hq
    exact ⟨stub', hcells q stub' hcell, hnone⟩
  case registered =>
    intro fd'
    show registration (r.trace ++ [.added fd r.memory.next]) fd' = _
    rw [registration_added]
    by_cases heq : fd' = fd
    · subst heq
      have hlookup : (r.mFd2Events.insert fd' r.memory.next).lookup fd' = some r.memory.next :=
        AList.lookup_insert _
      exact (Function.update_self ..).trans hlookup.symm
    · rw [Function.update_of_ne heq, h.registered]
      exact (AList.lookup_insert_ne heq).symm
  case waiting => exact (pending_snoc ..).trans h.waiting
  case distinct =>
    show (freed (r.trace ++ [.added fd r.memory.next]) ++ r.mDelEventStubs).Nodup
    rw [freed_snoc, List.append_nil]
    exact h.distinct
  case gone =>
    intro q hq
    have hq' : q ∈ freed (r.trace ++ [.added fd r.memory.next]) := hq
    rw [freed_snoc, List.append_nil] at hq'
    obtain ⟨hlt, hgone⟩ := h.gone q hq'
    have hne : q ≠ r.memory.next := by omega
    refine ⟨?_, (Lib.Heap.alloc_of_ne hne).trans hgone⟩
    show q < r.memory.next + 1
    omega
  case once =>
    show (added (r.trace ++ [.added fd r.memory.next])).Nodup
    rw [added_snoc]
    refine h.once.append (List.nodup_singleton _) ?_
    intro q hq hq'
    have hlt := h.known q hq
    rw [List.mem_singleton.mp hq'] at hlt
    omega
  case known =>
    intro q hq
    show q < r.memory.next + 1
    have hq' : q ∈ added (r.trace ++ [.added fd r.memory.next]) := hq
    rw [added_snoc] at hq'
    rcases List.mem_append.mp hq' with hq' | hq'
    · have hlt := h.known q hq'
      omega
    · rw [List.mem_singleton.mp hq']
      omega
  case live =>
    intro q
    show (r.memory.alloc stub).Live q ↔
      q ∈ added (r.trace ++ [.added fd r.memory.next]) ∧ q ∉ freed (r.trace ++ [.added fd r.memory.next])
    rw [added_snoc, freed_snoc, List.append_nil, List.mem_append, List.mem_singleton]
    by_cases hq : q = r.memory.next
    · subst hq
      have hnew : r.memory.next ∉ freed r.trace := fun hmem =>
        Nat.lt_irrefl _ (h.gone r.memory.next hmem).1
      exact iff_of_true (Lib.Heap.live_of_cell Lib.Heap.alloc_self) ⟨.inr rfl, hnew⟩
    · have hsame : (r.memory.alloc stub).Live q ↔ r.memory.Live q := by
        unfold Lib.Heap.Live
        rw [Lib.Heap.alloc_of_ne hq]
      rw [hsame, h.live, or_iff_left hq]
  case timely => exact h.timely.snoc trivial

-- DEL of the last interests: the stub waits for the clean-up.
theorem Sound.remove (h : Sound P r) (hentry : r.mFd2Events.lookup fd = some p)
    (hcell : r.memory.cells p = some stub) {f : EventStub → EventStub}
    (hlistener : (f stub).listener = none) :
    Sound P (emit (.removed fd p)
      { r.onMemory (.modify p f) with
        mDelEventStubs := r.mDelEventStubs ++ [p]
        mFd2Events := r.mFd2Events.erase fd
        interest := r.interest.erase fd }) := by
  have hlive : r.memory.Live p := Lib.Heap.live_of_cell hcell
  have hself : (r.memory.modify p f).cells p = some (f stub) := Lib.Heap.modify_self hcell
  have hother (q : Nat) (hq : q ≠ p) : (r.memory.modify p f).cells q = r.memory.cells q :=
    Lib.Heap.modify_of_ne hq
  have hleft (fd' : Int) (q : Nat) (hq : (r.mFd2Events.erase fd).lookup fd' = some q) :
      fd' ≠ fd ∧ r.mFd2Events.lookup fd' = some q := by
    by_cases heq : fd' = fd
    · subst heq
      cases (AList.lookup_erase ..).symm.trans hq
    · exact ⟨heq, (AList.lookup_erase_ne heq).symm.trans hq⟩
  constructor
  case faultless => exact (Lib.Heap.faults_modify hlive).trans h.faultless
  case stub =>
    intro fd' q hentry'
    obtain ⟨hne, hq⟩ := hleft fd' q hentry'
    obtain ⟨stub', hcell', hfd', hlistener', hevents', hmask', mask, hkernel, hmirror⟩ :=
      h.stub fd' q hq
    have hqp : q ≠ p := fun heq => hne (h.unique hentry (heq ▸ hq))
    exact ⟨stub', (hother q hqp).trans hcell', hfd', hlistener', hevents', hmask', mask,
      (AList.lookup_erase_ne hne).trans hkernel, hmirror⟩
  case watched =>
    intro fd' mask q hkernel
    by_cases heq : fd' = fd
    · subst heq
      cases (AList.lookup_erase ..).symm.trans hkernel
    · exact (AList.lookup_erase_ne heq).trans
        (h.watched fd' mask q ((AList.lookup_erase_ne heq).symm.trans hkernel))
  case opened => exact fun fd' q hentry' => h.opened fd' q (hleft fd' q hentry').2
  case deleted =>
    intro q hq
    by_cases heq : q = p
    · exact ⟨f stub, heq ▸ hself, hlistener⟩
    · have hold : q ∈ r.mDelEventStubs :=
        (List.mem_append.mp hq).resolve_right fun hlast => heq (List.mem_singleton.mp hlast)
      obtain ⟨stub', hcell', hnone⟩ := h.deleted q hold
      exact ⟨stub', (hother q heq).trans hcell', hnone⟩
  case registered =>
    intro fd'
    show registration (r.trace ++ [.removed fd p]) fd' = _
    rw [registration_removed]
    by_cases heq : fd' = fd
    · subst heq
      have hlookup : (r.mFd2Events.erase fd').lookup fd' = none := AList.lookup_erase ..
      exact (Function.update_self ..).trans hlookup.symm
    · rw [Function.update_of_ne heq, h.registered]
      exact (AList.lookup_erase_ne heq).symm
  case waiting =>
    show pending (r.trace ++ [.removed fd p]) = r.mDelEventStubs ++ [p]
    rw [pending_snoc, h.waiting]
  case distinct =>
    show (freed (r.trace ++ [.removed fd p]) ++ (r.mDelEventStubs ++ [p])).Nodup
    rw [freed_snoc, List.append_nil, ← List.append_assoc]
    refine h.distinct.append (List.nodup_singleton _) ?_
    intro q hq hlast
    rw [List.mem_singleton.mp hlast] at hq
    rcases List.mem_append.mp hq with hq | hq
    · rw [(h.gone p hq).2] at hcell
      cases hcell
    · exact h.removed_left hq fd hentry
  case gone =>
    intro q hq
    have hq' : q ∈ freed (r.trace ++ [.removed fd p]) := hq
    rw [freed_snoc, List.append_nil] at hq'
    obtain ⟨hlt, hgone⟩ := h.gone q hq'
    have hne : q ≠ p := by
      intro heq
      rw [heq, hcell] at hgone
      cases hgone
    exact ⟨Lib.Heap.next_modify.symm ▸ hlt, (hother q hne).trans hgone⟩
  case once =>
    show (added (r.trace ++ [.removed fd p])).Nodup
    rw [added_snoc, List.append_nil]
    exact h.once
  case known =>
    intro q hq
    have hq' : q ∈ added (r.trace ++ [.removed fd p]) := hq
    rw [added_snoc, List.append_nil] at hq'
    exact Lib.Heap.next_modify.symm ▸ h.known q hq'
  case live =>
    intro q
    show (r.memory.modify p f).Live q ↔
      q ∈ added (r.trace ++ [.removed fd p]) ∧ q ∉ freed (r.trace ++ [.removed fd p])
    rw [added_snoc, freed_snoc, List.append_nil, List.append_nil]
    exact Lib.Heap.live_modify.trans (h.live q)
  case timely => exact h.timely.snoc trivial

@[simp] theorem epollCtl_onMemory {f : Lib.Heap EventStub → Lib.Heap EventStub} {op : EpollOp}
    {mask : U32} : (r.onMemory f).epollCtl op fd mask p = r.epollCtl op fd mask p := rfl

theorem Sound.addEvent (h : Sound P r) (rule : MaskRule P) {events : U32} (hevents : P events)
    (fd : Int) (listener tag : Nat) : Sound P (r.addEvent fd events listener tag).2 := by
  unfold EpollLoop.addEvent
  split
  · exact h
  split
  · exact h
  next hopen =>
    cases hentry : r.mFd2Events.lookup fd with
    | none =>
      simp only
      split
      · exact h.drop _
      next interest hctl =>
        obtain rfl := epollCtl_add hctl
        exact h.add hopen hentry rfl (by simp) hevents rfl
    | some p =>
      obtain ⟨stub, hcell, -, -, hold, -, mask, hkernel, -⟩ := h.stub fd p hentry
      have hmerged : P (stub.events ||| events) := rule.join _ _ hold hevents
      simp only [hcell]
      rw [epollCtl_onMemory, epollCtl, epollCtl_mod hkernel]
      by_cases hrefused : r.refuses .mod fd = true
      · have hupdated := h.update (f := fun stub' =>
          handOver listener tag (setEvents (stub.events ||| events) stub')) hentry hcell rfl
          (by simp [handOver]) hmerged rfl (.inr ⟨rfl, hrefused⟩)
        rw [if_pos hrefused]
        exact hupdated
      · rw [if_neg hrefused]
        exact h.update hentry hcell rfl (by simp [handOver]) hmerged rfl (.inl rfl)

theorem Sound.delEvent (h : Sound P r) (rule : MaskRule P) (hdel : ∀ fd, r.refuses .del fd = false)
    (fd : Int) (events : U32) : Sound P (r.delEvent fd events).2 := by
  unfold EpollLoop.delEvent
  split
  · exact h
  cases hentry : r.mFd2Events.lookup fd with
  | none => exact h
  | some p =>
    obtain ⟨stub, hcell, -, hlistener, hold, -, mask, hkernel, -⟩ := h.stub fd p hentry
    simp only [hcell, if_neg hlistener]
    by_cases hleft : stub.events &&& ~~~events = 0
    · simp only [if_pos hleft]
      rw [epollCtl_onMemory, epollCtl, epollCtl_del hkernel, hdel, if_neg Bool.false_ne_true]
      have hmemory : (r.onMemory (.modify p (setEvents (stub.events &&& ~~~events)))).onMemory
          (.modify p dropListener) = r.onMemory (.modify p fun stub' =>
            dropListener (setEvents (stub.events &&& ~~~events) stub')) :=
        congrArg (fun memory => { r with memory := memory }) (Lib.Heap.modify_modify hcell)
      have hremoved := h.remove (f := fun stub' =>
        dropListener (setEvents (stub.events &&& ~~~events) stub')) hentry hcell rfl
      rw [← hmemory] at hremoved
      exact hremoved
    · simp only [if_neg hleft]
      have hpart : P (stub.events &&& ~~~events) := rule.part _ _ hold hleft
      rw [epollCtl_onMemory, epollCtl, epollCtl_mod hkernel]
      by_cases hrefused : r.refuses .mod fd = true
      · have hupdated := h.update (f := setEvents (stub.events &&& ~~~events)) hentry hcell rfl
          hlistener hpart rfl (.inr ⟨rfl, hrefused⟩)
        rw [if_pos hrefused]
        exact hupdated
      · rw [if_neg hrefused]
        exact h.update hentry hcell rfl hlistener hpart rfl (.inl rfl)

-- The points that neither add nor delete a stub.
def Quiet : LoopPoint → Prop
  | .closed _ | .invoked .. => True
  | _ => False

theorem Sound.quiet (h : Sound P r) {point : LoopPoint} (hquiet : Quiet point)
    (hregistration : registration (r.trace ++ [point]) = registration r.trace)
    (hsane : Sane r.trace point) : Sound P (r.emit point) := by
  have hpending : pending (r.trace ++ [point]) = pending r.trace := by
    rw [pending_snoc]
    cases point <;> first | rfl | exact hquiet.elim
  have hfreed : freed (r.trace ++ [point]) = freed r.trace := by
    rw [freed_snoc]
    cases point <;> first | exact List.append_nil _ | exact hquiet.elim
  have hadded : added (r.trace ++ [point]) = added r.trace := by
    rw [added_snoc]
    cases point <;> first | exact List.append_nil _ | exact hquiet.elim
  constructor
  case faultless => exact h.faultless
  case stub => exact h.stub
  case watched => exact h.watched
  case opened => exact h.opened
  case deleted => exact h.deleted
  case registered =>
    intro fd
    show registration (r.trace ++ [point]) fd = _
    rw [hregistration]
    exact h.registered fd
  case waiting => exact hpending.trans h.waiting
  case distinct =>
    show (freed (r.trace ++ [point]) ++ r.mDelEventStubs).Nodup
    rw [hfreed]
    exact h.distinct
  case gone =>
    intro q hq
    have hq' : q ∈ freed (r.trace ++ [point]) := hq
    rw [hfreed] at hq'
    exact h.gone q hq'
  case once =>
    show (added (r.trace ++ [point])).Nodup
    rw [hadded]
    exact h.once
  case known =>
    intro q hq
    have hq' : q ∈ added (r.trace ++ [point]) := hq
    rw [hadded] at hq'
    exact h.known q hq'
  case live =>
    intro q
    show r.memory.Live q ↔ q ∈ added (r.trace ++ [point]) ∧ q ∉ freed (r.trace ++ [point])
    rw [hadded, hfreed]
    exact h.live q
  case timely => exact h.timely.snoc hsane

-- Closing a descriptor that is out of the table: the kernel does not watch it either.
theorem Sound.closeFd (h : Sound P r) (hentry : r.mFd2Events.lookup fd = none) :
    Sound P (r.closeFd fd) := by
  have hregistration : registration (r.trace ++ [.closed fd]) = registration r.trace := by
    rw [registration_closed]
    exact Function.update_eq_self_iff.mpr ((h.registered fd).trans hentry).symm
  have hkernel : r.interest.lookup fd = none := by
    cases hk : r.interest.lookup fd with
    | none => rfl
    | some entry => cases hentry.symm.trans (h.watched fd entry.1 entry.2 hk)
  have hinterest (fd' : Int) : (r.interest.erase fd).lookup fd' = r.interest.lookup fd' := by
    by_cases heq : fd' = fd
    · subst heq
      exact (AList.lookup_erase ..).trans hkernel.symm
    · exact AList.lookup_erase_ne heq
  have hclosed : Sound P (r.emit (.closed fd)) := h.quiet trivial hregistration trivial
  refine { hclosed with stub := fun fd' q hentry' => ?_, watched := fun fd' mask q hk => ?_ }
  · obtain ⟨stub, hcell, hfd, hlistener, hevents, hmask, mask, hk, hmirror⟩ := h.stub fd' q hentry'
    exact ⟨stub, hcell, hfd, hlistener, hevents, hmask, mask, (hinterest fd').trans hk, hmirror⟩
  · exact h.watched fd' mask q ((hinterest fd').symm.trans hk)

-- With every interest deleted a descriptor is out of the table, if its mask has no other bits.
theorem Sound.delEvent_all (h : Sound P r) (hP : ∀ mask, P mask → mask &&& ~~~evALL = 0)
    (hdel : ∀ fd, r.refuses .del fd = false) (fd : Int) :
    (r.delEvent fd evALL).2.mFd2Events.lookup fd = none := by
  unfold EpollLoop.delEvent
  cases hentry : r.mFd2Events.lookup fd with
  | none => split <;> exact hentry
  | some p =>
    obtain ⟨stub, hcell, -, hlistener, hold, -, mask, hkernel, -⟩ := h.stub fd p hentry
    rw [if_neg (h.opened fd p hentry)]
    simp only [hcell, if_neg hlistener, if_pos (hP _ hold)]
    rw [epollCtl_onMemory, epollCtl, epollCtl_del hkernel, hdel, if_neg Bool.false_ne_true]
    exact AList.lookup_erase ..

theorem refuses_delEvent (fd : Int) (events : U32) : (r.delEvent fd events).2.refuses = r.refuses := by
  simp only [EpollLoop.delEvent]
  repeat' split
  all_goals rfl

theorem refuses_addEvent (fd : Int) (events : U32) (listener tag : Nat) :
    (r.addEvent fd events listener tag).2.refuses = r.refuses := by
  simp only [EpollLoop.addEvent]
  repeat' split
  all_goals rfl

def LoopCall.Admits (P : U32 → Prop) : LoopCall → Prop
  | .addEvent _ events _ _ => P events
  | .delEvent _ _ => True
  | .closeSocket _ => ∀ mask, P mask → mask &&& ~~~evALL = 0

theorem Sound.call (h : Sound P r) (rule : MaskRule P) (hdel : ∀ fd, r.refuses .del fd = false)
    {c : LoopCall} (hc : LoopCall.Admits P c) : Sound P (r.call c) := by
  cases c with
  | addEvent fd events listener tag => exact h.addEvent rule hc fd listener tag
  | delEvent fd events => exact h.delEvent rule hdel fd events
  | closeSocket fd =>
    show Sound P (r.closeSocket fd)
    unfold closeSocket
    split
    · exact (h.delEvent rule hdel fd evALL).closeFd (h.delEvent_all hc hdel fd)
    · exact h

theorem refuses_call (c : LoopCall) : (r.call c).refuses = r.refuses := by
  cases c with
  | addEvent fd events listener tag => exact refuses_addEvent ..
  | delEvent fd events => exact refuses_delEvent ..
  | closeSocket fd =>
    show (r.closeSocket fd).refuses = _
    unfold closeSocket
    split
    · exact refuses_delEvent ..
    · rfl

end EpollLoop

end NetCore
