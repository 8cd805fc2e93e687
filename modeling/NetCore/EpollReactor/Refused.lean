import NetCore.EpollReactor.Loop

/-!
# Calls that fail

`addEvent` and `delEvent` write the stub of a descriptor that is in the table before they ask the
kernel, and nobody writes it back when the kernel refuses.  Every other failure comes before the first
change, or is undone.
-/

namespace NetCore

namespace EpollLoop

open EpollReactor (Call convertEvent)

def attempt (c : Call) (r : EpollLoop) : Int × EpollLoop :=
  match c with
  | .addEvent fd events listener tag => r.addEvent fd events listener tag
  | .delEvent fd events => r.delEvent fd events

structure SameTable (r r' : EpollLoop) : Prop where
  mFd2Events : r'.mFd2Events = r.mFd2Events
  mDelEventStubs : r'.mDelEventStubs = r.mDelEventStubs
  stubs : r'.memory.cells = r.memory.cells
  interest : r'.interest = r.interest

/-- What a call makes of the stub before it asks the kernel. -/
def rewritten (c : Call) (stub : EventStub) : EventStub :=
  match c with
  | .addEvent _ events listener tag => handOver listener tag (setEvents (stub.events ||| events) stub)
  | .delEvent _ events => setEvents (stub.events &&& ~~~events) stub

def asked (c : Call) (stub : EventStub) : EpollOp :=
  match c with
  | .addEvent _ _ _ _ => .mod
  | .delEvent _ events => if stub.events &&& ~~~events = 0 then .del else .mod

/-- A call gets as far as the kernel. -/
def Asks (r : EpollLoop) (c : Call) (stub : EventStub) : Prop :=
  ¬ r.mEpollFD < 0 ∧
    match c with
    | .addEvent fd _ _ _ => ¬ fd < 0
    | .delEvent _ _ => stub.listener ≠ none

/-- The kernel grants MOD and DEL of a descriptor it watches, unless it has reasons of its own. -/
def Grants (r : EpollLoop) (op : EpollOp) (fd : Int) : Prop :=
  (r.interest.lookup fd).isSome ∧ r.refuses op fd = false

/-- A call on a descriptor in the table is granted, or asks for nothing that its stub does not say
    already. -/
def Harmless (r : EpollLoop) (c : Call) : Prop :=
  ∀ p stub, r.mFd2Events.lookup c.target = some p → r.memory.cells p = some stub → r.Asks c stub →
    r.Grants (asked c stub) c.target ∨ rewritten c stub = stub

variable {r : EpollLoop}

theorem SameTable.refl (r : EpollLoop) : SameTable r r := ⟨rfl, rfl, rfl, rfl⟩

-- An access to a stub that is gone.
theorem sameTable_fault (p : Nat) : SameTable r (r.onMemory (.fault p)) := ⟨rfl, rfl, rfl, rfl⟩

-- The stub of a failed ADD is deleted again.
theorem sameTable_alloc_free (stub : EventStub) :
    SameTable r ((r.onMemory (.alloc stub)).onMemory (.free r.memory.next)) := by
  refine ⟨rfl, rfl, ?_, rfl⟩
  have hself : (r.memory.alloc stub).cells r.memory.next = some stub := Lib.Heap.alloc_self
  funext p
  show ((r.memory.alloc stub).free r.memory.next).cells p = r.memory.cells p
  by_cases hp : p = r.memory.next
  · rw [hp, Lib.Heap.free_self (Lib.Heap.live_of_cell hself)]
    exact (r.memory.fresh _ (Nat.le_refl _)).symm
  · rw [Lib.Heap.free_of_ne hp, Lib.Heap.alloc_of_ne hp]

-- A stub written over is the same only if nothing new was written.
theorem sameTable_modify {p : Nat} {stub : EventStub} {f : EventStub → EventStub}
    (hcell : r.memory.cells p = some stub) :
    SameTable r (r.onMemory (.modify p f)) ↔ f stub = stub := by
  have hself : (r.memory.modify p f).cells p = some (f stub) := Lib.Heap.modify_self hcell
  constructor
  · intro hsame
    have hcells : (r.memory.modify p f).cells p = r.memory.cells p := congrFun hsame.stubs p
    rw [hself, hcell] at hcells
    exact Option.some.inj hcells
  · intro hstub
    refine ⟨rfl, rfl, ?_, rfl⟩
    funext q
    show (r.memory.modify p f).cells q = r.memory.cells q
    by_cases hq : q = p
    · rw [hq, hself, hcell, hstub]
    · exact Lib.Heap.modify_of_ne hq

theorem grants_of_some {op : EpollOp} {fd : Int} {mask : U32} {ptr : Nat}
    {interest : AList fun _ : Int => U32 × Nat} (hop : op ≠ .add)
    (h : r.epollCtl op fd mask ptr = some interest) : r.Grants op fd := by
  unfold epollCtl NetCore.epollCtl at h
  unfold Grants
  cases op with
  | add => exact absurd rfl hop
  | mod =>
    revert h
    cases (r.interest.lookup fd).isSome <;> cases r.refuses .mod fd <;> simp
  | del =>
    revert h
    cases (r.interest.lookup fd).isSome <;> cases r.refuses .del fd <;> simp

theorem not_grants_of_none {op : EpollOp} {fd : Int} {mask : U32} {ptr : Nat} (hop : op ≠ .add)
    (h : r.epollCtl op fd mask ptr = none) : ¬ r.Grants op fd := by
  rintro ⟨hwatched, hgranted⟩
  unfold epollCtl NetCore.epollCtl at h
  cases op with
  | add => exact hop rfl
  | mod => simp [hwatched, hgranted] at h
  | del => simp [hwatched, hgranted] at h

-- What is known of a call whose stub is there and which the kernel has refused.
theorem harmless_iff {c : Call} {p : Nat} {stub : EventStub}
    (hentry : r.mFd2Events.lookup c.target = some p) (hcell : r.memory.cells p = some stub)
    (hasks : r.Asks c stub) (hrefused : ¬ r.Grants (asked c stub) c.target) :
    r.Harmless c ↔ rewritten c stub = stub := by
  constructor
  · intro h
    exact (h p stub hentry hcell hasks).resolve_left hrefused
  · intro h p' stub' hentry' hcell' _
    cases hentry.symm.trans hentry'
    cases hcell.symm.trans hcell'
    exact .inr h

theorem addEvent_same_iff (fd : Int) (events : U32) (listener tag : Nat) :
    ((r.addEvent fd events listener tag).1 ≠ 0 →
        SameTable r (r.addEvent fd events listener tag).2) ↔
      r.Harmless (.addEvent fd events listener tag) := by
  unfold addEvent
  by_cases hfd : fd < 0
  · rw [if_pos hfd]
    exact iff_of_true (fun _ => .refl r) (fun p stub _ _ hasks => absurd hfd hasks.2)
  · rw [if_neg hfd]
    by_cases hopen : r.mEpollFD < 0
    · rw [if_pos hopen]
      exact iff_of_true (fun _ => .refl r) (fun p stub _ _ hasks => absurd hopen hasks.1)
    · rw [if_neg hopen]
      cases hentry : r.mFd2Events.lookup fd with
      | none =>
        refine iff_of_true ?_ fun p stub hp _ _ => by cases hentry.symm.trans hp
        dsimp only
        split
        · intro _
          exact sameTable_alloc_free _
        · intro hfails
          exact absurd rfl hfails
      | some p =>
        cases hcell : r.memory.cells p with
        | none =>
          dsimp only
          rw [hcell]
          refine iff_of_true (fun _ => sameTable_fault p) fun p' stub hp hstub _ => ?_
          cases hentry.symm.trans hp
          cases hcell.symm.trans hstub
        | some stub =>
          dsimp only
          rw [hcell]
          dsimp only
          have hasks : r.Asks (.addEvent fd events listener tag) stub := ⟨hopen, hfd⟩
          split
          next hctl =>
            have hrefused := not_grants_of_none (by decide) hctl
            rw [harmless_iff (c := .addEvent fd events listener tag) hentry hcell hasks hrefused]
            dsimp only
            exact (imp_iff_right (by decide)).trans (sameTable_modify hcell)
          next hctl =>
            have hgranted := grants_of_some (by decide) hctl
            refine iff_of_true (fun hfails => absurd rfl hfails) fun p' stub' _ _ _ => .inl hgranted

theorem delEvent_same_iff (fd : Int) (events : U32) :
    ((r.delEvent fd events).1 ≠ 0 → SameTable r (r.delEvent fd events).2) ↔
      r.Harmless (.delEvent fd events) := by
  unfold delEvent
  by_cases hopen : r.mEpollFD < 0
  · rw [if_pos hopen]
    exact iff_of_true (fun _ => .refl r) (fun p stub _ _ hasks => absurd hopen hasks.1)
  · rw [if_neg hopen]
    cases hentry : r.mFd2Events.lookup fd with
    | none =>
      exact iff_of_true (fun _ => .refl r) fun p stub hp _ _ => by cases hentry.symm.trans hp
    | some p =>
      cases hcell : r.memory.cells p with
      | none =>
        dsimp only
        rw [hcell]
        refine iff_of_true (fun _ => sameTable_fault p) fun p' stub hp hstub _ => ?_
        cases hentry.symm.trans hp
        cases hcell.symm.trans hstub
      | some stub =>
        dsimp only
        rw [hcell]
        dsimp only
        by_cases hlistener : stub.listener = none
        · rw [if_pos hlistener]
          refine iff_of_true (fun hfails => absurd rfl hfails) fun p' stub' hp hstub hasks => ?_
          cases hentry.symm.trans hp
          cases hcell.symm.trans hstub
          exact absurd hlistener hasks.2
        · rw [if_neg hlistener]
          have hasks : r.Asks (.delEvent fd events) stub := ⟨hopen, hlistener⟩
          have hop : asked (.delEvent fd events) stub ≠ .add := by
            unfold asked
            dsimp only
            split <;> decide
          split
          next hctl =>
            have hrefused := not_grants_of_none hop hctl
            rw [harmless_iff (c := .delEvent fd events) hentry hcell hasks hrefused]
            dsimp only
            exact (imp_iff_right (by decide)).trans (sameTable_modify hcell)
          next hctl =>
            have hgranted : r.Grants (asked (.delEvent fd events) stub) fd := grants_of_some hop hctl
            have hsucceeds (r' r'' : EpollLoop) :
                (if stub.events &&& ~~~events = 0 then ((0 : Int), r') else (0, r'')).1 = 0 := by
              split <;> rfl
            refine iff_of_true (fun hfails => absurd (hsucceeds _ _) hfails) ?_
            intro p' stub' hp hstub _
            cases hentry.symm.trans hp
            cases hcell.symm.trans hstub
            exact .inl hgranted

/-- A failed call leaves everything as it was exactly if it is harmless. -/
theorem failed_call_same_iff (r : EpollLoop) (c : Call) :
    ((r.attempt c).1 ≠ 0 → SameTable r (r.attempt c).2) ↔ r.Harmless c := by
  cases c with
  | addEvent fd events listener tag => exact addEvent_same_iff fd events listener tag
  | delEvent fd events => exact delEvent_same_iff fd events

def sampleStubborn : EpollLoop where
  mEpollFD := 3
  refuses op _ := op = .mod

/-- A second handler asks for the write event of a descriptor, is refused, and has taken it over all the
    same; for the kernel nothing has changed. -/
theorem failed_call_leaves : sampleStubborn.Started ∧
    ∃ r, Lib.run step sampleStubborn [.call (.addEvent 4 evREAD 1 0)] = some r ∧
      (r.attempt (.addEvent 4 evWRITE 2 7)).1 ≠ 0 ∧
      (r.attempt (.addEvent 4 evWRITE 2 7)).2.interest = r.interest ∧
      ¬ SameTable r (r.attempt (.addEvent 4 evWRITE 2 7)).2 := by
  refine ⟨⟨rfl, rfl, rfl, rfl, rfl⟩, _, rfl, by decide, rfl, fun hsame => ?_⟩
  have hstub := congrArg (fun cell => cell.bind EventStub.listener) (congrFun hsame.stubs 0)
  revert hstub
  decide

end EpollLoop

end NetCore
