import Mathlib.Data.List.AList
import NetCore.Word

/-!
# `EpollReactor`: the table of watched file descriptors

`addEvent`, `delEvent` and `containEvent` keep `mFd2Events` next to the interest set of the kernel.
The kernel is part of the state: `epoll_ctl` fails where its manual says so (ADD of a watched
descriptor, MOD and DEL of an unwatched one) and wherever `refuses` says it does.
-/

namespace NetCore

/-! Bits of `IReactor::EVENT` and of `epoll_event::events`. -/

def evREAD : U32 := 1
def evWRITE : U32 := 2
def evERROR : U32 := 4
def evALL : U32 := evREAD ||| evWRITE ||| evERROR

def epollIN : U32 := 1
def epollOUT : U32 := 4

inductive EpollOp where
  | add
  | mod
  | del
deriving DecidableEq

structure EventStub where
  events : U32
  /-- `event->events`, the mask handed to the kernel. -/
  epollEvents : U32
  fd : Int
  /-- The handler's address; `none` is `NULL`. -/
  listener : Option Nat
  tag : Nat
deriving DecidableEq

structure EpollReactor where
  mEpollFD : Int
  mFd2Events : AList (fun _ : Int => EventStub)
  mDelEventStubs : List EventStub
  /-- The kernel's interest set. -/
  interest : AList (fun _ : Int => U32)
  /-- The other failures of `epoll_ctl` (no memory, no watches left). -/
  refuses : EpollOp → Int → Bool

/-! ## The kernel -/

section Kernel

variable {β : Type} {refuses : EpollOp → Int → Bool} {op : EpollOp} {fd other : Int} {entry old : β}
  {interest interest' : AList fun _ : Int => β}

/-- `epoll_ctl`: the new interest set, `none` for an error. -/
def epollCtl (refuses : EpollOp → Int → Bool) (op : EpollOp) (fd : Int) (entry : β)
    (interest : AList fun _ : Int => β) : Option (AList fun _ : Int => β) :=
  let watched := (interest.lookup fd).isSome
  match op with
  | .add => if watched || refuses op fd then none else some (interest.insert fd entry)
  | .mod => if !watched || refuses op fd then none else some (interest.insert fd entry)
  | .del => if !watched || refuses op fd then none else some (interest.erase fd)

theorem epollCtl_add (h : epollCtl refuses .add fd entry interest = some interest') :
    interest' = interest.insert fd entry := by
  unfold epollCtl at h
  simp only at h
  split at h
  · cases h
  · exact (Option.some.inj h).symm

theorem epollCtl_mod (hkernel : interest.lookup fd = some old) :
    epollCtl refuses .mod fd entry interest =
      if refuses .mod fd then none else some (interest.insert fd entry) := by
  unfold epollCtl
  simp only [hkernel, Option.isSome_some, Bool.not_true, Bool.false_or]

theorem epollCtl_del (hkernel : interest.lookup fd = some old) :
    epollCtl refuses .del fd entry interest =
      if refuses .del fd then none else some (interest.erase fd) := by
  unfold epollCtl
  simp only [hkernel, Option.isSome_some, Bool.not_true, Bool.false_or]

-- A call on another descriptor.
theorem epollCtl_other (hne : fd ≠ other)
    (h : epollCtl refuses op other entry interest = some interest') :
    interest'.lookup fd = interest.lookup fd := by
  unfold epollCtl at h
  cases op <;> dsimp only at h <;> split at h <;> cases h
  · exact AList.lookup_insert_ne hne
  · exact AList.lookup_insert_ne hne
  · exact AList.lookup_erase_ne hne

end Kernel

namespace EpollReactor

def epollCtl (r : EpollReactor) (op : EpollOp) (fd : Int) (mask : U32) :
    Option (AList fun _ : Int => U32) :=
  NetCore.epollCtl r.refuses op fd mask r.interest

def convertEvent (events : U32) : U32 :=
  (if events &&& evREAD != 0 then epollIN else 0) |||
    (if events &&& evWRITE != 0 then epollOUT else 0)

def setStub (r : EpollReactor) (fd : Int) (stub : EventStub) : EpollReactor :=
  { r with mFd2Events := r.mFd2Events.insert fd stub }

def addEvent (r : EpollReactor) (fd : Int) (events : U32) (listener tag : Nat) :
    Int × EpollReactor :=
  if fd < 0 then (-1, r)
  else if r.mEpollFD < 0 then (-1, r)
  else
    match r.mFd2Events.lookup fd with
    | some stub =>
        let merged := stub.events ||| events
        let stub' : EventStub :=
          { stub with
            events := merged, epollEvents := convertEvent merged, listener := some listener,
            tag := tag }
        let r := r.setStub fd stub'
        match r.epollCtl .mod fd stub'.epollEvents with
        | none => (1, r)
        | some interest => (0, { r with interest := interest })
    | none =>
        let stub : EventStub :=
          { events := events, epollEvents := convertEvent events, fd := fd,
            listener := some listener, tag := tag }
        match r.epollCtl .add fd stub.epollEvents with
        | none => (1, r)
        | some interest => (0, { r.setStub fd stub with interest := interest })

def delEvent (r : EpollReactor) (fd : Int) (events : U32) : Int × EpollReactor :=
  if r.mEpollFD < 0 then (-1, r)
  else
    match r.mFd2Events.lookup fd with
    | none => (-1, r)
    | some stub =>
        if stub.listener = none then (0, r)
        else
          let left := stub.events &&& ~~~events
          let stub' : EventStub :=
            { stub with events := left, epollEvents := convertEvent left }
          -- the stub is changed before the kernel is asked
          let r := r.setStub fd stub'
          let op := if left = 0 then EpollOp.del else EpollOp.mod
          match r.epollCtl op fd stub'.epollEvents with
          | none => (-1, r)
          | some interest =>
              if left = 0 then
                (0, { r with
                  mFd2Events := r.mFd2Events.erase fd
                  mDelEventStubs := r.mDelEventStubs ++ [{ stub' with listener := none }]
                  interest := interest })
              else (0, { r with interest := interest })

def containEvent (r : EpollReactor) (fd : Int) (events : U32) : Int :=
  if r.mEpollFD < 0 then 0
  else
    match r.mFd2Events.lookup fd with
    | none => 0
    | some stub =>
        if stub.listener = none then 0
        else if stub.epollEvents &&& convertEvent events = convertEvent events then 1
        else 0

/-! ## Masks -/

theorem kept_or {events kept : U32} (more : U32) (h : events &&& kept = kept) :
    (events ||| more) &&& kept = kept := by
  rw [← h]
  ext i hi
  simp only [BitVec.getElem_and, BitVec.getElem_or]
  cases events[i] <;> cases more[i] <;> simp

theorem kept_and_not {events kept more : U32} (h : events &&& kept = kept)
    (hdisjoint : kept &&& more = 0) : (events &&& ~~~more) &&& kept = kept := by
  ext i hi
  have hk : (events[i] && kept[i]) = kept[i] := by
    rw [← BitVec.getElem_and, h]
  have hd : (kept[i] && more[i]) = false := by
    rw [← BitVec.getElem_and, hdisjoint]
    exact BitVec.getElem_zero hi
  simp only [BitVec.getElem_and, BitVec.getElem_not]
  revert hk hd
  cases events[i] <;> cases more[i] <;> cases kept[i] <;> simp

theorem or_and_self (events more : U32) : (events ||| more) &&& more = more := by
  ext i hi
  simp only [BitVec.getElem_and, BitVec.getElem_or]
  cases events[i] <;> cases more[i] <;> rfl

theorem and_not_and_self (events more : U32) : (events &&& ~~~more) &&& more = 0 := by
  ext i hi
  have hzero : (0 : U32)[i] = false := BitVec.getElem_zero hi
  simp only [BitVec.getElem_and, BitVec.getElem_not]
  rw [hzero]
  cases events[i] <;> cases more[i] <;> rfl

theorem ne_zero_of_kept {events kept : U32} (h : events &&& kept = kept) (hkept : kept ≠ 0) :
    events ≠ 0 := by
  intro hzero
  rw [hzero] at h
  exact hkept (h.symm.trans BitVec.zero_and)

/-! ## The table -/

/-- `fd` is in the table, has a handler and watches at least `events`. -/
def Watches (r : EpollReactor) (fd : Int) (events : U32) : Prop :=
  ∃ stub, r.mFd2Events.lookup fd = some stub ∧ stub.listener ≠ none ∧
    stub.events &&& events = events

-- Deleting interests keeps the registration as long as another interest is left.
theorem delEvent_watches {r : EpollReactor} {fd : Int} {kept events : U32} (h : r.Watches fd kept)
    (hkept0 : kept ≠ 0) (hdisjoint : kept &&& events = 0) :
    (r.delEvent fd events).2.Watches fd kept := by
  obtain ⟨stub, hlookup, hlistener, hkept⟩ := h
  have hleft : (stub.events &&& ~~~events) &&& kept = kept := kept_and_not hkept hdisjoint
  have hne : stub.events &&& ~~~events ≠ 0 := ne_zero_of_kept hleft hkept0
  unfold delEvent
  split
  · exact ⟨stub, hlookup, hlistener, hkept⟩
  · rw [hlookup]
    simp only [if_neg hlistener, if_neg hne]
    split <;>
      exact ⟨_, AList.lookup_insert _, hlistener, hleft⟩

/-- `fd` is in the table for exactly these events, with the mask that goes with them. -/
def Registered (r : EpollReactor) (fd : Int) (events : U32) : Prop :=
  ¬ r.mEpollFD < 0 ∧
    ∃ stub, r.mFd2Events.lookup fd = some stub ∧ stub.listener ≠ none ∧ stub.events = events ∧
      stub.epollEvents = convertEvent events

variable {r : EpollReactor} {fd other : Int} {events more : U32}

theorem Registered.containWrite (h : r.Registered fd events) :
    r.containEvent fd evWRITE = if events &&& evWRITE != 0 then 1 else 0 := by
  obtain ⟨hopen, stub, hlookup, hlistener, -, hmask⟩ := h
  unfold containEvent
  rw [if_neg hopen, hlookup]
  simp only [if_neg hlistener, hmask]
  unfold convertEvent
  cases events &&& evWRITE != 0 <;> cases events &&& evREAD != 0 <;> decide

theorem write_bit (events : U32) : events &&& evWRITE = 0 ∨ events &&& evWRITE = evWRITE := by
  have hbit : evWRITE = BitVec.twoPow 32 1 := by decide
  rw [hbit, BitVec.and_twoPow]
  cases events.getLsbD 1
  · exact Or.inl rfl
  · exact Or.inr rfl

theorem read_bit (events : U32) : events &&& evREAD = 0 ∨ events &&& evREAD = evREAD := by
  have hbit : evREAD = BitVec.twoPow 32 0 := by decide
  rw [hbit, BitVec.and_twoPow]
  cases events.getLsbD 0
  · exact Or.inl rfl
  · exact Or.inr rfl

theorem Registered.containWrite_iff (h : r.Registered fd events) :
    r.containEvent fd evWRITE = 1 ↔ events &&& evWRITE = evWRITE := by
  rw [h.containWrite]
  rcases write_bit events with hbit | hbit <;> rw [hbit] <;> decide

theorem Registered.containRead_iff (h : r.Registered fd events) :
    r.containEvent fd evREAD = 1 ↔ events &&& evREAD = evREAD := by
  obtain ⟨hopen, stub, hlookup, hlistener, -, hmask⟩ := h
  have hcontains : r.containEvent fd evREAD = if events &&& evREAD != 0 then 1 else 0 := by
    unfold containEvent
    rw [if_neg hopen, hlookup]
    simp only [if_neg hlistener, hmask]
    unfold convertEvent
    cases events &&& evWRITE != 0 <;> cases events &&& evREAD != 0 <;> decide
  rw [hcontains]
  rcases read_bit events with hbit | hbit <;> rw [hbit] <;> decide

theorem Registered.addEvent (h : r.Registered fd events) (hfd : ¬ fd < 0) (more : U32)
    (listener tag : Nat) : (r.addEvent fd more listener tag).2.Registered fd (events ||| more) := by
  obtain ⟨hopen, stub, hlookup, hlistener, hevents, hmask⟩ := h
  unfold EpollReactor.addEvent
  rw [if_neg hfd, if_neg hopen, hlookup]
  simp only [hevents]
  split <;> exact ⟨hopen, _, AList.lookup_insert _, by simp, rfl, rfl⟩

theorem Registered.delEvent (h : r.Registered fd events) (hleft : events &&& ~~~more ≠ 0) :
    (r.delEvent fd more).2.Registered fd (events &&& ~~~more) := by
  obtain ⟨hopen, stub, hlookup, hlistener, hevents, hmask⟩ := h
  unfold EpollReactor.delEvent
  rw [if_neg hopen, hlookup]
  simp only [if_neg hlistener, hevents, if_neg hleft]
  split <;> exact ⟨hopen, _, AList.lookup_insert _, hlistener, rfl, rfl⟩

-- A call on one descriptor leaves the others alone.
theorem Registered.addEvent_other (h : r.Registered fd events) (hne : fd ≠ other) (more : U32)
    (listener tag : Nat) : (r.addEvent other more listener tag).2.Registered fd events := by
  obtain ⟨hopen, stub, hlookup, hstub⟩ := h
  unfold EpollReactor.addEvent
  by_cases hfd : other < 0
  · rw [if_pos hfd]
    exact ⟨hopen, stub, hlookup, hstub⟩
  · rw [if_neg hfd, if_neg hopen]
    cases r.mFd2Events.lookup other with
    | none =>
      simp only
      split
      · exact ⟨hopen, stub, hlookup, hstub⟩
      · exact ⟨hopen, stub, (AList.lookup_insert_ne hne).trans hlookup, hstub⟩
    | some _ =>
      simp only
      split <;> exact ⟨hopen, stub, (AList.lookup_insert_ne hne).trans hlookup, hstub⟩

theorem Registered.delEvent_other (h : r.Registered fd events) (hne : fd ≠ other) (more : U32) :
    (r.delEvent other more).2.Registered fd events := by
  obtain ⟨hopen, stub, hlookup, hstub⟩ := h
  have hinsert (x : EventStub) : (r.mFd2Events.insert other x).lookup fd = some stub :=
    (AList.lookup_insert_ne hne).trans hlookup
  unfold EpollReactor.delEvent
  rw [if_neg hopen]
  cases r.mFd2Events.lookup other with
  | none => exact ⟨hopen, stub, hlookup, hstub⟩
  | some _ =>
    simp only
    split
    · exact ⟨hopen, stub, hlookup, hstub⟩
    · split
      · exact ⟨hopen, stub, hinsert _, hstub⟩
      · split
        · exact ⟨hopen, stub, (AList.lookup_erase_ne hne).trans (hinsert _), hstub⟩
        · exact ⟨hopen, stub, hinsert _, hstub⟩

inductive Call where
  | addEvent (fd : Int) (events : U32) (listener tag : Nat)
  | delEvent (fd : Int) (events : U32)
deriving DecidableEq

def Call.target : Call → Int
  | .addEvent fd _ _ _ => fd
  | .delEvent fd _ => fd

def Call.run (r : EpollReactor) : Call → EpollReactor
  | .addEvent fd events listener tag => (r.addEvent fd events listener tag).2
  | .delEvent fd events => (r.delEvent fd events).2

theorem Registered.call (h : r.Registered fd events) {call : Call} (hother : call.target ≠ fd) :
    (call.run r).Registered fd events := by
  cases call with
  | addEvent other more listener tag => exact h.addEvent_other hother.symm more listener tag
  | delEvent other more => exact h.delEvent_other hother.symm more

-- A successful call on a descriptor that is not there yet.
theorem registered_of_addEvent {listener tag : Nat} {r' : EpollReactor}
    (hnew : r.mFd2Events.lookup fd = none) (h : r.addEvent fd events listener tag = (0, r')) :
    ¬ fd < 0 ∧ r'.Registered fd events := by
  unfold EpollReactor.addEvent at h
  split at h
  · cases h
  · rename_i hfd
    split at h
    · cases h
    · rename_i hopen
      rw [hnew] at h
      simp only at h
      split at h
      · cases h
      · cases h
        exact ⟨hfd, hopen, _, AList.lookup_insert _, by simp, rfl, rfl⟩

end EpollReactor

end NetCore
