import Mathlib.Data.List.Sort
import NetCore.EpollReactor
import NetCore.Lib.Heap
import NetCore.Lib.Run

/-!
# `EpollReactor`: the loop and its stubs

`epoll_wait` hands back the addresses that `EPOLL_CTL_ADD` was called with, and a handler may change
the table while the loop still goes through them.  So the stubs are on a heap here, the table and
`mDelEventStubs` hold their addresses, and the kernel keeps the address of every descriptor it
watches.  `trace` records what the kernel registers and forgets, the callbacks and the clean-ups.

The lists of calls the handlers make are given from outside: no property below depends on them.
-/

namespace NetCore

def epollPRI : U32 := 2
def epollERR : U32 := 8
def epollHUP : U32 := 0x10
def epollRDHUP : U32 := 0x2000

inductive Callback where
  | onReadable
  | onWritable
  | onException (events : U32)
  | onPeriodicallyCheck
deriving DecidableEq

inductive LoopPoint where
  /-- `EPOLL_CTL_ADD` of a descriptor, with the address of its stub. -/
  | added (fd : Int) (stub : Nat)
  | removed (fd : Int) (stub : Nat)
  | closed (fd : Int)
  | invoked (callback : Callback) (fd : Int) (stub listener tag : Nat)
  /-- `cleanDeletedEvents` has deleted these. -/
  | cleaned (stubs : List Nat)
deriving DecidableEq

inductive LoopCall where
  | addEvent (fd : Int) (events : U32) (listener tag : Nat)
  | delEvent (fd : Int) (events : U32)
  /-- `SAFE_CLOSE_SOCKET`. -/
  | closeSocket (fd : Int)
deriving DecidableEq

structure EpollLoop where
  mEpollFD : Int
  mFd2Events : AList (fun _ : Int => Nat) := ∅
  mDelEventStubs : List Nat := []
  memory : Lib.Heap EventStub := .empty
  /-- The kernel's interest set: `events` and `data.ptr` of every descriptor. -/
  interest : AList (fun _ : Int => U32 × Nat) := ∅
  /-- The other failures of `epoll_ctl`. -/
  refuses : EpollOp → Int → Bool
  /-- The calls of the handlers, callback by callback. -/
  calls : Nat → List LoopCall := fun _ => []
  trace : List LoopPoint := []

namespace EpollLoop

def emit (point : LoopPoint) (r : EpollLoop) : EpollLoop := { r with trace := r.trace ++ [point] }

def onMemory (f : Lib.Heap EventStub → Lib.Heap EventStub) (r : EpollLoop) : EpollLoop :=
  { r with memory := f r.memory }

def epollCtl (r : EpollLoop) (op : EpollOp) (fd : Int) (mask : U32) (ptr : Nat) :
    Option (AList fun _ : Int => U32 × Nat) :=
  NetCore.epollCtl r.refuses op fd (mask, ptr) r.interest

/-- The stub with other events, and `event->events` with it. -/
def setEvents (events : U32) (stub : EventStub) : EventStub :=
  { stub with events := events, epollEvents := EpollReactor.convertEvent events }

def handOver (listener tag : Nat) (stub : EventStub) : EventStub :=
  { stub with listener := some listener, tag := tag }

def dropListener (stub : EventStub) : EventStub := { stub with listener := none }

def addEvent (fd : Int) (events : U32) (listener tag : Nat) (r : EpollLoop) : Int × EpollLoop :=
  if fd < 0 then (-1, r)
  else if r.mEpollFD < 0 then (-1, r)
  else
    match r.mFd2Events.lookup fd with
    | some p =>
        match r.memory.cells p with
        | none => (1, r.onMemory (.fault p))
        | some stub =>
            let merged := stub.events ||| events
            let r := r.onMemory (.modify p fun stub => handOver listener tag (setEvents merged stub))
            match r.epollCtl .mod fd (EpollReactor.convertEvent merged) p with
            | none => (1, r)
            | some interest => (0, { r with interest := interest })
    | none =>
        let p := r.memory.next
        let stub : EventStub :=
          { events := events, epollEvents := EpollReactor.convertEvent events, fd := fd,
            listener := some listener, tag := tag }
        let r := r.onMemory (.alloc stub)
        match r.epollCtl .add fd stub.epollEvents p with
        | none => (1, r.onMemory (.free p))
        | some interest =>
            (0, emit (.added fd p)
              { r with mFd2Events := r.mFd2Events.insert fd p, interest := interest })

def delEvent (fd : Int) (events : U32) (r : EpollLoop) : Int × EpollLoop :=
  if r.mEpollFD < 0 then (-1, r)
  else
    match r.mFd2Events.lookup fd with
    | none => (-1, r)
    | some p =>
        match r.memory.cells p with
        | none => (-1, r.onMemory (.fault p))
        | some stub =>
            if stub.listener = none then (0, r)
            else
              let left := stub.events &&& ~~~events
              let r := r.onMemory (.modify p (setEvents left))
              let op := if left = 0 then EpollOp.del else EpollOp.mod
              match r.epollCtl op fd (EpollReactor.convertEvent left) p with
              | none => (-1, r)
              | some interest =>
                  let r := { r with interest := interest }
                  if left = 0 then
                    (0, emit (.removed fd p)
                      { r.onMemory (.modify p dropListener) with
                        mDelEventStubs := r.mDelEventStubs ++ [p]
                        mFd2Events := r.mFd2Events.erase fd })
                  else (0, r)

def containEvent (fd : Int) (events : U32) (r : EpollLoop) : Int :=
  if r.mEpollFD < 0 then 0
  else
    match (r.mFd2Events.lookup fd).bind r.memory.cells with
    | none => 0
    | some stub =>
        if stub.listener = none then 0
        else if stub.epollEvents &&& EpollReactor.convertEvent events =
            EpollReactor.convertEvent events then 1
        else 0

/-- `close(fd)`: the kernel drops a closed descriptor from the interest set. -/
def closeFd (fd : Int) (r : EpollLoop) : EpollLoop :=
  emit (.closed fd) { r with interest := r.interest.erase fd }

def closeSocket (fd : Int) (r : EpollLoop) : EpollLoop :=
  if 0 ≤ fd then (r.delEvent fd evALL).2.closeFd fd else r

def call (c : LoopCall) (r : EpollLoop) : EpollLoop :=
  match c with
  | .addEvent fd events listener tag => (r.addEvent fd events listener tag).2
  | .delEvent fd events => (r.delEvent fd events).2
  | .closeSocket fd => r.closeSocket fd

def runCalls (cs : List LoopCall) (r : EpollLoop) : EpollLoop := cs.foldl (fun r c => r.call c) r

/-! ## The loop of `start` -/

/-- An entry of the array that `epoll_wait` fills. -/
structure EpollEvent where
  events : U32
  ptr : Nat
deriving DecidableEq

/-- `stub->listener->on..(stub->fd, this, .., stub->tag)`, if there is a listener and `wanted`. -/
def invoke (wanted : Bool) (callback : Callback) (p : Nat) (r : EpollLoop) : EpollLoop :=
  match r.memory.cells p with
  | none => r.onMemory (.fault p)
  | some stub =>
      match stub.listener, wanted with
      | some listener, true =>
          let r := r.emit (.invoked callback stub.fd p listener stub.tag)
          runCalls (r.calls 0) { r with calls := fun n => r.calls (n + 1) }
      | _, _ => r

def dispatchEntry (r : EpollLoop) (ev : EpollEvent) : EpollLoop :=
  match r.memory.cells ev.ptr with
  | none => r.onMemory (.fault ev.ptr)
  | some stub =>
      if stub.listener = none then r
      else
        let r := r.invoke (ev.events &&& (epollIN ||| epollPRI) != 0) .onReadable ev.ptr
        let r := r.invoke (ev.events &&& epollOUT != 0) .onWritable ev.ptr
        r.invoke (ev.events &&& (epollRDHUP ||| epollERR ||| epollHUP) != 0)
          (.onException ev.events) ev.ptr

def dispatchEvent (events : List EpollEvent) (r : EpollLoop) : EpollLoop :=
  events.foldl dispatchEntry r

/-- The stubs of the map, in the order of the descriptors. -/
def stubs (r : EpollLoop) : List Nat :=
  (r.mFd2Events.keys.insertionSort (· ≤ ·)).filterMap fun fd => r.mFd2Events.lookup fd

def dispatchCheck (r : EpollLoop) : EpollLoop :=
  r.stubs.foldl (fun r p => r.invoke true .onPeriodicallyCheck p) r

def cleanDeletedEvents (r : EpollLoop) : EpollLoop :=
  emit (.cleaned r.mDelEventStubs)
    { r with
      memory := r.mDelEventStubs.foldl (fun memory p => memory.free p) r.memory
      mDelEventStubs := [] }

/-! ## Runs -/

inductive Event where
  /-- A call from outside of the loop. -/
  | call (c : LoopCall)
  /-- A round of `start`: what `epoll_wait` returns, whether the check is due, and what the handlers
      will do. -/
  | turn (ready : List EpollEvent) (check : Bool) (calls : Nat → List LoopCall)

/-- `epoll_wait` may hand back this entry. -/
def watches (r : EpollLoop) (ev : EpollEvent) : Bool :=
  r.interest.entries.any fun entry => entry.2.2 = ev.ptr

-- `none`: no `epoll_wait` returns that.
def step (r : EpollLoop) : Event → Option EpollLoop
  | .call c => some (r.call c)
  | .turn ready check calls =>
      if ready.all r.watches then
        let r := dispatchEvent ready { r with calls := calls }
        let r := if check then r.dispatchCheck else r
        some r.cleanDeletedEvents
      else none

/-- The reactor as its constructor leaves it, before the command pipe is added. -/
structure Started (r : EpollLoop) : Prop where
  empty : r.mFd2Events = ∅
  undeleted : r.mDelEventStubs = []
  memory : r.memory = .empty
  interest : r.interest = ∅
  trace : r.trace = []

end EpollLoop

end NetCore
