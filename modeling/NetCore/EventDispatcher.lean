import Mathlib.Data.List.AList
import NetCore.Lib.Cursor
import NetCore.Lib.Run

/-!
# `EventDispatcher`: events for whoever has registered

Any thread may add an event to `mQueue`, register or unregister a handler; a thread of its own takes
the events off the queue and goes through the handlers of each.  The calls are atomic here, as the
mutexes make them; between two of them everybody else may come in, also in the middle of the list of
handlers, which the loop walks without the mutex.  So the iterator of the loop is kept by the cell of
the list it stands at, and a cell that is erased under it leaves it `dangling`.

Whom the handlers call is not followed: what they do to the dispatcher is a call of anybody.
-/

namespace NetCore

variable {δ η : Type}

namespace EventDispatcher

structure Event (δ : Type) where
  id : Int
  action : Int := 0
  data : δ
deriving DecidableEq

/-- An element of a `std::list` of handlers, and the address of its cell. -/
structure Node (η : Type) where
  cell : Nat
  handler : η
deriving DecidableEq

/-- How far `loop` is. -/
inductive Place (δ : Type) where
  /-- At the test of `while`. -/
  | test
  /-- In `obtainEvent`. -/
  | waiting
  /-- At the test of `for`, with the iterator; `none` is `end()`. -/
  | visiting (event : Event δ) (iter : Option Nat)
  /-- The handler has returned, `iter++` is next. -/
  | returned (event : Event δ) (iter : Nat)
  | ended
  /-- The iterator was used after its cell had been erased. -/
  | dangling (event : Event δ)
deriving DecidableEq

inductive Point (δ η : Type) where
  | taken (event : Event δ)
  | onEvent (handler : η) (event : Event δ)
  | onSyncEvent (handler : η) (event : Event δ)
  | deleted (event : Event δ)
deriving DecidableEq

end EventDispatcher

open EventDispatcher in
structure EventDispatcher (δ η : Type) where
  mQueue : List (EventDispatcher.Event δ) := []
  mHandlers : AList (fun _ : Int => List (Node η)) := ∅
  mWork : Bool := true
  /-- The thread that runs `loop`. -/
  mThread : Place δ := .test
  /-- The address of the next cell. -/
  next : Nat := 0
  trace : List (Point δ η) := []

namespace EventDispatcher

def emit (points : List (Point δ η)) (d : EventDispatcher δ η) : EventDispatcher δ η :=
  { d with trace := d.trace ++ points }

def getHandlers (event : Int) (d : EventDispatcher δ η) : Option (List (Node η)) :=
  d.mHandlers.lookup event

/-- The handlers as the loops see them: `NULL` and an empty list are one. -/
def handlers (event : Int) (d : EventDispatcher δ η) : List (Node η) := (d.getHandlers event).getD []

def setHandlers (event : Int) (nodes : List (Node η)) (d : EventDispatcher δ η) :
    EventDispatcher δ η :=
  { d with mHandlers := d.mHandlers.insert event nodes }

def dispatch (event : Event δ) (d : EventDispatcher δ η) : Int × EventDispatcher δ η :=
  (0, { d with mQueue := d.mQueue ++ [event] })

/-- `dispatchSync`, whose handlers leave the registrations alone. -/
def dispatchSync (event : Event δ) (d : EventDispatcher δ η) : Int × EventDispatcher δ η :=
  (0, d.emit (((d.handlers event.id).map fun node => .onSyncEvent node.handler event) ++
    [.deleted event]))

-- `none` is a `NULL` handler.
def registerEvent [DecidableEq η] (event : Int) (handler : Option η) (d : EventDispatcher δ η) :
    Int × EventDispatcher δ η :=
  match handler with
  | none => (1, d)
  | some handler =>
      let handlers := d.handlers event
      if handlers.any fun node => node.handler = handler then (0, d)
      else (0, { d.setHandlers event (handlers ++ [⟨d.next, handler⟩]) with next := d.next + 1 })

def unregisterEvent [DecidableEq η] (event : Int) (handler : Option η) (d : EventDispatcher δ η) :
    Int × EventDispatcher δ η :=
  match handler with
  | none => (1, d)
  | some handler =>
      match d.getHandlers event with
      | none => (0, d)
      | some handlers =>
          (0, d.setHandlers event (handlers.eraseP fun node => node.handler = handler))

def begin (nodes : List (Node η)) : Option Nat := nodes.head?.map Node.cell

/-- What `loop` does up to the next point where others may come in. -/
def proceed (d : EventDispatcher δ η) : EventDispatcher δ η :=
  match d.mThread with
  | .test => { d with mThread := if d.mWork then .waiting else .ended }
  | .waiting =>
      match d.mQueue with
      | [] => d
      | event :: queue =>
          emit [.taken event]
            { d with mQueue := queue, mThread := .visiting event (begin (d.handlers event.id)) }
  | .visiting event none => emit [.deleted event] { d with mThread := .test }
  | .visiting event (some iter) =>
      match Lib.onward Node.cell iter (d.handlers event.id) with
      | [] => { d with mThread := .dangling event }
      | node :: _ => emit [.onEvent node.handler event] { d with mThread := .returned event iter }
  | .returned event iter =>
      match Lib.onward Node.cell iter (d.handlers event.id) with
      | [] => { d with mThread := .dangling event }
      | _ :: nodes => { d with mThread := .visiting event (begin nodes) }
  | .ended => d
  | .dangling _ => d

/-- What happens next: a call from some thread, or the loop goes on. -/
inductive Move (δ η : Type) where
  | dispatch (event : Event δ)
  | dispatchSync (event : Event δ)
  | registerEvent (event : Int) (handler : Option η)
  | unregisterEvent (event : Int) (handler : Option η)
  /-- `stop`, up to `pthread_join`. -/
  | stop
  | proceed
deriving DecidableEq

variable [DecidableEq η]

def afterMove (d : EventDispatcher δ η) : Move δ η → EventDispatcher δ η
  | .dispatch event => (d.dispatch event).2
  | .dispatchSync event => (d.dispatchSync event).2
  | .registerEvent event handler => (d.registerEvent event handler).2
  | .unregisterEvent event handler => (d.unregisterEvent event handler).2
  | .stop => { d with mWork := false }
  | .proceed => d.proceed

def step (d : EventDispatcher δ η) (m : Move δ η) : Option (EventDispatcher δ η) := some (d.afterMove m)

end EventDispatcher

end NetCore
