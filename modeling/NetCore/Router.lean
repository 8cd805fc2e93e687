import NetCore.BufferQueue
import NetCore.ITunnel
import NetCore.Lib.Heap
import NetCore.Lib.Run

/-!
# `Router`: the packets for the tun

A packet is handed over by its address (`WRITE_PACKAGE`) and stays with the component that built it,
so the packets live on a heap that both sides change: `mData` holds addresses.  The queue of the tun,
`onSyncEvent` that fills it and `onWritable` that empties it are here; the lists of sessions are in
the modules that speak about sessions.
-/

namespace NetCore

namespace BufferSegment

/-- `onSyncEvent` takes the segment. -/
def hold (segment : BufferSegment) : BufferSegment :=
  { segment with toSegment := segment.mark, isBuffering := true }

def consumed (n : Nat) (segment : BufferSegment) : BufferSegment :=
  { segment with toSegment := segment.consume n }

def rewind (segment : BufferSegment) : BufferSegment := { segment with toSegment := segment.resume }

def giveBack (segment : BufferSegment) : BufferSegment := { segment with isBuffering := false }

/-- What `safeReleaseSegment` does to a segment the router holds. -/
def abort (segment : BufferSegment) : BufferSegment :=
  { segment with isAbort := true, releaseAfterBuffering := true }

end BufferSegment

inductive RouterPoint where
  /-- `onSyncEvent` has taken the segment with these bytes. -/
  | queued (segment : Nat) (data : Bytes)
  /-- `write` has taken these bytes of the segment. -/
  | wrote (segment : Nat) (data : Bytes)
  | captured (data : Bytes)
deriving DecidableEq

structure Router where
  mTunFd : Int
  mReactor : EpollReactor
  /-- The address under which the reactor knows the router. -/
  handler : Nat
  mData : List Nat := []
  memory : Lib.Heap BufferSegment := .empty
  /-- The answers of the kernel to the `write` calls still to come. -/
  writes : Nat → SendOutcome
  trace : List RouterPoint := []

namespace Router

def emit (point : RouterPoint) (r : Router) : Router := { r with trace := r.trace ++ [point] }

def onMemory (f : Lib.Heap BufferSegment → Lib.Heap BufferSegment) (r : Router) : Router :=
  { r with memory := f r.memory }

-- The end of `onSyncEvent`: ask for the write event, unless it is there.
def requestWrite (r : Router) : Router :=
  if r.mReactor.containEvent r.mTunFd evWRITE = 0 then
    { r with mReactor := (r.mReactor.addEvent r.mTunFd evWRITE r.handler 0).2 }
  else r

/-- `onSyncEvent` for a `WRITE_PACKAGE`: whether the result is 0, the router. -/
def onSyncEvent (p : Nat) (r : Router) : Bool × Router :=
  match r.memory.cells p with
  | none => (false, r.onMemory (.fault p))
  | some segment =>
      if 0 < segment.size ∧ segment.isBuffering = false ∧ segment.isAbort = false then
        (true,
          requestWrite <| emit (.queued p segment.readable)
            { r with mData := r.mData ++ [p], memory := r.memory.modify p .hold })
      else (false, r)

/-- `write(mTunFd, ..)`: the next answer, never more than there is. -/
def write (len : Nat) (r : Router) : SendOutcome × Router :=
  let r' := { r with writes := fun n => r.writes (n + 1) }
  match r.writes 0 with
  | .accepted n => (.accepted (min n len), r')
  | .error errno => (.error errno, r')

-- The end of the router's part in a segment.
def letGo (p : Nat) (segment : BufferSegment) (r : Router) : Router :=
  r.onMemory (if segment.releaseAfterBuffering then .free p else .modify p .giveBack)

/-- A segment written to the end: back to its mark, captured if asked for, let go. -/
def finish (p : Nat) (segment : BufferSegment) (r : Router) : Router :=
  let r := r.onMemory (.modify p .rewind)
  let r := if segment.needCapture then r.emit (.captured segment.rewind.readable) else r
  r.letGo p segment

def advance (p : Nat) (segment : BufferSegment) (w : Nat) (r : Router) : Router :=
  (r.onMemory (.modify p (.consumed w))).emit (.wrote p (segment.readable.take w))

-- A round of the loop of `onWritable` on the front `p` of the queue; `false` for `break`.
def writeRound (p : Nat) (segment : BufferSegment) (rest : List Nat) (r : Router) : Bool × Router :=
  if segment.isAbort then (true, { r with mData := rest }.letGo p segment)
  else
    match r.write segment.size with
    | (.error _, r) => (false, r)
    | (.accepted 0, r) => (false, r)
    | (.accepted w, r) =>
        let r := r.advance p segment w
        let segment := segment.consumed w
        if segment.size ≤ 0 then (true, { r with mData := rest }.finish p segment) else (true, r)

-- The loop of `onWritable`.  Every round but the last takes a byte or a segment, which bounds
-- `fuel`.
def writeLoop : Nat → Router → Router
  | 0, r => r
  | fuel + 1, r =>
      match r.mData with
      | [] => r
      | p :: rest =>
          match r.memory.cells p with
          | none => r.onMemory (.fault p)
          | some segment =>
              match r.writeRound p segment rest with
              | (true, r) => writeLoop fuel r
              | (false, r) => r

def sizeAt (r : Router) (p : Nat) : Nat := ((r.memory.cells p).map fun segment => segment.size).getD 0

def writeFuel (r : Router) : Nat := (r.mData.map fun p => r.sizeAt p + 1).foldr (· + ·) 0

def onWritable (r : Router) : Router :=
  let r := writeLoop r.writeFuel r
  { r with mReactor := (r.mReactor.delEvent r.mTunFd evWRITE).2 }

/-- `new` of a packet, whose address is `r.memory.next`. -/
def build (segment : BufferSegment) (r : Router) : Router := r.onMemory (.alloc segment)

/-- `safeReleaseSegment`, on the heap. -/
def safeRelease (p : Nat) (r : Router) : Router :=
  match r.memory.cells p with
  | none => r.onMemory (.fault p)
  | some segment => r.onMemory (if segment.isBuffering then .modify p .abort else .free p)

/-! ## Runs -/

inductive Event where
  /-- Somebody builds a packet and sets its flags. -/
  | build (segment : Segment) (releaseAfterBuffering needCapture : Bool)
  | writePackage (segment : Nat)
  | writable
  /-- A session releases a segment of its own. -/
  | release (segment : Nat)
  | reactor (call : EpollReactor.Call)
  /-- How the `write` calls to come will end. -/
  | environment (writes : Nat → SendOutcome)

-- `none`: the descriptor of the tun is the router's alone.
def step (r : Router) : Event → Option Router
  | .build segment releaseAfterBuffering needCapture =>
      some (r.build { toSegment := segment, releaseAfterBuffering, needCapture })
  | .writePackage p => some (r.onSyncEvent p).2
  | .writable => some r.onWritable
  | .release p => some (r.safeRelease p)
  | .reactor call => if call.target = r.mTunFd then none else some { r with mReactor := call.run r.mReactor }
  | .environment writes => some { r with writes := writes }

/-- The router at the beginning of `start`, its descriptor registered. -/
structure Started (r : Router) : Prop where
  empty : r.mData = []
  nothing : r.memory = .empty
  unwritten : r.trace = []
  registered : ∃ reactor : EpollReactor,
    reactor.mFd2Events.lookup r.mTunFd = none ∧
      reactor.addEvent r.mTunFd evREAD r.handler 0 = (0, r.mReactor)

end Router

end NetCore
