import NetCore.Segment
import NetCore.IPAdpt

/-!
# Queued segments

`BufferSegment` adds the flags the router and the sessions share, `TCPDatagram` the TCP fields.  A
`BufferQueue` is a list; its iterators are positions.
-/

namespace NetCore

structure BufferSegment extends Segment where
  isBuffering : Bool := false
  releaseAfterBuffering : Bool := false
  isAbort : Bool := false
  needCapture : Bool := false
deriving DecidableEq

structure TCPDatagram extends BufferSegment where
  mSeq : U32
  mAck : U32
  mFlag : U8
  mChecksum : U16
  mLength : Nat
  mACKed : Bool := false
  mRetry : Nat := 0
deriving DecidableEq

namespace TCPDatagram

def hasFlag (d : TCPDatagram) (flag : U8) : Bool := NetCore.hasFlag d.mFlag flag

def compare (a b : TCPDatagram) : Int := (a.mSeq - b.mSeq).toInt

def withSegment (d : TCPDatagram) (seg : Segment) : TCPDatagram := { d with toSegment := seg }

/-- The payload at the end of a packet built for the application. -/
def payload (d : TCPDatagram) : Bytes := d.mData.drop (d.mData.length - d.mLength)

end TCPDatagram

namespace BufferQueue

variable {α : Type}

/-- `findNotSmaller`: the position of the first item not smaller than `segment`, the length of the
    queue for `end()`. -/
def findNotSmaller (compare : α → α → Int) (segment : α) : List α → Nat
  | [] => 0
  | item :: rest =>
      if compare segment item ≤ 0 then 0 else findNotSmaller compare segment rest + 1

theorem findNotSmaller_eq_length {compare : α → α → Int} {segment : α} {queue : List α}
    (h : ∀ item ∈ queue, 0 < compare segment item) :
    findNotSmaller compare segment queue = queue.length := by
  induction queue with
  | nil => rfl
  | cons item rest ih =>
    have hitem := h item List.mem_cons_self
    rw [findNotSmaller, if_neg (by omega), ih fun x hx => h x (List.mem_cons_of_mem item hx)]
    rfl

theorem findNotSmaller_le (compare : α → α → Int) (segment : α) (queue : List α) :
    findNotSmaller compare segment queue ≤ queue.length := by
  induction queue with
  | nil => exact Nat.le_refl 0
  | cons item rest ih =>
    rw [findNotSmaller, List.length_cons]
    split <;> omega

/-- The readable bytes of a queue, front first. -/
def bytes (queue : List TCPDatagram) : Bytes := queue.flatMap fun d => d.readable

@[simp] theorem bytes_nil : bytes [] = [] := rfl

@[simp] theorem bytes_cons (d : TCPDatagram) (queue : List TCPDatagram) :
    bytes (d :: queue) = d.readable ++ bytes queue := rfl

@[simp] theorem bytes_append (q₁ q₂ : List TCPDatagram) :
    bytes (q₁ ++ q₂) = bytes q₁ ++ bytes q₂ := by
  simp [bytes]

theorem length_bytes_of_perm {q₁ q₂ : List TCPDatagram} (h : q₁.Perm q₂) :
    (bytes q₁).length = (bytes q₂).length := by
  induction h with
  | nil => rfl
  | cons d _ ih => rw [bytes_cons, bytes_cons, List.length_append, List.length_append, ih]
  | swap d d' q =>
    simp only [bytes_cons, List.length_append]
    omega
  | trans _ _ ih ih' => exact ih.trans ih'

end BufferQueue

end NetCore
