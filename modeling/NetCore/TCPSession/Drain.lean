import NetCore.TCPSession

/-!
# Draining the forward queue

The loop of `onTunnelWritable` takes bytes off the front of the queue and loses none, and its fuel
is never used up.
-/

namespace NetCore
namespace TCPSession

variable {τ : Type} [ITunnel τ]

def leftOver (segment : TCPDatagram) (s : Nat) (queue : List TCPDatagram) : List TCPDatagram :=
  let left := segment.withSegment (segment.consume s)
  if left.size ≤ 0 then queue else left :: queue

-- The bytes sent are the front of the queue's bytes.
theorem leftOver_bytes {segment : TCPDatagram} {s : Nat} (queue : List TCPDatagram)
    (h : s ≤ segment.size) :
    segment.readable.take s ++ BufferQueue.bytes (leftOver segment s queue) =
      BufferQueue.bytes (segment :: queue) := by
  have hleft : (segment.withSegment (segment.consume s)).readable = segment.readable.drop s :=
    Segment.readable_consume h
  have hbytes : BufferQueue.bytes (leftOver segment s queue) =
      segment.readable.drop s ++ BufferQueue.bytes queue := by
    unfold leftOver
    simp only
    split
    next hempty =>
      have hnil : segment.readable.drop s = [] := by
        rw [← hleft, ← List.length_eq_zero_iff, Segment.length_readable]
        omega
      rw [hnil, List.nil_append]
    next => rw [BufferQueue.bytes_cons, hleft]
  rw [hbytes, ← List.append_assoc, List.take_append_drop, BufferQueue.bytes_cons]

theorem drainLoop_cons (fuel : Nat) (segment : TCPDatagram) (queue : List TCPDatagram)
    (tunnel : τ) :
    drainLoop (fuel + 1) (segment :: queue) tunnel =
      match ITunnel.sendData tunnel segment.readable (!segment.hasFlag PSH) with
      | .failed reason tunnel => ⟨segment :: queue, tunnel, [], some reason⟩
      | .sent s tunnel =>
          if s = 0 then ⟨segment :: queue, tunnel, [], none⟩
          else
            let r := drainLoop fuel (leftOver segment s queue) tunnel
            { r with taken := segment.readable.take s ++ r.taken } := rfl

-- Every byte of the queue is either taken or still queued.
theorem drainLoop_bytes (fuel : Nat) (queue : List TCPDatagram) (tunnel : τ) :
    (drainLoop fuel queue tunnel).taken ++ BufferQueue.bytes (drainLoop fuel queue tunnel).queue =
      BufferQueue.bytes queue := by
  induction fuel generalizing queue tunnel with
  | zero => rfl
  | succ fuel ih =>
    cases queue with
    | nil => rfl
    | cons segment queue =>
      rw [drainLoop_cons]
      cases hsend : ITunnel.sendData tunnel segment.readable (!segment.hasFlag PSH) with
      | failed reason tunnel' => rfl
      | sent s tunnel' =>
        have hle := ITunnel.sendData_le hsend
        rw [Segment.length_readable] at hle
        simp only
        split
        · rfl
        · simp only
          rw [List.append_assoc, ih, leftOver_bytes queue hle]

theorem drain_bytes (queue : List TCPDatagram) (tunnel : τ) :
    (drain queue tunnel).taken ++ BufferQueue.bytes (drain queue tunnel).queue =
      BufferQueue.bytes queue :=
  drainLoop_bytes _ queue tunnel

end TCPSession

end NetCore
