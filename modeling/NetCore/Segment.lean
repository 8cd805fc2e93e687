import NetCore.Word

/-!
# `Segment`: a bounded byte buffer

The buffer of `BufferQueue.cpp`: the bytes between `mPos` and `mLimit` are readable, those after
`mLimit` are free.  The order of the two indices and of the two marks is part of the type.  The last
section gives the bytes a reader sees after each operation.
-/

namespace NetCore

structure Segment where
  mData : Bytes
  mPos : Nat
  mLimit : Nat
  mMarkPos : Nat
  mMarkLimit : Nat
  pos_le : mPos ≤ mLimit
  limit_le : mLimit ≤ mData.length
  mark_le : mMarkPos ≤ mMarkLimit
  markLimit_le : mMarkLimit ≤ mData.length
deriving DecidableEq

namespace Segment

/-- `Segment::Segment`: `size` zero bytes.  A refused size leaves `mSize` at 0 and allocates
    nothing. -/
def new (size : Nat) : Segment where
  mData := if size < 1 ∨ 2 ^ 19 < size then [] else List.replicate size 0
  mPos := 0
  mLimit := 0
  mMarkPos := 0
  mMarkLimit := 0
  pos_le := Nat.le_refl 0
  limit_le := Nat.zero_le _
  mark_le := Nat.le_refl 0
  markLimit_le := Nat.zero_le _

/-- `mSize`, which is the length of the storage from the constructor on. -/
def capacity (seg : Segment) : Nat := seg.mData.length

def size (seg : Segment) : Nat := seg.mLimit - seg.mPos

def remain (seg : Segment) : Nat := seg.capacity - seg.mLimit

/-- The bytes at `begin()`, as many as `size()` tells. -/
def readable (seg : Segment) : Bytes := (seg.mData.drop seg.mPos).take seg.size

def consume (seg : Segment) (n : Nat) : Segment :=
  if h : seg.mPos + n ≤ seg.mLimit then { seg with mPos := seg.mPos + n, pos_le := h } else seg

/-- How many of `len` bytes `write` takes. -/
def writable (seg : Segment) (len : Nat) : Nat :=
  if seg.mLimit + len > seg.capacity then seg.capacity - seg.mLimit else len

theorem writable_le (seg : Segment) (len : Nat) : seg.writable len ≤ len := by
  unfold writable
  split <;> omega

theorem writable_fits (seg : Segment) (len : Nat) :
    seg.mLimit + seg.writable len ≤ seg.mData.length := by
  have hlimit := seg.limit_le
  unfold writable capacity
  split <;> omega

/-- `write(data, len)`: the returned count is `writable data.length`. -/
def write (seg : Segment) (data : Bytes) : Segment :=
  let l := seg.writable data.length
  { seg with
    mData := seg.mData.take seg.mLimit ++ data.take l ++ seg.mData.drop (seg.mLimit + l)
    mLimit := seg.mLimit + l
    pos_le := Nat.le_add_right_of_le seg.pos_le
    limit_le := by
      have hlimit := seg.limit_le
      have hle := seg.writable_le data.length
      simp only [List.length_append, List.length_take, l]
      omega
    markLimit_le := by
      have hmark := seg.markLimit_le
      have hlimit := seg.limit_le
      have hle := seg.writable_le data.length
      have hfits := seg.writable_fits data.length
      simp only [List.length_append, List.length_take, List.length_drop, l]
      omega }

/-- `flip()`: move the readable bytes to the front (the copy taken as a `memmove`). -/
def flip (seg : Segment) : Segment :=
  if 0 < seg.mLimit then
    { seg with
      mData := seg.readable ++ seg.mData.drop seg.size
      mPos := 0
      mLimit := seg.size
      pos_le := Nat.zero_le _
      limit_le := by
        have hlimit := seg.limit_le
        simp only [readable, size, List.length_append, List.length_take, List.length_drop]
        omega
      markLimit_le := by
        have hmark := seg.markLimit_le
        have hlimit := seg.limit_le
        simp only [readable, size, List.length_append, List.length_take, List.length_drop]
        omega }
  else seg

def reset (seg : Segment) : Segment :=
  { seg with
    mPos := 0, mLimit := 0, mMarkPos := 0, mMarkLimit := 0, pos_le := Nat.le_refl 0,
    limit_le := Nat.zero_le _, mark_le := Nat.le_refl 0, markLimit_le := Nat.zero_le _ }

def mark (seg : Segment) : Segment :=
  { seg with
    mMarkPos := seg.mPos, mMarkLimit := seg.mLimit, mark_le := seg.pos_le,
    markLimit_le := seg.limit_le }

def resume (seg : Segment) : Segment :=
  { seg with
    mPos := seg.mMarkPos, mLimit := seg.mMarkLimit, pos_le := seg.mark_le,
    limit_le := seg.markLimit_le }

/-- A new segment of exactly these bytes: allocated, `limit`ed to its size and filled through
    `begin()`. -/
def ofBytes (bytes : Bytes) : Segment where
  mData := bytes
  mPos := 0
  mLimit := bytes.length
  mMarkPos := 0
  mMarkLimit := 0
  pos_le := Nat.zero_le _
  limit_le := Nat.le_refl _
  mark_le := Nat.le_refl 0
  markLimit_le := Nat.zero_le _

/-! ## What a reader sees -/

@[simp] theorem length_readable (seg : Segment) : seg.readable.length = seg.size := by
  have hpos := seg.pos_le
  have hlimit := seg.limit_le
  simp only [readable, size, List.length_take, List.length_drop]
  omega

theorem size_le_capacity (seg : Segment) : seg.size ≤ seg.capacity := by
  have hlimit := seg.limit_le
  unfold size capacity
  omega

@[simp] theorem readable_new (n : Nat) : (new n).readable = [] := rfl

@[simp] theorem readable_ofBytes (bytes : Bytes) : (ofBytes bytes).readable = bytes := by
  simp [readable, ofBytes, size]

@[simp] theorem size_ofBytes (bytes : Bytes) : (ofBytes bytes).size = bytes.length := rfl

theorem readable_consume {seg : Segment} {n : Nat} (h : n ≤ seg.size) :
    (seg.consume n).readable = seg.readable.drop n := by
  have hpos := seg.pos_le
  have hle : seg.mPos + n ≤ seg.mLimit := by unfold size at h; omega
  unfold consume
  rw [dif_pos hle]
  simp only [readable, size, List.drop_take, List.drop_drop]
  congr 1
  omega

theorem size_consume {seg : Segment} {n : Nat} (h : n ≤ seg.size) :
    (seg.consume n).size = seg.size - n := by
  rw [← length_readable, readable_consume h, List.length_drop, length_readable]

@[simp] theorem capacity_consume (seg : Segment) (n : Nat) :
    (seg.consume n).capacity = seg.capacity := by
  unfold consume
  split <;> rfl

-- `write` appends what fits.
theorem readable_write (seg : Segment) (data : Bytes) :
    (seg.write data).readable = seg.readable ++ data.take (seg.writable data.length) := by
  have hpos := seg.pos_le
  have hlimit := seg.limit_le
  have hle := seg.writable_le data.length
  have hsize : seg.mLimit + seg.writable data.length - seg.mPos =
      seg.size + seg.writable data.length := by unfold size; omega
  have htake : (seg.mData.take seg.mLimit).length = seg.mLimit := by
    rw [List.length_take, Nat.min_eq_left hlimit]
  have hhead : ((seg.mData.take seg.mLimit).drop seg.mPos) = seg.readable := by
    rw [List.drop_take]
    rfl
  simp only [readable, size, write, List.append_assoc]
  rw [List.drop_append_of_le_length (by omega), hhead, hsize, ← length_readable]
  rw [List.take_length_add_append, List.take_append_of_le_length (by simp; omega), List.take_take,
    Nat.min_self]
  rfl

theorem remain_eq (seg : Segment) : seg.remain = seg.capacity - seg.mLimit := rfl

@[simp] theorem capacity_write (seg : Segment) (data : Bytes) :
    (seg.write data).capacity = seg.capacity := by
  have hlimit := seg.limit_le
  have hle := seg.writable_le data.length
  have hfits := seg.writable_fits data.length
  simp only [capacity, write, List.length_append, List.length_take, List.length_drop]
  omega

theorem writable_of_le {seg : Segment} {len : Nat} (h : len ≤ seg.remain) :
    seg.writable len = len := by
  have hlimit := seg.limit_le
  unfold remain capacity at h
  unfold writable capacity
  rw [if_neg (by omega)]

-- `write` appends the whole of what there is room for.
theorem readable_write_of_le {seg : Segment} {data : Bytes} (h : data.length ≤ seg.remain) :
    (seg.write data).readable = seg.readable ++ data := by
  rw [readable_write, writable_of_le h, List.take_length]

@[simp] theorem readable_flip (seg : Segment) : seg.flip.readable = seg.readable := by
  unfold flip
  split
  · have hlen := seg.length_readable
    simp only [size] at hlen
    simp only [readable, size, Nat.sub_zero, List.drop_zero] at hlen ⊢
    rw [List.take_append_of_le_length (by omega), List.take_of_length_le (by omega)]
  · rfl

@[simp] theorem capacity_flip (seg : Segment) : seg.flip.capacity = seg.capacity := by
  have hlimit := seg.limit_le
  have hlen := seg.length_readable
  unfold flip
  split
  · simp only [capacity, List.length_append, hlen, List.length_drop]
    unfold size
    omega
  · rfl

-- After `flip` everything but the readable bytes is free.
theorem remain_flip (seg : Segment) : seg.flip.remain = seg.capacity - seg.size := by
  have hpos := seg.pos_le
  rw [remain, capacity_flip]
  unfold flip
  split
  · rfl
  · unfold size
    omega

theorem remain_write {segment : Segment} {data : Bytes} (h : data.length ≤ segment.remain) :
    (segment.write data).remain = segment.remain - data.length := by
  have hcapacity := segment.capacity_write data
  have hwritable := writable_of_le h
  unfold remain at h ⊢
  rw [hcapacity]
  show segment.capacity - (segment.mLimit + segment.writable data.length) = _
  omega

-- Writing piece after piece.
theorem readable_writes {segment : Segment} {pieces : List Bytes}
    (h : pieces.flatten.length ≤ segment.remain) :
    (pieces.foldl write segment).readable = segment.readable ++ pieces.flatten := by
  induction pieces generalizing segment with
  | nil => exact (List.append_nil _).symm
  | cons piece pieces ih =>
    rw [List.flatten_cons, List.length_append] at h
    have hpiece : piece.length ≤ segment.remain := by omega
    rw [List.foldl_cons, ih (by rw [remain_write hpiece]; omega), readable_write_of_le hpiece,
      List.flatten_cons, List.append_assoc]

end Segment

end NetCore
