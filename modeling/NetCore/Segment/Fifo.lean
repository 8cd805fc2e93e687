import NetCore.Lib.Fifo
import NetCore.Lib.Run
import NetCore.Segment

/-!
# A segment as a queue of bytes

What `write`, `consume`, `flip` and `reset` do to a segment is what a bounded queue does that appends,
drops, compacts and clears, as long as no sum of an index and a length exceeds what a `size_t` holds.
Both functions compare such a sum with a bound, and here the sums have 32 bits.
-/

namespace NetCore.Segment

open Lib

/-- `consume` of any number a `size_t` can hold. -/
def consumeWord (seg : Segment) (size : U32) : Segment :=
  let pos := (BitVec.ofNat 32 seg.mPos + size).toNat
  if h : pos ≤ seg.mLimit then { seg with mPos := pos, pos_le := h } else seg

/-- `l` in `write`, for any length a `size_t` can hold. -/
def writeLength (seg : Segment) (len : U32) : U32 :=
  let mLimit := BitVec.ofNat 32 seg.mLimit
  let mSize := BitVec.ofNat 32 seg.capacity
  if mSize < mLimit + len then mSize - mLimit else len

/-- `write` and what it returns, `none` when it copies to behind the storage. -/
def writeWord (seg : Segment) (data : Bytes) : Option (Segment × Nat) :=
  let l := (seg.writeLength (BitVec.ofNat 32 data.length)).toNat
  -- what fits is copied as it is
  if l ≤ seg.remain then some (seg.write (data.take l), l) else none

inductive Call where
  | write (data : Bytes) (h : data.length < 2 ^ 32)
  | consume (size : U32)
  | flip
  | reset

def call (s : Segment × List Nat) : Call → Option (Segment × List Nat)
  | .write data _ => (s.1.writeWord data).map fun r => (r.1, s.2 ++ [r.2])
  | .consume size => some (s.1.consumeWord size, s.2)
  | .flip => some (s.1.flip, s.2)
  | .reset => some (s.1.reset, s.2)

def reference (f : Fifo U8 × List Nat) : Call → Fifo U8 × List Nat
  | .write data _ => (f.1.push data, f.2 ++ [f.1.pushed data])
  | .consume size => (f.1.drop size.toNat, f.2)
  | .flip => (f.1.compact, f.2)
  | .reset => (f.1.clear, f.2)

def SumFits (s : Segment × List Nat) : Call → Prop
  | .write data _ => s.1.mLimit + data.length < 2 ^ 32
  | .consume size => s.1.mPos + size.toNat < 2 ^ 32
  | .flip => True
  | .reset => True

instance (s : Segment × List Nat) : (c : Call) → Decidable (SumFits s c)
  | .write _ _ => inferInstanceAs (Decidable (_ < _))
  | .consume _ => inferInstanceAs (Decidable (_ < _))
  | .flip => inferInstanceAs (Decidable True)
  | .reset => inferInstanceAs (Decidable True)

/-- A segment of `size` bytes stands for a queue. -/
structure StandsFor (size : Nat) (s : Segment × List Nat) (f : Fifo U8 × List Nat) : Prop where
  readable : s.1.readable = f.1.items
  remain : s.1.remain = f.1.free
  returned : s.2 = f.2
  capacity : s.1.capacity = size
  room : f.1.capacity = size

variable {seg : Segment} {size : Nat} {s : Segment × List Nat} {f : Fifo U8 × List Nat}

/-! ## Sums that wrap and sums that do not -/

theorem consumeWord_eq {n : U32} (h : seg.mPos + n.toNat < 2 ^ 32) :
    seg.consumeWord n = seg.consume n.toNat := by
  have hsum : (BitVec.ofNat 32 seg.mPos + n).toNat = seg.mPos + n.toNat := by
    rw [BitVec.toNat_add, BitVec.toNat_ofNat]
    omega
  unfold consumeWord consume
  simp only [hsum]

-- A sum that wraps moves `mPos` back, and bytes that have been consumed are readable again.
theorem size_consumeWord_of_wraps (hseg : seg.capacity ≤ 2 ^ 19) {n : U32}
    (h : 2 ^ 32 ≤ seg.mPos + n.toNat) : seg.size < (seg.consumeWord n).size := by
  have hpos := seg.pos_le
  have hlimit := seg.limit_le
  have hn := n.isLt
  have hsum : (BitVec.ofNat 32 seg.mPos + n).toNat = seg.mPos + n.toNat - 2 ^ 32 := by
    rw [BitVec.toNat_add, BitVec.toNat_ofNat]
    unfold capacity at hseg
    omega
  unfold consumeWord
  dsimp only
  rw [dif_pos (by omega)]
  unfold size
  dsimp only
  omega

-- What is left of the data that `write` takes is written alike.
theorem write_take (seg : Segment) (data : Bytes) :
    seg.write (data.take (seg.writable data.length)) = seg.write data := by
  have hle := seg.writable_le data.length
  have hlength : (data.take (seg.writable data.length)).length = seg.writable data.length := by
    rw [List.length_take]
    omega
  have hwhole : seg.writable (seg.writable data.length) = seg.writable data.length := by
    apply writable_of_le
    have hfits := seg.writable_fits data.length
    unfold remain capacity
    omega
  unfold write
  simp only [hlength, hwhole, List.take_take, Nat.min_self]

theorem writable_eq_min (seg : Segment) (len : Nat) : seg.writable len = min len seg.remain := by
  have hlimit := seg.limit_le
  unfold writable remain capacity
  split <;> omega

theorem toNat_writeLength {len : U32} (hseg : seg.capacity ≤ 2 ^ 19)
    (h : seg.mLimit + len.toNat < 2 ^ 32) :
    (seg.writeLength len).toNat = seg.writable len.toNat := by
  have hlimit : seg.mLimit ≤ seg.capacity := seg.limit_le
  have hless : BitVec.ofNat 32 seg.capacity < BitVec.ofNat 32 seg.mLimit + len ↔
      seg.mLimit + len.toNat > seg.capacity := by
    rw [BitVec.lt_def, BitVec.toNat_add, BitVec.toNat_ofNat, BitVec.toNat_ofNat]
    omega
  unfold writeLength writable
  dsimp only
  by_cases hmore : seg.mLimit + len.toNat > seg.capacity
  · rw [if_pos (hless.mpr hmore), if_pos hmore, BitVec.toNat_sub, BitVec.toNat_ofNat,
      BitVec.toNat_ofNat]
    omega
  · rw [if_neg fun hlt => hmore (hless.mp hlt), if_neg hmore]

theorem writeWord_eq {data : Bytes} (hseg : seg.capacity ≤ 2 ^ 19)
    (h : seg.mLimit + data.length < 2 ^ 32) :
    seg.writeWord data = some (seg.write data, seg.writable data.length) := by
  have hlen : (BitVec.ofNat 32 data.length).toNat = data.length := by
    rw [BitVec.toNat_ofNat]
    omega
  have hlength : (seg.writeLength (BitVec.ofNat 32 data.length)).toNat =
      seg.writable data.length := by
    rw [toNat_writeLength hseg (by rw [hlen]; exact h), hlen]
  have hroom : seg.writable data.length ≤ seg.remain := by
    rw [writable_eq_min]
    exact Nat.min_le_right _ _
  unfold writeWord
  dsimp only
  rw [hlength, if_pos hroom, write_take]

-- A sum that wraps passes for one that fits, and the copy leaves the storage.
theorem writeWord_of_wraps {data : Bytes} (hseg : seg.capacity ≤ 2 ^ 19)
    (hdata : data.length < 2 ^ 32) (h : 2 ^ 32 ≤ seg.mLimit + data.length) :
    seg.writeWord data = none := by
  have hlimit : seg.mLimit ≤ seg.capacity := seg.limit_le
  have hless : ¬ BitVec.ofNat 32 seg.capacity <
      BitVec.ofNat 32 seg.mLimit + BitVec.ofNat 32 data.length := by
    rw [BitVec.lt_def, BitVec.toNat_add, BitVec.toNat_ofNat, BitVec.toNat_ofNat, BitVec.toNat_ofNat]
    omega
  have hlength : seg.writeLength (BitVec.ofNat 32 data.length) = BitVec.ofNat 32 data.length :=
    if_neg hless
  have hlen : (BitVec.ofNat 32 data.length).toNat = data.length := by
    rw [BitVec.toNat_ofNat, Nat.mod_eq_of_lt hdata]
  have hmore : ¬ data.length ≤ seg.remain := by
    unfold remain
    omega
  unfold writeWord
  dsimp only
  rw [hlength, hlen, if_neg hmore]

/-! ## One call -/

theorem remain_consume (seg : Segment) (n : Nat) : (seg.consume n).remain = seg.remain := by
  unfold consume
  split <;> rfl

theorem consume_of_lt {n : Nat} (h : seg.size < n) : seg.consume n = seg := by
  have hpos := seg.pos_le
  unfold size at h
  unfold consume
  rw [dif_neg (by omega)]

theorem standsFor_write {data : Bytes} (h : StandsFor size s f) :
    StandsFor size (s.1.write data, s.2 ++ [s.1.writable data.length])
      (f.1.push data, f.2 ++ [f.1.pushed data]) where
  readable := by
    have hcount : s.1.writable data.length = f.1.pushed data := by
      rw [writable_eq_min, h.remain]
      rfl
    rw [readable_write, hcount, h.readable]
    rfl
  remain := by
    have hlimit := s.1.limit_le
    have hroom := h.remain
    show (s.1.write data).capacity - (s.1.mLimit + s.1.writable data.length) =
      f.1.free - min data.length f.1.free
    rw [capacity_write, writable_eq_min, ← hroom]
    unfold remain capacity
    omega
  returned := by
    show s.2 ++ [s.1.writable data.length] = f.2 ++ [min data.length f.1.free]
    rw [writable_eq_min, h.remain, h.returned]
  capacity := (s.1.capacity_write data).trans h.capacity
  room := h.room

theorem standsFor_consume {n : Nat} (h : StandsFor size s f) :
    StandsFor size (s.1.consume n, s.2) (f.1.drop n, f.2) where
  readable := by
    have hlength : s.1.size = f.1.items.length := by
      rw [← h.readable, length_readable]
    by_cases hle : n ≤ s.1.size
    · rw [readable_consume hle, h.readable]
      exact (Fifo.drop_of_le (by omega)).symm
    · rw [consume_of_lt (Nat.lt_of_not_le hle), h.readable]
      exact (Fifo.drop_of_lt (by omega)).symm
  remain := (remain_consume s.1 n).trans h.remain
  returned := h.returned
  capacity := (s.1.capacity_consume n).trans h.capacity
  room := h.room

theorem standsFor_flip (h : StandsFor size s f) :
    StandsFor size (s.1.flip, s.2) (f.1.compact, f.2) where
  readable := (readable_flip s.1).trans h.readable
  remain := by
    show _ = f.1.capacity - f.1.items.length
    rw [remain_flip, h.capacity, h.room, ← h.readable, length_readable]
  returned := h.returned
  capacity := (capacity_flip s.1).trans h.capacity
  room := h.room

theorem standsFor_reset (h : StandsFor size s f) :
    StandsFor size (s.1.reset, s.2) (f.1.clear, f.2) where
  readable := rfl
  remain := h.capacity.trans h.room.symm
  returned := h.returned
  capacity := h.capacity
  room := h.room

-- A call does to the segment what it does to the queue exactly if no sum wraps.
theorem standsFor_call_iff (hsize : size ≤ 2 ^ 19) (h : StandsFor size s f) (c : Call) :
    (∃ s', call s c = some s' ∧ StandsFor size s' (reference f c)) ↔ SumFits s c := by
  have hseg : s.1.capacity ≤ 2 ^ 19 := h.capacity.trans_le hsize
  cases c with
  | write data hdata =>
    show _ ↔ s.1.mLimit + data.length < 2 ^ 32
    constructor
    · rintro ⟨s', hcall, -⟩
      apply Nat.lt_of_not_le
      intro hwraps
      have hnone : call s (.write data hdata) = none := by
        show Option.map _ _ = none
        rw [writeWord_of_wraps hseg hdata hwraps, Option.map_none]
      rw [hnone] at hcall
      cases hcall
    · intro hfits
      refine ⟨(s.1.write data, s.2 ++ [s.1.writable data.length]), ?_, standsFor_write h⟩
      show Option.map _ _ = _
      rw [writeWord_eq hseg hfits, Option.map_some]
  | consume n =>
    show _ ↔ s.1.mPos + n.toNat < 2 ^ 32
    constructor
    · rintro ⟨s', hcall, hstands⟩
      cases hcall
      apply Nat.lt_of_not_le
      intro hwraps
      have hmore := size_consumeWord_of_wraps hseg hwraps
      have hlength : (s.1.consumeWord n).size = (f.1.drop n.toNat).items.length := by
        rw [← length_readable, hstands.readable]
        rfl
      have hitems : s.1.size = f.1.items.length := by
        rw [← h.readable, length_readable]
      have hfew : (f.1.drop n.toNat).items.length ≤ f.1.items.length := by
        by_cases hle : n.toNat ≤ f.1.items.length
        · rw [Fifo.drop_of_le hle, List.length_drop]
          exact Nat.sub_le _ _
        · exact Nat.le_of_eq (congrArg List.length (Fifo.drop_of_lt (Nat.lt_of_not_le hle)))
      omega
    · intro hfits
      refine ⟨_, rfl, ?_⟩
      rw [consumeWord_eq hfits]
      exact standsFor_consume h
  | flip => exact iff_of_true ⟨_, rfl, standsFor_flip h⟩ trivial
  | reset => exact iff_of_true ⟨_, rfl, standsFor_reset h⟩ trivial

/-! ## Runs -/

theorem resume_consumeWord (seg : Segment) (n : U32) :
    (seg.consumeWord n).resume = seg.resume := by
  unfold consumeWord
  dsimp only
  split <;> rfl

-- Whatever is consumed behind a mark, `resume` gives it back.
theorem readable_resume (seg : Segment) (sizes : List U32) :
    (sizes.foldl consumeWord seg.mark).resume.readable = seg.readable := by
  have hkept (seg : Segment) : (sizes.foldl consumeWord seg).resume = seg.resume := by
    induction sizes generalizing seg with
    | nil => rfl
    | cons n sizes ih => rw [List.foldl_cons, ih, resume_consumeWord]
  rw [hkept]
  rfl

/-- After the calls the segment is what the queue is, and a mark keeps it so for a `resume`. -/
structure Behaves (size : Nat) (calls : List Call) (s : Segment × List Nat) : Prop where
  indices : s.1.mPos ≤ s.1.mLimit ∧ s.1.mLimit ≤ size
  standsFor : StandsFor size s (calls.foldl reference (Fifo.empty size, []))
  checkpoint (sizes : List U32) :
    (sizes.foldl consumeWord s.1.mark).resume.readable = s.1.readable

theorem StandsFor.behaves {calls : List Call}
    (h : StandsFor size s (calls.foldl reference (Fifo.empty size, []))) :
    Behaves size calls s where
  indices := by
    have hlimit : s.1.mLimit ≤ s.1.capacity := s.1.limit_le
    rw [h.capacity] at hlimit
    exact ⟨s.1.pos_le, hlimit⟩
  standsFor := h
  checkpoint := readable_resume s.1

-- A new segment of a valid size is an empty queue.
theorem standsFor_new (hpos : 1 ≤ size) (hsize : size ≤ 2 ^ 19) :
    StandsFor size (new size, []) (Fifo.empty size, []) := by
  have hcapacity : (new size).capacity = size := by
    unfold capacity new
    dsimp only
    rw [if_neg (by omega), List.length_replicate]
  exact ⟨readable_new size, hcapacity, rfl, hcapacity, rfl⟩

/-- In every run of calls the segment is a bounded queue all along, exactly if no sum wraps. -/
theorem behaves_iff (hpos : 1 ≤ size) (hsize : size ≤ 2 ^ 19) (calls : List Call) :
    (∀ pre, pre <+: calls → ∃ s, run call (new size, []) pre = some s ∧ Behaves size pre s) ↔
      Along call SumFits (new size, []) calls := by
  rw [← Along.follows_iff reference (StandsFor size)
    (fun s f c h => standsFor_call_iff hsize h c) (standsFor_new hpos hsize)]
  constructor
  · intro h pre hpre
    obtain ⟨s, hrun, hbehaves⟩ := h pre hpre
    exact ⟨s, hrun, hbehaves.standsFor⟩
  · intro h pre hpre
    obtain ⟨s, hrun, hstands⟩ := h pre hpre
    exact ⟨s, hrun, hstands.behaves⟩

theorem octet_short : ([0x61] : Bytes).length < 2 ^ 32 := by decide

/-- One byte through a segment of two. -/
theorem behaves_flipped : ∃ s, run call (new 2, [])
      [.write [0x61] octet_short, .consume 1, .flip] = some s ∧
    Behaves 2 [.write [0x61] octet_short, .consume 1, .flip] s :=
  (behaves_iff (by decide) (by decide) [.write [0x61] octet_short, .consume 1, .flip]).mpr
    (by decide) _ (List.prefix_refl _)

/-- The byte has been consumed, and a second call with the largest number makes it readable again. -/
theorem consume_wraps : (∃ s, run call (new 2, [])
      [.write [0x61] octet_short, .consume 1, .consume 0xFFFFFFFF] = some s ∧
      s.1.readable = [0x61]) ∧
    ¬ ∃ s, run call (new 2, []) [.write [0x61] octet_short, .consume 1, .consume 0xFFFFFFFF] =
      some s ∧ Behaves 2 [.write [0x61] octet_short, .consume 1, .consume 0xFFFFFFFF] s := by
  have hreadable : ∃ s, run call (new 2, [])
      [.write [0x61] octet_short, .consume 1, .consume 0xFFFFFFFF] = some s ∧
      s.1.readable = [0x61] := run_reaches (by decide)
  refine ⟨hreadable, ?_⟩
  rintro ⟨s, hrun, hbehaves⟩
  obtain ⟨s', hrun', hreadable⟩ := hreadable
  rw [hrun] at hrun'
  cases hrun'
  rw [hbehaves.standsFor.readable] at hreadable
  exact absurd hreadable (by decide)

end NetCore.Segment
