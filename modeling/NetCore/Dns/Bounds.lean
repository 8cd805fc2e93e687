import Mathlib.Algebra.GroupWithZero.Nat
import NetCore.Dns

/-!
# Where the decoding of a name reads and stores

What is written at an offset is a walk of at most ten steps: labels and pointers, and perhaps an
empty label at its end.  A round of the loop takes one step of it.  The stores stay inside the buffer
on every walk; the reads stay inside the message if the pointers do.
-/

namespace NetCore.Dns

open Lib

structure Walk where
  /-- The places of the pointers. -/
  pointers : List U16
  /-- The places of the labels and their lengths. -/
  labels : List (U16 × U8)
  /-- It comes to an empty label. -/
  complete : Bool

variable (dns : Nat → U8)

def walk (datalen : Nat) : Nat → U16 → Walk
  | 0, _ => ⟨[], [], false⟩
  | n + 1, ptr =>
      let len := dns ptr.toNat
      if len = 0 then ⟨[], [], true⟩
      else if len &&& 0xC0 ≠ 0 then
        let rest := walk datalen n (target dns len ptr)
        { rest with pointers := ptr :: rest.pointers }
      else if ptr.toNat + 1 + len.toNat < datalen then
        let rest := walk datalen n (ptr + (len.setWidth 16 + 1))
        { rest with labels := (ptr, len) :: rest.labels }
      else ⟨[], [], false⟩

/-- Both bytes of the pointer and the place it leads to belong to the message. -/
def PointsInside (datalen : Nat) (ptr : U16) : Prop :=
  ptr.toNat + 1 < datalen ∧ (target dns (dns ptr.toNat) ptr).toNat < datalen

/-- The letters and dots of labels, each at its index in the buffer. -/
def layout : U8 → List (U16 × U8) → List (U8 × Nat)
  | _, [] => []
  | rlen, label :: rest =>
      piece dns NAME_SIZE rlen label.1 label.2 ++ layout (rlen + (label.2 + 1)) rest

def spelledLength (labels : List (U16 × U8)) : Nat := (labels.map fun label => label.2.toNat + 1).sum

variable (datalen : Nat) (off : U16)

structure StaysInside : Prop where
  reads : ∀ i ∈ (getNameNotation dns datalen off NAME_SIZE).reads, i < datalen
  stores : ∀ s ∈ (getNameNotation dns datalen off NAME_SIZE).stores, s.2 < NAME_SIZE
  /-- Whatever the array of the caller held, there is a string in it. -/
  terminated (out : Bytes) : out.length = NAME_SIZE →
    ∃ i : Nat, (store out (getNameNotation dns datalen off NAME_SIZE).stores)[i]? = some 0

/-- The walk comes to an empty label, and the length of what is spelled is not lost in the byte that
    keeps it; or there is nothing to spell; or a zero among the letters is not spelled over. -/
def EndsText (w : Walk) : Prop :=
  w.complete = true ∧ ¬ 256 ∣ spelledLength w.labels ∨ w.labels = [] ∨
    ∃ i, lastStore (layout dns 0 w.labels) i = some 0

/-! ## Labels in the buffer -/

variable {dns datalen off} {rlen len : U8} {ptr : U16} {labels : List (U16 × U8)}

theorem keptLength_le (size : Nat) (rlen len : U8) : keptLength size rlen len ≤ len.toNat := by
  unfold keptLength
  split <;> omega

-- The dot behind what is kept of a label is in the buffer still.
theorem dot_lt (h : 0 < keptLength NAME_SIZE rlen len) :
    rlen.toNat + keptLength NAME_SIZE rlen len < NAME_SIZE := by
  have hsize : NAME_SIZE = 255 := rfl
  unfold keptLength at h ⊢
  split at h
  next hlong =>
    rw [if_pos hlong]
    omega
  next hshort =>
    rw [if_neg hshort]
    omega

theorem piece_lt {s : U8 × Nat} (h : s ∈ piece dns NAME_SIZE rlen ptr len) : s.2 < NAME_SIZE := by
  unfold piece at h
  simp only at h
  split at h
  next hkept =>
    have hdot := dot_lt hkept
    have hlt := List.snd_lt_add_of_mem_zipIdx h
    rw [List.length_append, List.length_map, List.length_range', List.length_cons,
      List.length_nil] at hlt
    omega
  next => cases h

theorem layout_lt {s : U8 × Nat} (h : s ∈ layout dns rlen labels) : s.2 < NAME_SIZE := by
  induction labels generalizing rlen with
  | nil => cases h
  | cons label labels ih =>
    rw [layout] at h
    rcases List.mem_append.mp h with hfirst | hrest
    · exact piece_lt hfirst
    · exact ih hrest

-- The first label starts at the front of the buffer.
theorem piece_zero (hpos : 0 < len.toNat) : ∃ b, (b, 0) ∈ piece dns NAME_SIZE 0 ptr len := by
  have hkept : 0 < keptLength NAME_SIZE 0 len := by
    have hsize : NAME_SIZE = 255 := rfl
    have hzero : (0 : U8).toNat = 0 := rfl
    unfold keptLength
    split <;> omega
  unfold piece
  simp only
  rw [if_pos hkept]
  generalize (List.range' (ptr.toNat + 1) (keptLength NAME_SIZE 0 len)).map dns = letters
  cases letters with
  | nil => exact ⟨0x2E, List.mem_cons_self⟩
  | cons b letters => exact ⟨b, List.mem_cons_self⟩

theorem spelledLength_cons (label : U16 × U8) (labels : List (U16 × U8)) :
    spelledLength (label :: labels) = label.2.toNat + 1 + spelledLength labels := by
  unfold spelledLength
  rw [List.map_cons, List.sum_cons]

/-! ## One round, one step -/

structure Takes (dns : Nat → U8) (datalen : Nat) (s : Locals) (w : Walk) (r : Locals × Nat) : Prop where
  rlen : r.1.rlen = s.rlen + BitVec.ofNat 8 (spelledLength w.labels)
  stores : r.1.stores = s.stores ++ layout dns s.rlen w.labels
  reads : (∀ i ∈ r.1.reads, i < datalen) ↔
    (∀ i ∈ s.reads, i < datalen) ∧ ∀ ptr ∈ w.pointers, PointsInside dns datalen ptr
  complete : r.2 ≠ 0 ∧ r.1.len = 0 ↔ w.complete = true

theorem Takes.nothing {s : Locals} {loop : Nat} {complete : Bool}
    (hcomplete : loop ≠ 0 ∧ s.len = 0 ↔ complete = true) :
    Takes dns datalen s ⟨[], [], complete⟩ (s, loop) where
  rlen := (BitVec.add_zero s.rlen).symm
  stores := (List.append_nil s.stores).symm
  reads := (and_iff_left (List.forall_mem_nil _)).symm
  complete := hcomplete

theorem takes_pointer {s : Locals} {w : Walk} {r : Locals × Nat} (hlen : s.len = dns s.ptr.toNat)
    {off : U16} {c : Bool}
    (h : Takes dns datalen
      { s with
        ptr := target dns s.len s.ptr
        len := dns (target dns s.len s.ptr).toNat
        c := c
        off := off
        reads := s.reads ++ [s.ptr.toNat + 1, (target dns s.len s.ptr).toNat] } w r) :
    Takes dns datalen s { w with pointers := s.ptr :: w.pointers } r where
  rlen := h.rlen
  stores := h.stores
  reads := by
    rw [h.reads, List.forall_mem_append, List.forall_mem_cons, List.forall_mem_singleton,
      List.forall_mem_cons, PointsInside, ← hlen, and_assoc, and_assoc]
  complete := h.complete

theorem takes_label {s : Locals} {w : Walk} {r : Locals × Nat} {off : U16}
    (hfits : s.ptr.toNat + 1 + s.len.toNat < datalen)
    (h : Takes dns datalen
      { s with
        rlen := s.rlen + (s.len + 1)
        ptr := s.ptr + (s.len.setWidth 16 + 1)
        len := dns (s.ptr + (s.len.setWidth 16 + 1)).toNat
        off := off
        reads := s.reads ++
          List.range' (s.ptr.toNat + 1) (keptLength NAME_SIZE s.rlen s.len) ++
            [(s.ptr + (s.len.setWidth 16 + 1)).toNat]
        stores := s.stores ++ piece dns NAME_SIZE s.rlen s.ptr s.len } w r) :
    Takes dns datalen s { w with labels := (s.ptr, s.len) :: w.labels } r where
  rlen := by
    rw [h.rlen, spelledLength_cons]
    show s.rlen + (s.len + 1) + _ = _
    rw [BitVec.ofNat_add, BitVec.ofNat_add, BitVec.ofNat_toNat, BitVec.setWidth_eq]
    simp only [BitVec.add_assoc]
    rfl
  stores := by
    rw [h.stores, layout]
    exact List.append_assoc _ _ _
  reads := by
    have hkept := keptLength_le NAME_SIZE s.rlen s.len
    have hletters : ∀ i ∈ List.range' (s.ptr.toNat + 1) (keptLength NAME_SIZE s.rlen s.len),
        i < datalen := by
      intro i hi
      have hlt := (List.mem_range'_1.mp hi).2
      omega
    have hnext : (s.ptr + (s.len.setWidth 16 + 1)).toNat < datalen := by
      -- the sum may wrap, which makes it smaller still
      have hle := Nat.mod_le (s.ptr.toNat + (s.len.toNat + 1)) (2 ^ 16)
      have hlt := s.len.isLt
      have hsum : (s.ptr + (s.len.setWidth 16 + 1)).toNat =
          (s.ptr.toNat + (s.len.toNat + 1)) % 2 ^ 16 := by
        rw [BitVec.toNat_add, BitVec.toNat_add, BitVec.toNat_setWidth]
        show (s.ptr.toNat + (s.len.toNat % 2 ^ 16 + 1) % 2 ^ 16) % 2 ^ 16 = _
        omega
      omega
    rw [h.reads]
    refine and_congr_left' ?_
    rw [List.forall_mem_append, List.forall_mem_append, List.forall_mem_singleton]
    exact ⟨fun hall => hall.1.1, fun hreads => ⟨⟨hreads, hletters⟩, hnext⟩⟩
  complete := h.complete

-- The loop takes the walk from its place on; there may be room behind the message.
theorem notationLoop_takes {room : Nat} (hroom : datalen ≤ room) (loop : Nat) {s : Locals}
    (hlen : s.len = dns s.ptr.toNat) :
    Takes dns room s (walk dns datalen loop s.ptr)
      (notationLoop dns datalen NAME_SIZE loop s) := by
  induction loop generalizing s with
  | zero =>
    rw [walk, notationLoop]
    split
    next => exact .nothing (iff_of_false (fun h => h.1 rfl) Bool.false_ne_true)
    next hne => exact .nothing (iff_of_false (fun h => hne h.2) Bool.false_ne_true)
  | succ loop ih =>
    rw [walk, notationLoop]
    simp only
    rw [← hlen]
    by_cases hempty : s.len = 0
    · rw [if_pos hempty, if_pos hempty]
      exact .nothing (iff_of_true ⟨Nat.succ_ne_zero loop, hempty⟩ rfl)
    · rw [if_neg hempty, if_neg hempty]
      unfold round
      by_cases hpointer : s.len &&& 0xC0 ≠ 0
      · rw [if_pos hpointer, if_pos hpointer]
        exact takes_pointer hlen (ih rfl)
      · rw [if_neg hpointer, if_neg hpointer]
        by_cases hfits : s.ptr.toNat + 1 + s.len.toNat < datalen
        · rw [if_pos hfits, if_pos hfits]
          exact takes_label (Nat.lt_of_lt_of_le hfits hroom) (ih rfl)
        · rw [if_neg hfits, if_neg hfits]
          exact .nothing (iff_of_false (fun h => hempty h.2) Bool.false_ne_true)

theorem walk_labels_pos (n : Nat) (ptr : U16) :
    ∀ label ∈ (walk dns datalen n ptr).labels, 0 < label.2.toNat := by
  induction n generalizing ptr with
  | zero => exact List.forall_mem_nil _
  | succ n ih =>
    rw [walk]
    simp only
    split
    next => exact List.forall_mem_nil _
    next hne =>
      split
      next => exact ih _
      next =>
        split
        next =>
          have hpos : 0 < (dns ptr.toNat).toNat :=
            Nat.pos_of_ne_zero fun hzero => hne (BitVec.eq_of_toNat_eq hzero)
          exact List.forall_mem_cons.mpr ⟨hpos, ih _⟩
        next => exact List.forall_mem_nil _

/-! ## The call -/

-- The zero behind a name that has been spelled.
def ending (w : Walk) : List (U8 × Nat) :=
  if w.complete = true ∧ ¬ 256 ∣ spelledLength w.labels then
    [(0, spelledLength w.labels % 256 - 1)]
  else []

-- What a call leaves, by the walk it takes.
theorem getNameNotation_takes (dns : Nat → U8) {datalen room : Nat} (hroom : datalen ≤ room)
    (off : U16) :
    ((∀ i ∈ (getNameNotation dns datalen off NAME_SIZE).reads, i < room) ↔
        off.toNat < room ∧
          ∀ ptr ∈ (walk dns datalen 10 off).pointers, PointsInside dns room ptr) ∧
      (getNameNotation dns datalen off NAME_SIZE).stores =
        (0, 0) :: layout dns 0 (walk dns datalen 10 off).labels ++
          ending (walk dns datalen 10 off) := by
  have hloop := @notationLoop_takes dns datalen room hroom 10
    ⟨off, false, 0, off, dns off.toNat, [off.toNat], [(0, 0)]⟩ rfl
  unfold getNameNotation
  dsimp only at hloop ⊢
  generalize notationLoop dns datalen NAME_SIZE 10
    ⟨off, false, 0, off, dns off.toNat, [off.toNat], [(0, 0)]⟩ = r at hloop ⊢
  generalize walk dns datalen 10 off = w at hloop ⊢
  have hreads : (∀ i ∈ r.1.reads, i < room) ↔
      off.toNat < room ∧ ∀ ptr ∈ w.pointers, PointsInside dns room ptr := by
    rw [hloop.reads, List.forall_mem_singleton]
  have hstores : r.1.stores = (0, 0) :: layout dns 0 w.labels := hloop.stores
  have hrlen : r.1.rlen = BitVec.ofNat 8 (spelledLength w.labels) :=
    hloop.rlen.trans (BitVec.zero_add _)
  have hlength : r.1.rlen.toNat = spelledLength w.labels % 256 := by
    rw [hrlen, BitVec.toNat_ofNat]
  have hzero : r.1.rlen = 0 ↔ 256 ∣ spelledLength w.labels := by
    rw [Nat.dvd_iff_mod_eq_zero, ← hlength]
    exact ⟨fun h => congrArg BitVec.toNat h, fun h => BitVec.eq_of_toNat_eq h⟩
  unfold ending
  by_cases hended : w.complete = true ∧ ¬ 256 ∣ spelledLength w.labels
  · obtain ⟨hround, hempty⟩ := hloop.complete.mpr hended.1
    have hname : ¬ (r.1.len ≠ 0 ∨ r.1.rlen = 0) := by
      rintro (hne | hlost)
      · exact hne hempty
      · exact hended.2 (hzero.mp hlost)
    rw [if_pos hended, if_neg hround, if_neg hname, ← hlength, ← hstores]
    exact ⟨hreads, rfl⟩
  · rw [if_neg hended, List.append_nil]
    split
    next => exact ⟨hreads, hstores⟩
    next hround =>
      have hname : r.1.len ≠ 0 ∨ r.1.rlen = 0 := by
        by_contra hnot
        rw [not_or, not_not] at hnot
        exact hended ⟨hloop.complete.mp ⟨hround, hnot.1⟩, fun h => hnot.2 (hzero.mpr h)⟩
      rw [if_pos hname]
      exact ⟨hreads, hstores⟩

-- Every store is inside the array, whatever is decoded.
theorem getNameNotation_stores_lt {s : U8 × Nat}
    (h : s ∈ (getNameNotation dns datalen off NAME_SIZE).stores) : s.2 < NAME_SIZE := by
  have hsize : NAME_SIZE = 255 := rfl
  rw [(getNameNotation_takes dns (Nat.le_refl datalen) off).2] at h
  rcases List.mem_append.mp h with hspelled | hend
  · rcases List.mem_cons.mp hspelled with hfirst | hletters
    · rw [hfirst]
      exact Nat.zero_lt_succ _
    · exact layout_lt hletters
  · unfold ending at hend
    split at hend
    next =>
      rw [List.mem_singleton.mp hend]
      omega
    next => cases hend

-- The array holds a string for sure exactly if the walk ends one.
theorem exists_lastStore_iff {w : Walk} (hpos : ∀ label ∈ w.labels, 0 < label.2.toNat) :
    (∃ i < NAME_SIZE, lastStore ((0, 0) :: layout dns 0 w.labels ++ ending w) i = some 0) ↔
      EndsText dns w := by
  have hsize : NAME_SIZE = 255 := rfl
  unfold ending EndsText
  by_cases hended : w.complete = true ∧ ¬ 256 ∣ spelledLength w.labels
  · rw [if_pos hended]
    refine iff_of_true ⟨spelledLength w.labels % 256 - 1, by omega, ?_⟩ (.inl hended)
    exact lastStore_snoc _ _ _
  · rw [if_neg hended, List.append_nil, or_iff_right hended]
    cases hlabels : w.labels with
    | nil => exact iff_of_true ⟨0, by omega, rfl⟩ (.inl rfl)
    | cons label labels =>
      rw [hlabels] at hpos
      rw [or_iff_right (List.cons_ne_nil _ _)]
      constructor
      · rintro ⟨i, -, hi⟩
        rw [lastStore, Option.or_eq_some_iff] at hi
        rcases hi with hspelled | ⟨hnone, hfirst⟩
        · exact ⟨i, hspelled⟩
        · -- the first label is spelled over the zero the call begins with
          obtain ⟨b, hb⟩ := @piece_zero dns label.2 label.1 (hpos label List.mem_cons_self)
          obtain ⟨b', hlast⟩ := lastStore_isSome
            (List.mem_append_left (layout dns (0 + (label.2 + 1)) labels) hb)
          split at hfirst
          next hindex =>
            rw [← hindex, layout, hlast] at hnone
            cases hnone
          next => cases hfirst
      · rintro ⟨i, hi⟩
        refine ⟨i, layout_lt (mem_of_lastStore hi), ?_⟩
        rw [lastStore, hi]
        rfl

/-- A call stays inside the message and the array, and leaves a string, exactly if the pointers it
    follows are inside and its walk ends the text. -/
theorem staysInside_iff (hoff : off.toNat < datalen) :
    StaysInside dns datalen off ↔
      (∀ ptr ∈ (walk dns datalen 10 off).pointers, PointsInside dns datalen ptr) ∧
        EndsText dns (walk dns datalen 10 off) := by
  obtain ⟨hreads, hstores⟩ := getNameNotation_takes dns (Nat.le_refl datalen) off
  have hfiller : (1 : U8) ≠ 0 := by decide
  have htext : (∀ out : Bytes, out.length = NAME_SIZE →
      ∃ i : Nat, (store out (getNameNotation dns datalen off NAME_SIZE).stores)[i]? = some 0) ↔
      EndsText dns (walk dns datalen 10 off) := by
    rw [forall_store_iff hfiller, hstores]
    exact exists_lastStore_iff (walk_labels_pos 10 off)
  constructor
  · intro h
    exact ⟨(hreads.mp h.reads).2, htext.mp h.terminated⟩
  · rintro ⟨hpointers, hended⟩
    exact ⟨hreads.mpr ⟨hoff, hpointers⟩, fun s hs => getNameNotation_stores_lt hs,
      htext.mpr hended⟩

def plainName : Nat → U8 := byteAt [0x01, 0x61, 0x00]

theorem staysInside_plainName : StaysInside plainName 3 0 :=
  (staysInside_iff (by decide)).mpr
    ⟨List.forall_mem_nil _, .inl ⟨by decide, by decide⟩⟩

-- A pointer whose second byte is missing.
def cutPointer : Nat → U8 := byteAt [0xC0]

-- A label followed by a pointer back to it.
def roundTrip : Nat → U8 := byteAt [0x01, 0x61, 0xC0, 0x00]

/-- The first call reads behind its message, the second spells a name without an end. -/
theorem notation_strays : ¬ StaysInside cutPointer 1 0 ∧ ¬ StaysInside roundTrip 4 0 := by
  constructor
  · intro h
    have hread := h.reads 1 (by decide)
    omega
  · intro h
    have hfiller : (1 : U8) ≠ 0 := by decide
    have hzero := (forall_store_iff hfiller _).mp h.terminated
    rw [(getNameNotation_takes roundTrip (Nat.le_refl 4) 0).2, exists_lastStore_iff (walk_labels_pos 10 0)] at hzero
    have hincomplete : (walk roundTrip 4 10 0).complete = false := by decide
    have hlabels : (walk roundTrip 4 10 0).labels ≠ [] := by decide
    have hletters : ∀ s ∈ layout roundTrip 0 (walk roundTrip 4 10 0).labels, s.1 ≠ 0 := by decide
    rcases hzero with ⟨hcomplete, -⟩ | hnone | ⟨i, hi⟩
    · rw [hincomplete] at hcomplete
      cases hcomplete
    · exact hlabels hnone
    · exact hletters (0, i) (mem_of_lastStore hi) rfl

/-! ## A message -/

/-- A name decoded from a place on, and `fixed` bytes behind it, lie below `room`. -/
def EntryInside (dns : Nat → U8) (datalen room : Nat) (entry : Entry) : Prop :=
  (entry.off.toNat < room ∧
      ∀ ptr ∈ (walk dns datalen 10 entry.off).pointers, PointsInside dns room ptr) ∧
    (0 < entry.fixed →
      (getNameNotation dns datalen entry.off NAME_SIZE).next.toNat + entry.fixed ≤ room)

/-- The header and every entry that `toString` decodes lie below `room`. -/
def MessageInside (dns : Nat → U8) (datalen room : Nat) : Prop :=
  12 ≤ room ∧ ∀ entry ∈ messageEntries dns datalen, EntryInside dns datalen room entry

theorem entryReads_lt_iff {room : Nat} (hroom : datalen ≤ room) (entry : Entry) :
    (∀ i ∈ entryReads dns datalen entry, i < room) ↔ EntryInside dns datalen room entry := by
  unfold entryReads EntryInside
  dsimp only
  rw [List.forall_mem_append, (getNameNotation_takes dns hroom entry.off).1, forall_range'_lt_iff]

theorem messageReads_lt_iff {room : Nat} (hroom : datalen ≤ room) :
    (∀ i ∈ messageReads dns datalen, i < room) ↔ MessageInside dns datalen room := by
  unfold messageReads MessageInside
  rw [List.forall_mem_append, List.range_eq_range', forall_range'_lt_iff, List.forall_mem_flatMap]
  apply and_congr
  · omega
  · exact forall₂_congr fun entry _ => entryReads_lt_iff hroom entry

end NetCore.Dns
