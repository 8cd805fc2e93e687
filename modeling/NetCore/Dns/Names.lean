import Mathlib.Tactic.IntervalCases
import NetCore.Dns.Bounds
import NetCore.Lib.LengthPrefix

/-!
# The names that are decoded

A domain name is a row of labels, each behind its length; an empty label ends it, or a pointer to
where its last labels have been written before.  The loop spells a label a round and takes one more
for a pointer.  It counts ten rounds, and makes sure of the text and of the offset behind the name for
only some of the names that are written so.
-/

namespace NetCore.Dns

open Lib

inductive DomainName where
  | plain (labels : List Bytes)
  /-- The first labels, and a place where the others are written plainly. -/
  | compressed (labels : List Bytes) (place : U16) (suffix : List Bytes)
deriving DecidableEq

/-- The bytes of labels, each behind its length. -/
def encode (labels : List Bytes) : Bytes := labels.flatMap lengthPrefixed

-- The labels as the loop spells them, a dot behind each.
def dotted (labels : List Bytes) : Bytes := labels.flatMap (· ++ [0x2E])

/-- The labels joined by dots. -/
def text (labels : List Bytes) : Bytes := [0x2E].intercalate labels

def DomainName.labels : DomainName → List Bytes
  | plain labels => labels
  | compressed labels _ suffix => labels ++ suffix

/-- What stands at the place of the name itself. -/
def DomainName.wire : DomainName → Bytes
  | plain labels => encode labels ++ [0]
  | compressed labels place _ => encode labels ++ beBytes16 (0xC000 ||| place)

/-- Labels of one to 63 bytes, in a name of at most 255. -/
structure Legal (labels : List Bytes) : Prop where
  label : ∀ label ∈ labels, 1 ≤ label.length ∧ label.length ≤ 63
  length : (encode labels).length + 1 ≤ 255

/-- The memory holds the bytes from an index on. -/
def Holds (dns : Nat → U8) (i : Nat) (bytes : Bytes) : Prop :=
  (List.range' i bytes.length).map dns = bytes

instance (dns : Nat → U8) (i : Nat) (bytes : Bytes) : Decidable (Holds dns i bytes) :=
  inferInstanceAs (Decidable (_ = _))

def WrittenAt (dns : Nat → U8) (datalen i : Nat) (bytes : Bytes) : Prop :=
  Holds dns i bytes ∧ i + bytes.length ≤ datalen

instance (dns : Nat → U8) (datalen i : Nat) (bytes : Bytes) :
    Decidable (WrittenAt dns datalen i bytes) := inferInstanceAs (Decidable (_ ∧ _))

/-- A pointer has 14 bits and leads to an earlier place, where the suffix is written. -/
def DomainName.PointsBack (dns : Nat → U8) (datalen : Nat) (off : U16) : DomainName → Prop
  | plain _ => True
  | compressed _ place suffix =>
      place.toNat < 2 ^ 14 ∧ place < off ∧ WrittenAt dns datalen place.toNat (encode suffix ++ [0])

/-- A legal name is written at an offset, wholly inside the message. -/
structure DomainName.Written (dns : Nat → U8) (datalen : Nat) (off : U16) (name : DomainName) :
    Prop where
  legal : Legal name.labels
  wire : WrittenAt dns datalen off.toNat name.wire
  pointsBack : name.PointsBack dns datalen off

/-- Whatever the array of the caller held, the text of the name is in it, and a zero behind it; and
    the offset returned is the one behind the name. -/
structure Decodes (dns : Nat → U8) (datalen : Nat) (off : U16) (name : DomainName) : Prop where
  text (out : Bytes) : out.length = NAME_SIZE →
    text name.labels ++ [0] <+: store out (getNameNotation dns datalen off NAME_SIZE).stores
  next : (getNameNotation dns datalen off NAME_SIZE).next.toNat = off.toNat + name.wire.length

variable {dns : Nat → U8} {datalen i : Nat} {a b label : Bytes} {labels : List Bytes}

theorem length_wire_plain (labels : List Bytes) :
    (DomainName.plain labels).wire.length = (encode labels).length + 1 :=
  List.length_append

theorem length_wire_compressed (labels : List Bytes) (place : U16) (suffix : List Bytes) :
    (DomainName.compressed labels place suffix).wire.length = (encode labels).length + 2 :=
  List.length_append

/-! ## Bytes in memory -/

theorem holds_append : Holds dns i (a ++ b) ↔ Holds dns i a ∧ Holds dns (i + a.length) b := by
  unfold Holds
  rw [List.length_append, ← List.range'_append_1, List.map_append]
  constructor
  · intro h
    apply List.append_inj h
    rw [List.length_map, List.length_range']
  · rintro ⟨ha, hb⟩
    rw [ha, hb]

theorem holds_cons {x : U8} : Holds dns i (x :: b) ↔ dns i = x ∧ Holds dns (i + 1) b := by
  unfold Holds
  rw [List.length_cons, List.range'_succ, List.map_cons, List.cons.injEq]

/-! ## Labels -/

theorem encode_cons (hlabel : label.length ≤ 63) :
    encode (label :: labels) = BitVec.ofNat 8 label.length :: (label ++ encode labels) := by
  have hwhole : label.take (lengthByte label).toNat = label := take_lengthByte_eq_iff.mpr (by omega)
  unfold encode
  rw [List.flatMap_cons, lengthPrefixed, hwhole]
  rfl

theorem dotted_cons (label : Bytes) (labels : List Bytes) :
    dotted (label :: labels) = label ++ [0x2E] ++ dotted labels :=
  List.flatMap_cons

theorem encode_append (labels labels' : List Bytes) :
    encode (labels ++ labels') = encode labels ++ encode labels' :=
  List.flatMap_append

theorem dotted_append (labels labels' : List Bytes) :
    dotted (labels ++ labels') = dotted labels ++ dotted labels' :=
  List.flatMap_append

-- What is written of some labels, cut behind the first ones.
theorem encode_split (n : Nat) (labels : List Bytes) :
    encode labels = encode (labels.take n) ++ encode (labels.drop n) := by
  rw [← encode_append, List.take_append_drop]

theorem dotted_singleton (label : Bytes) : dotted [label] = label ++ [0x2E] := by
  rw [dotted_cons]
  exact List.append_nil _

theorem length_encode_singleton (hlabel : label.length ≤ 63) :
    (encode [label]).length = label.length + 1 := by
  rw [encode_cons hlabel, List.length_cons, List.length_append]
  rfl

theorem Legal.left {labels' : List Bytes} (h : Legal (labels ++ labels')) : Legal labels where
  label label hlabel := h.label label (List.mem_append_left _ hlabel)
  length := by
    have hlength := h.length
    rw [encode_append, List.length_append] at hlength
    omega

-- What is written of a name is as long as what is spelled.
theorem length_encode (h : ∀ label ∈ labels, 1 ≤ label.length ∧ label.length ≤ 63) :
    (encode labels).length = (dotted labels).length := by
  induction labels with
  | nil => rfl
  | cons label labels ih =>
    obtain ⟨hlabel, hrest⟩ := List.forall_mem_cons.mp h
    rw [encode_cons hlabel.2, dotted_cons, List.length_cons, List.length_append, List.length_append,
      List.length_append, ih hrest, List.length_singleton]
    omega

-- The last dot stands where the text ends.
theorem dotted_eq_text (hne : labels ≠ []) : dotted labels = text labels ++ [0x2E] := by
  induction labels with
  | nil => exact absurd rfl hne
  | cons label labels ih =>
    rw [dotted_cons]
    cases labels with
    | nil =>
      show label ++ [0x2E] ++ [] = text [label] ++ [0x2E]
      rw [List.append_nil]
      unfold text
      rw [List.intercalate_singleton]
    | cons label' labels =>
      rw [ih (List.cons_ne_nil _ _)]
      unfold text
      rw [List.intercalate_cons_cons, List.append_assoc, List.append_assoc, List.append_assoc]

/-! ## Rounds of the loop -/

structure Spells (dns : Nat → U8) (labels : List Bytes) (s s' : Locals) : Prop where
  ptr : s'.ptr.toNat = s.ptr.toNat + (encode labels).length
  len : s'.len = dns s'.ptr.toNat
  rlen : s'.rlen.toNat = s.rlen.toNat + (dotted labels).length
  stores : s'.stores = s.stores ++ (dotted labels).zipIdx s.rlen.toNat
  c : s'.c = s.c
  /-- `off` has come one byte further than the place of the loop. -/
  off : s'.off = if s.c = true ∨ labels = [] then s.off else s'.ptr + 1

theorem Spells.refl {s : Locals} (hlen : s.len = dns s.ptr.toNat) : Spells dns [] s s where
  ptr := rfl
  len := hlen
  rlen := rfl
  stores := (List.append_nil _).symm
  c := rfl
  off := (if_pos (.inr rfl)).symm

theorem Spells.cons {s s' s'' : Locals} (h : Spells dns [label] s s')
    (hrest : Spells dns labels s' s'') : Spells dns (label :: labels) s s'' where
  ptr := by
    show _ = _ + (encode ([label] ++ labels)).length
    rw [hrest.ptr, h.ptr, encode_append, List.length_append, Nat.add_assoc]
  len := hrest.len
  rlen := by
    show _ = _ + (dotted ([label] ++ labels)).length
    rw [hrest.rlen, h.rlen, dotted_append, List.length_append, Nat.add_assoc]
  stores := by
    show _ = _ ++ (dotted ([label] ++ labels)).zipIdx _
    rw [hrest.stores, h.stores, h.rlen, dotted_append, List.zipIdx_append, List.append_assoc]
  c := hrest.c.trans h.c
  off := by
    have hone : ¬ [label] = [] := List.cons_ne_nil _ _
    have hall : ¬ (label :: labels) = [] := List.cons_ne_nil _ _
    rw [hrest.off, h.c, h.off]
    simp only [hone, hall, or_false]
    by_cases hc : s.c = true
    · simp only [hc, true_or, ↓reduceIte]
    · simp only [hc, false_or, ↓reduceIte, Bool.false_eq_true]
      by_cases hnil : labels = []
      · have hsame : s''.ptr = s'.ptr := by
          apply BitVec.eq_of_toNat_eq
          rw [hrest.ptr, hnil]
          rfl
        rw [if_pos hnil, hsame]
      · rw [if_neg hnil]

-- A round spells the label at its place.
theorem round_label {s : Locals} (hlen : s.len = dns s.ptr.toNat)
    (hlabel : 1 ≤ label.length ∧ label.length ≤ 63)
    (hheld : Holds dns s.ptr.toNat (BitVec.ofNat 8 label.length :: label))
    (hfits : s.ptr.toNat + 1 + label.length < datalen)
    (hplace : s.ptr.toNat + 1 + label.length < 2 ^ 16)
    (hroom : s.rlen.toNat + label.length + 1 < NAME_SIZE) :
    s.len ≠ 0 ∧ ∃ s', round dns datalen NAME_SIZE s = some s' ∧ Spells dns [label] s s' := by
  obtain ⟨hfirst, hletters⟩ := holds_cons.mp hheld
  have hsize : NAME_SIZE = 255 := rfl
  have hcount : s.len = BitVec.ofNat 8 label.length := hlen.trans hfirst
  have hnat : s.len.toNat = label.length := by
    rw [hcount, BitVec.toNat_ofNat]
    omega
  have hne : s.len ≠ 0 := by
    intro hzero
    rw [hzero] at hnat
    have hpos : 0 < (0 : U8).toNat := by omega
    exact absurd hpos (by decide)
  have hplain : ¬ s.len &&& 0xC0 ≠ 0 := by
    have hsmall : ∀ n < 64, BitVec.ofNat 8 n &&& 0xC0 = 0 := by decide
    rw [hcount, hsmall label.length (by omega)]
    exact not_not.mpr rfl
  have hptr : (s.ptr + (s.len.setWidth 16 + 1)).toNat = s.ptr.toNat + (label.length + 1) := by
    rw [BitVec.toNat_add, BitVec.toNat_add, BitVec.toNat_setWidth, hnat]
    show (s.ptr.toNat + (label.length % 2 ^ 16 + 1) % 2 ^ 16) % 2 ^ 16 = _
    omega
  have hrlen : (s.rlen + (s.len + 1)).toNat = s.rlen.toNat + (label.length + 1) := by
    rw [BitVec.toNat_add, BitVec.toNat_add, hnat]
    show (s.rlen.toNat + (label.length + 1) % 2 ^ 8) % 2 ^ 8 = _
    omega
  have hdotted : dotted [label] = label ++ [0x2E] := dotted_singleton label
  have hkept : keptLength NAME_SIZE s.rlen s.len = label.length := by
    unfold keptLength
    rw [hnat, if_neg (by omega)]
  have hpiece : piece dns NAME_SIZE s.rlen s.ptr s.len = (dotted [label]).zipIdx s.rlen.toNat := by
    unfold piece
    dsimp only
    have hspelled : (List.range' (s.ptr.toNat + 1) label.length).map dns = label := hletters
    rw [hkept, if_pos (show 0 < label.length from hlabel.1), hdotted, hspelled]
  refine ⟨hne, ?_⟩
  unfold round
  rw [if_neg hplain, hnat, if_pos hfits]
  refine ⟨_, rfl, ?_⟩
  constructor
  · rw [length_encode_singleton hlabel.2]
    exact hptr
  · rfl
  · rw [hdotted, List.length_append]
    exact hrlen
  · exact congrArg (s.stores ++ ·) hpiece
  · rfl
  · have hone : ¬ [label] = [] := List.cons_ne_nil _ _
    simp only [hone, or_false]

-- As many rounds as there are labels spell them, whatever is written behind them.
theorem notationLoop_labels {s : Locals} {rest : Bytes} (loop : Nat)
    (hlen : s.len = dns s.ptr.toNat)
    (hlabels : ∀ label ∈ labels, 1 ≤ label.length ∧ label.length ≤ 63)
    (hheld : Holds dns s.ptr.toNat (encode labels ++ rest))
    (hfits : s.ptr.toNat + (encode labels).length < datalen)
    (hplace : s.ptr.toNat + (encode labels).length < 2 ^ 16)
    (hroom : s.rlen.toNat + (encode labels).length < NAME_SIZE) :
    ∃ s', notationLoop dns datalen NAME_SIZE (loop + labels.length) s =
      notationLoop dns datalen NAME_SIZE loop s' ∧ Spells dns labels s s' := by
  -- along the labels: what is left of them is written where the loop has come to
  induction labels generalizing s with
  | nil => exact ⟨s, rfl, .refl hlen⟩
  | cons label labels ih =>
    obtain ⟨hlabel, hrest⟩ := List.forall_mem_cons.mp hlabels
    have hencode : encode (label :: labels) =
        (BitVec.ofNat 8 label.length :: label) ++ encode labels := encode_cons hlabel.2
    have hcount : (encode (label :: labels)).length =
        label.length + 1 + (encode labels).length := by
      rw [hencode, List.length_append, List.length_cons]
    rw [hcount] at hfits hplace hroom
    rw [hencode, List.append_assoc] at hheld
    obtain ⟨hheld, hbehind⟩ := holds_append.mp hheld
    obtain ⟨hne, s', hround, hspells⟩ := @round_label dns datalen label s hlen hlabel hheld
      (by omega) (by omega) (by omega)
    have hptr := hspells.ptr
    have hrlen := hspells.rlen
    rw [length_encode_singleton hlabel.2] at hptr
    rw [dotted_singleton, List.length_append, List.length_singleton] at hrlen
    rw [List.length_cons, ← hptr] at hbehind
    obtain ⟨s'', hloop, hlater⟩ := ih hspells.len hrest hbehind (by omega) (by omega) (by omega)
    refine ⟨s'', ?_, hspells.cons hlater⟩
    rw [List.length_cons, ← Nat.add_assoc, notationLoop, if_neg hne, hround]
    exact hloop

-- The two bytes of a pointer are read as the place they were written for.
theorem target_pointer {place ptr : U16} (hplace : place.toNat < 2 ^ 14)
    (hheld : Holds dns ptr.toNat (beBytes16 (0xC000 ||| place))) :
    dns ptr.toNat &&& 0xC0 ≠ 0 ∧ target dns (dns ptr.toNat) ptr = place := by
  obtain ⟨hhigh, hrest⟩ := holds_cons.mp hheld
  obtain ⟨hlow, -⟩ := holds_cons.mp hrest
  have hbits (i : Nat) (hi : 14 ≤ i) : place.getLsbD i = false :=
    Nat.testBit_lt_two_pow (Nat.lt_of_lt_of_le hplace (Nat.pow_le_pow_right (by decide) hi))
  constructor
  · intro hzero
    have hbit := congrArg (fun x : U8 => x.getLsbD 7) hzero
    rw [hhigh] at hbit
    simp at hbit
  · unfold target
    rw [hhigh, hlow]
    apply BitVec.eq_of_getLsbD_eq
    intro i hi
    -- the two highest bits mark the pointer and are masked out
    by_cases hmark : 14 ≤ i
    · rw [hbits i hmark]
      interval_cases i <;> simp
    · interval_cases i <;> simp

-- The round for a pointer goes on at its place; `off` is moved behind it once.
theorem round_pointer {s : Locals} {place : U16} (hlen : s.len = dns s.ptr.toNat)
    (hplace : place.toNat < 2 ^ 14)
    (hheld : Holds dns s.ptr.toNat (beBytes16 (0xC000 ||| place))) (hc : s.c = false) :
    s.len ≠ 0 ∧ ∃ s', round dns datalen NAME_SIZE s = some s' ∧ s'.ptr = place ∧
      s'.len = dns place.toNat ∧ s'.c = true ∧ s'.rlen = s.rlen ∧ s'.stores = s.stores ∧
      s'.off = s.off + 2 := by
  obtain ⟨hpointer, htarget⟩ := target_pointer hplace hheld
  rw [← hlen] at hpointer htarget
  constructor
  · rintro hzero
    rw [hzero] at hpointer
    exact hpointer (by decide)
  · unfold round
    rw [if_pos hpointer]
    refine ⟨_, rfl, htarget, ?_, rfl, rfl, rfl, ?_⟩
    · exact congrArg (fun place : U16 => dns place.toNat) htarget
    · rw [hc]
      rfl

theorem notationLoop_end {s : Locals} (loop : Nat) (hlen : s.len = 0) :
    notationLoop dns datalen NAME_SIZE loop s = (s, loop) := by
  cases loop <;> rw [notationLoop, if_pos hlen]

def start (dns : Nat → U8) (off : U16) : Locals :=
  ⟨off, false, 0, off, dns off.toNat, [off.toNat], [(0, 0)]⟩

variable {off : U16}

-- A name that has been spelled to its end.
theorem getNameNotation_named {s : Locals} {loop : Nat}
    (h : notationLoop dns datalen NAME_SIZE 10 (start dns off) = (s, loop)) (hloop : loop ≠ 0)
    (hlen : s.len = 0) (hrlen : s.rlen ≠ 0) :
    getNameNotation dns datalen off NAME_SIZE =
      ⟨if s.c then s.off else s.ptr + 1, s.reads, s.stores ++ [(0, s.rlen.toNat - 1)]⟩ := by
  unfold start at h
  have hname : ¬ (s.len ≠ 0 ∨ s.rlen = 0) := fun hor => hor.elim (fun hne => hne hlen) hrlen
  unfold getNameNotation
  rw [h]
  dsimp only
  rw [if_neg hloop, if_neg hname]

-- A call that gives up.
theorem getNameNotation_stuck {s : Locals} {loop : Nat}
    (h : notationLoop dns datalen NAME_SIZE 10 (start dns off) = (s, loop))
    (hstuck : loop = 0 ∨ s.len ≠ 0 ∨ s.rlen = 0) :
    getNameNotation dns datalen off NAME_SIZE = ⟨s.off, s.reads, s.stores⟩ := by
  unfold start at h
  unfold getNameNotation
  rw [h]
  dsimp only
  by_cases hloop : loop = 0
  · rw [if_pos hloop]
  · rw [if_neg hloop, if_pos (hstuck.resolve_left hloop)]

/-! ## The call -/

-- What the loop does with the first labels at the place of a name, or with all of them.
theorem loop_labels {behind : Bytes} {n loop : Nat} (hcount : loop + n = 10)
    (hlegal : Legal labels) (hn : n ≤ labels.length)
    (hwritten : WrittenAt dns datalen off.toNat (encode labels ++ behind)) (hbehind : behind ≠ [])
    (hplace : off.toNat + (encode labels ++ behind).length < 2 ^ 16) :
    ∃ s, notationLoop dns datalen NAME_SIZE 10 (start dns off) =
        notationLoop dns datalen NAME_SIZE loop s ∧ Spells dns (labels.take n) (start dns off) s := by
  have hsize : NAME_SIZE = 255 := rfl
  have hpos := List.length_pos_iff.mpr hbehind
  have hlength := hlegal.length
  obtain ⟨hheld, hinside⟩ := hwritten
  rw [encode_split n labels, List.append_assoc] at hheld hinside hplace
  rw [encode_split n labels] at hlength
  simp only [List.length_append] at hinside hplace hlength
  have hrounds := @notationLoop_labels dns datalen (labels.take n) (start dns off) _ loop rfl
    (fun label hlabel => hlegal.label label (List.mem_of_mem_take hlabel)) hheld
  rw [List.length_take_of_le hn, hcount] at hrounds
  apply hrounds
  · show off.toNat + _ < datalen
    omega
  · show off.toNat + _ < 2 ^ 16
    omega
  · show 0 + _ < NAME_SIZE
    omega

-- What the loop has done when it has followed the pointer of a name and spelled labels behind it.
structure Jumps (dns : Nat → U8) (off : U16) (labels : List Bytes) (place : U16)
    (shown : List Bytes) (s : Locals) : Prop where
  ptr : s.ptr.toNat = place.toNat + (encode shown).length
  len : s.len = dns s.ptr.toNat
  c : s.c = true
  rlen : s.rlen.toNat = (dotted (labels ++ shown)).length
  stores : s.stores = (0, 0) :: (dotted (labels ++ shown)).zipIdx 0
  /-- Two bytes further than the loop, which is one byte ahead already if it has spelled a label. -/
  off : s.off.toNat =
    (off.toNat + (encode labels).length + if labels = [] then 2 else 3) % 2 ^ 16

-- The round for a pointer, behind the labels of the name itself.
theorem round_jump {place : U16} {s : Locals} (hspells : Spells dns labels (start dns off) s)
    (hsmall : place.toNat < 2 ^ 14)
    (hheld : Holds dns s.ptr.toNat (beBytes16 (0xC000 ||| place))) :
    s.len ≠ 0 ∧
      ∃ s', round dns datalen NAME_SIZE s = some s' ∧ Jumps dns off labels place [] s' := by
  obtain ⟨hne, s', hround, hptr, hlen, hc, hrlen, hstores, hoff⟩ :=
    @round_pointer dns datalen s place hspells.len hsmall hheld hspells.c
  refine ⟨hne, s', hround, ?_⟩
  constructor
  · rw [hptr]
    rfl
  · rw [hlen, hptr]
  · exact hc
  · rw [hrlen, hspells.rlen, List.append_nil]
    exact Nat.zero_add _
  · rw [hstores, hspells.stores, List.append_nil]
    rfl
  · have hfalse : ¬ (start dns off).c = true := Bool.false_ne_true
    have hat : s.ptr.toNat = off.toNat + (encode labels).length := hspells.ptr
    rw [hoff, hspells.off, BitVec.toNat_add]
    by_cases hnil : labels = []
    · rw [if_pos (.inr hnil), if_pos hnil, hnil]
      rfl
    · rw [if_neg (fun hor => hor.elim hfalse hnil), if_neg hnil, BitVec.toNat_add, hat]
      show ((off.toNat + (encode labels).length + 1) % 2 ^ 16 + 2) % 2 ^ 16 = _
      omega

-- Labels spelled behind the pointer; `off` stays where it is.
theorem Jumps.spells {place : U16} {shown shown' : List Bytes} {s s' : Locals}
    (h : Jumps dns off labels place shown s) (hspells : Spells dns shown' s s') :
    Jumps dns off labels place (shown ++ shown') s' where
  ptr := by rw [hspells.ptr, h.ptr, encode_append, List.length_append, Nat.add_assoc]
  len := hspells.len
  c := hspells.c.trans h.c
  rlen := by
    rw [hspells.rlen, h.rlen, ← List.append_assoc, dotted_append (labels ++ shown),
      List.length_append]
  stores := by
    rw [hspells.stores, h.stores, h.rlen, ← List.append_assoc, dotted_append (labels ++ shown),
      List.zipIdx_append, Nat.zero_add, List.cons_append]
  off := by rw [hspells.off, if_pos (.inl h.c), h.off]

theorem loop_compressed {place : U16} {suffix : List Bytes} {n loop : Nat}
    (hcount : loop + n + 1 + labels.length = 10) (hn : n ≤ suffix.length)
    (h : (DomainName.compressed labels place suffix).Written dns datalen off)
    (hplace : off.toNat + (DomainName.compressed labels place suffix).wire.length < 2 ^ 16) :
    ∃ s, notationLoop dns datalen NAME_SIZE 10 (start dns off) =
        notationLoop dns datalen NAME_SIZE loop s ∧ Jumps dns off labels place (suffix.take n) s := by
  have hsize : NAME_SIZE = 255 := rfl
  obtain ⟨hlegal, hwire, hsmall, -, hsuffix⟩ := h
  have hall : (DomainName.compressed labels place suffix).labels = labels ++ suffix := rfl
  rw [hall] at hlegal
  have hlength := hlegal.length
  rw [encode_append, List.length_append] at hlength
  -- the labels before the pointer
  obtain ⟨s, hloop, hspells⟩ := @loop_labels dns datalen labels off
    (beBytes16 (0xC000 ||| place)) labels.length (loop + n + 1) hcount hlegal.left (Nat.le_refl _)
    hwire (List.cons_ne_nil _ _) hplace
  rw [List.take_length] at hspells
  -- the pointer
  have hpointer : Holds dns s.ptr.toNat (beBytes16 (0xC000 ||| place)) := by
    rw [hspells.ptr]
    exact (holds_append.mp hwire.1).2
  obtain ⟨hne, s', hround, hjumps⟩ := @round_jump dns datalen labels off place s hspells hsmall
    hpointer
  have hptr : s'.ptr.toNat = place.toNat := hjumps.ptr
  have hrlen := hjumps.rlen
  rw [List.append_nil, ← length_encode hlegal.left.label] at hrlen
  -- the labels behind it
  obtain ⟨hheld, hinside⟩ := hsuffix
  rw [encode_split n suffix, List.append_assoc, ← hptr] at hheld
  rw [encode_split n suffix] at hlength hinside
  simp only [List.length_append, List.length_singleton] at hlength hinside
  have hshown : ∀ label ∈ suffix.take n, 1 ≤ label.length ∧ label.length ≤ 63 := by
    intro label hlabel
    exact hlegal.label label (List.mem_append_right _ (List.mem_of_mem_take hlabel))
  obtain ⟨s'', hloop', hspells'⟩ := @notationLoop_labels dns datalen (suffix.take n) s' _ loop
    hjumps.len hshown hheld (by omega) (by omega) (by omega)
  rw [List.length_take_of_le hn] at hloop'
  refine ⟨s'', ?_, hjumps.spells hspells'⟩
  rw [hloop, notationLoop, if_neg hne, hround]
  exact hloop'

/-! ## What stands in the array -/

theorem dotted_ne_nil (hne : labels ≠ []) : dotted labels ≠ [] := by
  rw [dotted_eq_text hne]
  exact List.append_ne_nil_of_right_ne_nil _ (List.cons_ne_nil _ _)

-- Nothing has been spelled but of no labels.
theorem rlen_eq_zero_iff {s : Locals} (h : s.rlen.toNat = (dotted labels).length) :
    s.rlen = 0 ↔ labels = [] := by
  constructor
  · intro hzero
    rw [hzero] at h
    by_contra hne
    exact dotted_ne_nil hne (List.eq_nil_of_length_eq_zero h.symm)
  · rintro rfl
    exact BitVec.eq_of_toNat_eq h

-- The letters and dots, as long as nothing ends them.
theorem store_dotted {out : Bytes} (hne : labels ≠ []) (hroom : (dotted labels).length ≤ out.length) :
    store out ((0, 0) :: (dotted labels).zipIdx 0) =
      dotted labels ++ out.drop (dotted labels).length := by
  have hpos := List.length_pos_iff.mpr (dotted_ne_nil hne)
  show store (out.set 0 0) ((dotted labels).zipIdx 0) = _
  rw [store_zipIdx (by rw [List.length_set]; omega), List.take_zero, List.nil_append, Nat.zero_add,
    List.drop_set_of_lt hpos]

-- The zero takes the place of the last dot.
theorem store_text {out : Bytes} (hne : labels ≠ []) (hroom : (dotted labels).length ≤ out.length) :
    store out ((0, 0) :: (dotted labels).zipIdx 0 ++ [(0, (dotted labels).length - 1)]) =
      text labels ++ [0] ++ out.drop (dotted labels).length := by
  rw [store_append, store_dotted hne hroom]
  generalize out.drop (dotted labels).length = behind
  rw [dotted_eq_text hne, List.length_append, List.length_singleton, Nat.add_sub_cancel]
  show (text labels ++ [0x2E] ++ behind).set (text labels).length 0 = _
  rw [List.append_assoc, List.append_assoc,
    List.set_append_right (text labels).length 0 (Nat.le_refl _), Nat.sub_self]
  rfl

-- Spelled labels without a zero behind them are not the text of a name they begin.
theorem not_text_of_dotted {shown : List Bytes} (hshown : shown <+: labels) (hne : shown ≠ [])
    (n : Nat) : ¬ text labels ++ [0] <+: dotted shown ++ List.replicate n 1 := by
  intro hprefix
  have hall : labels ≠ [] := by
    rintro rfl
    exact hne (List.prefix_nil.mp hshown)
  obtain ⟨behind, hbehind⟩ := hprefix
  have hzero : (dotted shown ++ List.replicate n 1)[(text labels).length]? = some 0 := by
    rw [← hbehind, List.append_assoc, List.getElem?_append_right (Nat.le_refl _), Nat.sub_self]
    rfl
  have hdot : (dotted labels)[(text labels).length]? = some 0x2E := by
    rw [dotted_eq_text hall, List.getElem?_append_right (Nat.le_refl _), Nat.sub_self]
    rfl
  by_cases hlt : (text labels).length < (dotted shown).length
  · -- the zero would stand where the last dot does
    obtain ⟨rest, rfl⟩ := hshown
    rw [List.getElem?_append_left hlt] at hzero
    rw [dotted_append, List.getElem?_append_left hlt, hzero] at hdot
    exact absurd (Option.some.inj hdot) (by decide)
  · rw [List.getElem?_append_right (Nat.le_of_not_lt hlt)] at hzero
    have hmem := List.mem_of_getElem? hzero
    exact absurd (List.eq_of_mem_replicate hmem) (by decide)

/-! ## Which names are decoded -/

def DomainName.Short : DomainName → Prop
  | plain labels => 1 ≤ labels.length ∧ labels.length ≤ 9
  | compressed labels _ suffix => labels = [] ∧ suffix.length ≤ 8

instance : (name : DomainName) → Decidable name.Short
  | .plain _ => inferInstanceAs (Decidable (_ ∧ _))
  | .compressed _ _ _ => inferInstanceAs (Decidable (_ ∧ _))

-- A call that comes to an end with the right text and offset.
theorem Decodes.of_named {name : DomainName} {s : Locals} {loop : Nat} (hlegal : Legal name.labels)
    (h : notationLoop dns datalen NAME_SIZE 10 (start dns off) = (s, loop)) (hloop : loop ≠ 0)
    (hlen : s.len = 0) (hne : name.labels ≠ [])
    (hrlen : s.rlen.toNat = (dotted name.labels).length)
    (hstores : s.stores = (0, 0) :: (dotted name.labels).zipIdx 0)
    (hnext : (if s.c then s.off else s.ptr + 1).toNat = off.toNat + name.wire.length) :
    Decodes dns datalen off name := by
  have hspelled : s.rlen ≠ 0 := fun hzero => hne ((rlen_eq_zero_iff hrlen).mp hzero)
  have hcall := getNameNotation_named h hloop hlen hspelled
  have hlength := hlegal.length
  rw [length_encode hlegal.label] at hlength
  constructor
  · intro out hout
    have hroom : (dotted name.labels).length ≤ out.length := by
      rw [hout]
      exact Nat.le_of_succ_le hlength
    rw [hcall, hrlen, hstores, store_text hne hroom]
    exact List.prefix_append _ _
  · rw [hcall]
    exact hnext

-- A call that gives up while it spells labels leaves them without an end.
theorem not_decodes_of_stuck {name : DomainName} {s : Locals} {loop : Nat} {shown : List Bytes}
    (hlegal : Legal name.labels)
    (h : notationLoop dns datalen NAME_SIZE 10 (start dns off) = (s, loop))
    (hstuck : loop = 0 ∨ s.len ≠ 0) (hshown : shown <+: name.labels) (hne : shown ≠ [])
    (hstores : s.stores = (0, 0) :: (dotted shown).zipIdx 0) : ¬ Decodes dns datalen off name := by
  intro hdecodes
  have hcall := getNameNotation_stuck h (hstuck.imp_right .inl)
  have hlength := hlegal.length
  rw [length_encode hlegal.label] at hlength
  have htext := hdecodes.text (List.replicate NAME_SIZE 1) List.length_replicate
  have hroom : (dotted shown).length ≤ (List.replicate NAME_SIZE (1 : U8)).length := by
    obtain ⟨rest, hrest⟩ := hshown
    rw [← hrest, dotted_append, List.length_append] at hlength
    have hsize : NAME_SIZE = 255 := rfl
    rw [List.length_replicate]
    omega
  rw [hcall, hstores, store_dotted hne hroom, List.drop_replicate] at htext
  exact not_text_of_dotted hshown hne _ htext

-- The loop has come to the empty label, or has no rounds left.
theorem loop_stuck {s : Locals} (h : notationLoop dns datalen NAME_SIZE 10 (start dns off) =
    notationLoop dns datalen NAME_SIZE 0 s) :
    ∃ loop, notationLoop dns datalen NAME_SIZE 10 (start dns off) = (s, loop) ∧
      (loop = 0 ∨ s.len ≠ 0) := by
  rw [h, notationLoop]
  split
  · exact ⟨0, rfl, .inl rfl⟩
  next hne => exact ⟨255, rfl, .inr hne⟩

-- The empty label behind the labels.
theorem holds_end {i j : Nat} (hheld : Holds dns i (encode labels ++ [0]))
    (hj : j = i + (encode labels).length) : dns j = 0 := by
  rw [hj]
  exact (holds_cons.mp (holds_append.mp hheld).2).1

-- Ten labels before the end, or before a pointer, take all the rounds.
theorem not_decodes_of_ten {name : DomainName} {behind : Bytes} (hlegal : Legal name.labels)
    (hown : labels <+: name.labels) (hlong : 10 ≤ labels.length)
    (hwritten : WrittenAt dns datalen off.toNat (encode labels ++ behind)) (hbehind : behind ≠ [])
    (hplace : off.toNat + (encode labels ++ behind).length < 2 ^ 16) :
    ¬ Decodes dns datalen off name := by
  have hfirst : Legal labels := by
    obtain ⟨rest, hrest⟩ := hown
    rw [← hrest] at hlegal
    exact hlegal.left
  obtain ⟨s, hloop, hspells⟩ :=
    @loop_labels dns datalen labels off behind 10 0 rfl hfirst hlong hwritten hbehind hplace
  obtain ⟨loop, hstop, hstuck⟩ := loop_stuck hloop
  have hne : labels.take 10 ≠ [] := by
    apply List.ne_nil_of_length_pos
    rw [List.length_take_of_le hlong]
    exact Nat.zero_lt_succ _
  have hshown : labels.take 10 <+: name.labels := (List.take_prefix 10 labels).trans hown
  exact not_decodes_of_stuck hlegal hstop hstuck hshown hne hspells.stores

theorem decodes_plain_iff (h : (DomainName.plain labels).Written dns datalen off)
    (hplace : off.toNat + (DomainName.plain labels).wire.length < 2 ^ 16) :
    Decodes dns datalen off (.plain labels) ↔ (DomainName.plain labels).Short := by
  have hlegal : Legal labels := h.legal
  have hwire : WrittenAt dns datalen off.toNat (encode labels ++ [0]) := h.wire
  have hspace := length_wire_plain labels
  by_cases hlong : labels.length < 10
  · obtain ⟨s, hloop, hspells⟩ := @loop_labels dns datalen labels off [0] labels.length
      (10 - labels.length) (by omega) hlegal (Nat.le_refl _) hwire (List.cons_ne_nil _ _) hplace
    rw [List.take_length] at hspells
    have hlen : s.len = 0 := hspells.len.trans (holds_end hwire.1 hspells.ptr)
    have hrlen : s.rlen.toNat = (dotted labels).length := hspells.rlen.trans (Nat.zero_add _)
    rw [notationLoop_end _ hlen] at hloop
    have hsteps : 10 - labels.length ≠ 0 := by omega
    by_cases hnil : labels = []
    · -- the root alone: the call returns where it has started
      have hnone : ¬ (DomainName.plain labels).Short := by
        rintro ⟨hpos, -⟩
        rw [hnil] at hpos
        exact absurd hpos (by decide)
      have hcall := getNameNotation_stuck hloop (.inr (.inr ((rlen_eq_zero_iff hrlen).mpr hnil)))
      apply iff_of_false _ hnone
      intro hdecodes
      have hnext := hdecodes.next
      rw [hcall, hspells.off, if_pos (.inr hnil), hspace] at hnext
      have hsame : off.toNat = off.toNat + ((encode labels).length + 1) := hnext
      omega
    · have hpos := List.length_pos_iff.mpr hnil
      apply iff_of_true _ ⟨hpos, by omega⟩
      apply Decodes.of_named h.legal hloop hsteps hlen hnil hrlen hspells.stores
      · rw [hspells.c, hspace]
        show (s.ptr + 1).toNat = _
        rw [BitVec.toNat_add, hspells.ptr]
        show (off.toNat + (encode labels).length + 1) % 2 ^ 16 = _
        rw [hspace] at hplace
        omega
  · have hnone : ¬ (DomainName.plain labels).Short := fun hshort => hlong (Nat.lt_succ_of_le hshort.2)
    apply iff_of_false _ hnone
    exact not_decodes_of_ten h.legal (List.prefix_refl _) (Nat.le_of_not_lt hlong) hwire
      (List.cons_ne_nil _ _) hplace

section Compressed

variable {place : U16} {suffix : List Bytes}
  (h : (DomainName.compressed labels place suffix).Written dns datalen off)
  (hplace : off.toNat + (DomainName.compressed labels place suffix).wire.length < 2 ^ 16)

include h hplace

-- The loop comes to the end of a name of at most nine steps, the pointer being one.
theorem loop_compressed_end (hsteps : labels.length + 1 + suffix.length < 10) :
    ∃ s loop, notationLoop dns datalen NAME_SIZE 10 (start dns off) = (s, loop) ∧ loop ≠ 0 ∧
      s.len = 0 ∧ Jumps dns off labels place suffix s := by
  obtain ⟨s, hloop, hjumps⟩ := @loop_compressed dns datalen labels off place suffix
    suffix.length (10 - (labels.length + 1 + suffix.length)) (by omega) (Nat.le_refl _) h hplace
  rw [List.take_length] at hjumps
  have hlen : s.len = 0 := hjumps.len.trans (holds_end h.pointsBack.2.2.1 hjumps.ptr)
  rw [notationLoop_end _ hlen] at hloop
  exact ⟨s, _, hloop, by omega, hlen, hjumps⟩

-- Nothing but a pointer.
theorem decodes_pointer (hnil : labels = []) (hshort : suffix.length ≤ 8) :
    Decodes dns datalen off (.compressed labels place suffix) := by
  have hown : labels.length = 0 := List.length_eq_zero_iff.mpr hnil
  obtain ⟨s, loop, hloop, hleft, hlen, hjumps⟩ := loop_compressed_end h hplace (by omega)
  have hspace := length_wire_compressed labels place suffix
  have hempty : (encode labels).length = 0 := by
    rw [hnil]
    rfl
  have hoff := hjumps.off
  rw [if_pos hnil] at hoff
  have hnext : s.off.toNat =
      off.toNat + (DomainName.compressed labels place suffix).wire.length := by omega
  by_cases hroot : suffix = []
  · -- a pointer to the root: nothing is spelled, and the array begins with a zero
    have hnone : labels ++ suffix = [] := by
      rw [hnil, hroot]
      rfl
    have hrlen : s.rlen = 0 := (rlen_eq_zero_iff hjumps.rlen).mpr hnone
    have hcall := getNameNotation_stuck hloop (.inr (.inr hrlen))
    constructor
    · intro out hout
      have hpos : 0 < out.length := by
        rw [hout]
        exact Nat.zero_lt_succ _
      obtain ⟨b, out, rfl⟩ := List.exists_cons_of_length_pos hpos
      rw [hcall, hjumps.stores, hnone]
      show text (labels ++ suffix) ++ [0] <+: 0 :: out
      rw [hnone]
      exact ⟨out, rfl⟩
    · rw [hcall]
      exact hnext
  · have hne : labels ++ suffix ≠ [] := List.append_ne_nil_of_right_ne_nil _ hroot
    apply Decodes.of_named h.legal hloop hleft hlen hne hjumps.rlen hjumps.stores
    rw [hjumps.c]
    exact hnext

-- Labels before the pointer: the offset returned is one too large.
theorem not_decodes_behind (hne : labels ≠ [])
    (hsteps : labels.length + 1 + suffix.length < 10) :
    ¬ Decodes dns datalen off (.compressed labels place suffix) := by
  obtain ⟨s, loop, hloop, hleft, hlen, hjumps⟩ := loop_compressed_end h hplace hsteps
  have hspace := length_wire_compressed labels place suffix
  have hall : labels ++ suffix ≠ [] := List.append_ne_nil_of_left_ne_nil hne _
  have hrlen : s.rlen ≠ 0 := fun hzero => hall ((rlen_eq_zero_iff hjumps.rlen).mp hzero)
  have hcall := getNameNotation_named hloop hleft hlen hrlen
  have hoff := hjumps.off
  rw [if_neg hne] at hoff
  rw [hspace] at hplace
  intro hdecodes
  have hnext := hdecodes.next
  rw [hcall, hjumps.c, hspace] at hnext
  have hreturned : s.off.toNat = off.toNat + ((encode labels).length + 2) := hnext
  omega

-- Ten steps are too many, wherever the pointer is among them.
theorem not_decodes_long (hsteps : 10 ≤ labels.length + 1 + suffix.length) :
    ¬ Decodes dns datalen off (.compressed labels place suffix) := by
  have hlegal : Legal (labels ++ suffix) := h.legal
  by_cases hlong : labels.length < 10
  · obtain ⟨s, hloop, hjumps⟩ := @loop_compressed dns datalen labels off place suffix
      (9 - labels.length) 0 (by omega) (by omega) h hplace
    obtain ⟨loop, hstop, hstuck⟩ := loop_stuck hloop
    have hshown : labels ++ suffix.take (9 - labels.length) <+: labels ++ suffix :=
      (List.prefix_append_right_inj labels).mpr (List.take_prefix _ _)
    have hne : labels ++ suffix.take (9 - labels.length) ≠ [] := by
      apply List.ne_nil_of_length_pos
      rw [List.length_append, List.length_take]
      omega
    exact not_decodes_of_stuck hlegal hstop hstuck hshown hne hjumps.stores
  · exact not_decodes_of_ten h.legal (List.prefix_append labels suffix) (Nat.le_of_not_lt hlong)
      h.wire (List.cons_ne_nil _ _) hplace

theorem decodes_compressed_iff : Decodes dns datalen off (.compressed labels place suffix) ↔
    (DomainName.compressed labels place suffix).Short := by
  constructor
  · intro hdecodes
    have hsteps : labels.length + 1 + suffix.length < 10 :=
      Nat.lt_of_not_le fun hlong => not_decodes_long h hplace hlong hdecodes
    have hnil : labels = [] := by
      by_contra hne
      exact not_decodes_behind h hplace hne hsteps hdecodes
    exact ⟨hnil, by omega⟩
  · exact fun hshort => decodes_pointer h hplace hshort.1 hshort.2

end Compressed

/-- A name is decoded exactly if the offset behind it is a number of 16 bits and the name is a plain
    one of one to nine labels, or nothing but a pointer to at most eight. -/
theorem decodes_iff {name : DomainName} (h : name.Written dns datalen off) :
    Decodes dns datalen off name ↔ off.toNat + name.wire.length < 2 ^ 16 ∧ name.Short := by
  by_cases hplace : off.toNat + name.wire.length < 2 ^ 16
  · rw [and_iff_right hplace]
    cases name with
    | plain labels => exact decodes_plain_iff h hplace
    | compressed labels place suffix => exact decodes_compressed_iff h hplace
  · apply iff_of_false
    · intro hdecodes
      have hlt := (getNameNotation dns datalen off NAME_SIZE).next.isLt
      rw [hdecodes.next] at hlt
      exact hplace hlt
    · exact fun hboth => hplace hboth.1

-- The name "a", and a pointer to it.
def pointerOnly : Nat → U8 := byteAt [0x01, 0x61, 0x00, 0xC0, 0x00]

theorem decodes_pointerOnly : Decodes pointerOnly 5 3 (.compressed [] 0 [[0x61]]) := by
  have hwritten : (DomainName.compressed [] 0 [[0x61]]).Written pointerOnly 5 3 :=
    ⟨⟨by decide, by decide⟩, by decide, by decide, by decide, by decide⟩
  exact (decodes_iff hwritten).mpr ⟨by decide, by decide⟩

-- The names "a" and "b.a", the second with a pointer to the first.
def labelAndPointer : Nat → U8 := byteAt [0x01, 0x61, 0x00, 0x01, 0x62, 0xC0, 0x00]

/-- The name ends with the message at 7, and 8 is returned. -/
theorem not_decodes_labelAndPointer :
    (DomainName.compressed [[0x62]] 0 [[0x61]]).Written labelAndPointer 7 3 ∧
      (getNameNotation labelAndPointer 7 3 NAME_SIZE).next = 8 ∧
      ¬ Decodes labelAndPointer 7 3 (.compressed [[0x62]] 0 [[0x61]]) := by
  have hnext : (getNameNotation labelAndPointer 7 3 NAME_SIZE).next = 8 := by decide
  refine ⟨⟨⟨by decide, by decide⟩, by decide, by decide, by decide, by decide⟩, hnext, ?_⟩
  intro h
  have hbehind := h.next
  rw [hnext] at hbehind
  exact absurd hbehind (by decide)

end NetCore.Dns
