import NetCore.IPAdpt.Header
import NetCore.Lib.OnesComplement

/-!
# Checksums

`computeChecksum` adds the words of a buffer in 32 bits and folds the sum at the end, which is the sum
in one's complement as long as the 32 bits suffice.  So pieces may be summed one after the other if
all but the last have whole words, and a buffer that carries the complement of its own sum, taken
with zeros in its place, sums to `0xFFFF`.
-/

namespace NetCore

open Lib (residue addCarry foldRound)

/-- The 16-bit words of a buffer as the machine reads them; an odd last byte is a word. -/
def words : Bytes → List Nat
  | [] => []
  | [b] => [b.toNat]
  | lo :: hi :: rest => (hi ++ lo).toNat :: words rest

def onesSum (buffer : Bytes) : Nat := (words buffer).foldl (addCarry 0xFFFF) 0

def AccumulatorFits (start : U16) (buffer : Bytes) : Prop :=
  start.toNat + (words buffer).sum < 2 ^ 32

theorem words_le (buffer : Bytes) : ∀ w ∈ words buffer, w ≤ 0xFFFF := by
  induction buffer using words.induct with
  | case1 => exact List.forall_mem_nil _
  | case2 b =>
    have hb := b.isLt
    rw [words, List.forall_mem_singleton]
    omega
  | case3 lo hi rest ih =>
    have hword := (hi ++ lo).isLt
    rw [words, List.forall_mem_cons]
    exact ⟨by omega, ih⟩

theorem sum_words_le (buffer : Bytes) : (words buffer).sum ≤ 0xFFFF * ((buffer.length + 1) / 2) := by
  induction buffer using words.induct with
  | case1 => exact Nat.zero_le _
  | case2 b =>
    have hb := b.isLt
    rw [words, List.sum_singleton, List.length_singleton]
    omega
  | case3 lo hi rest ih =>
    have hword := (hi ++ lo).isLt
    rw [words, List.sum_cons, List.length_cons, List.length_cons]
    omega

-- Buffers of packets are far too short for an overflow.
theorem accumulatorFits_of_length {buffer : Bytes} (h : buffer.length ≤ 0x1FFFE) (start : U16) :
    AccumulatorFits start buffer := by
  have hsum := sum_words_le buffer
  have hstart := start.isLt
  unfold AccumulatorFits
  omega

theorem words_append {x : Bytes} (hx : x.length % 2 = 0) (y : Bytes) :
    words (x ++ y) = words x ++ words y := by
  induction x using words.induct with
  | case1 => rfl
  | case2 b => cases hx
  | case3 lo hi rest ih =>
    rw [List.length_cons, List.length_cons] at hx
    rw [List.cons_append, List.cons_append, words, words, ih (by omega), List.cons_append]

theorem words_leBytes16 (x : U16) : words (leBytes16 x) = [x.toNat] := by
  show [((x >>> 8).setWidth 8 ++ x.setWidth 8).toNat] = _
  rw [beBytes16_append]

theorem onesSum_eq (buffer : Bytes) : onesSum buffer = residue 0xFFFF (words buffer).sum := by
  rw [onesSum, Lib.foldl_addCarry (by decide) (Nat.zero_le _) (words_le buffer), Nat.zero_add]

/-! ## What the code computes -/

variable {start : U16} {x y buffer : Bytes}

theorem sumWords_toNat {sum : U32} (h : sum.toNat + (words buffer).sum < 2 ^ 32) :
    (sumWords sum buffer).toNat = sum.toNat + (words buffer).sum := by
  induction buffer using words.induct generalizing sum with
  | case1 => rfl
  | case2 b =>
    rw [words, List.sum_singleton] at h
    rw [sumWords, words, List.sum_singleton, BitVec.toNat_add,
      BitVec.toNat_setWidth_of_le (by decide), Nat.mod_eq_of_lt h]
  | case3 lo hi rest ih =>
    rw [words, List.sum_cons] at h
    have hstep : (sum + (hi ++ lo).setWidth 32).toNat = sum.toNat + (hi ++ lo).toNat := by
      rw [BitVec.toNat_add, BitVec.toNat_setWidth_of_le (by decide), Nat.mod_eq_of_lt (by omega)]
    rw [sumWords, ih (by omega), hstep, words, List.sum_cons, Nat.add_assoc]

theorem foldCarry_eq (sum : U32) : (foldCarry sum).toNat = foldRound 0xFFFF sum.toNat :=
  foldCarry_toNat sum

-- Without an overflow `computeChecksum` is the sum in one's complement.
theorem computeChecksum_toNat (h : AccumulatorFits start buffer) :
    (computeChecksum start buffer).toNat = residue 0xFFFF (start.toNat + (words buffer).sum) := by
  have hwide : (start.setWidth 32).toNat = start.toNat := BitVec.toNat_setWidth_of_le (by decide)
  have hsum : (sumWords (start.setWidth 32) buffer).toNat = start.toNat + (words buffer).sum := by
    rw [sumWords_toNat (by rw [hwide]; exact h), hwide]
  have htwice := foldCarry_twice (sumWords (start.setWidth 32) buffer)
  rw [computeChecksum, BitVec.toNat_setWidth, Nat.mod_eq_of_lt htwice,
    ← Lib.residue_of_le (Nat.le_of_lt_succ htwice), foldCarry_eq, Lib.residue_foldRound (by decide),
    foldCarry_eq, Lib.residue_foldRound (by decide), hsum]

-- Two pieces in turn, the first of whole words.
theorem computeChecksum_append (hx : x.length % 2 = 0) (h : AccumulatorFits start (x ++ y)) :
    AccumulatorFits (computeChecksum start x) y ∧
      computeChecksum (computeChecksum start x) y = computeChecksum start (x ++ y) := by
  have hsum : (words (x ++ y)).sum = (words x).sum + (words y).sum := by
    rw [words_append hx, List.sum_append]
  have hwhole : start.toNat + (words (x ++ y)).sum < 2 ^ 32 := h
  have hfirst : AccumulatorFits start x := by
    show start.toNat + (words x).sum < 2 ^ 32
    omega
  have hle := @Lib.residue_le_self 0xFFFF (start.toNat + (words x).sum)
  have hsecond : AccumulatorFits (computeChecksum start x) y := by
    show (computeChecksum start x).toNat + (words y).sum < 2 ^ 32
    rw [computeChecksum_toNat hfirst]
    omega
  refine ⟨hsecond, BitVec.eq_of_toNat_eq ?_⟩
  rw [computeChecksum_toNat hsecond, computeChecksum_toNat hfirst, computeChecksum_toNat h,
    Lib.residue_add (by decide), hsum, Nat.add_assoc]

/-- Summing pieces in turn is summing them at once, and no sum on the way overflows. -/
structure SumsAtOnce (start : U16) (pieces : List Bytes) : Prop where
  fits : ∀ before piece after, pieces = before ++ piece :: after →
    AccumulatorFits (before.foldl computeChecksum start) piece
  chained : pieces.foldl computeChecksum start = computeChecksum start pieces.flatten

theorem AccumulatorFits.left (hx : x.length % 2 = 0) (h : AccumulatorFits start (x ++ y)) :
    AccumulatorFits start x := by
  unfold AccumulatorFits at h ⊢
  rw [words_append hx, List.sum_append] at h
  omega

theorem computeChecksum_nil (start : U16) : computeChecksum start [] = start := by
  have hfits : AccumulatorFits start [] := accumulatorFits_of_length (Nat.zero_le _) start
  have hstart := start.isLt
  apply BitVec.eq_of_toNat_eq
  rw [computeChecksum_toNat hfits, words, List.sum_nil, Nat.add_zero]
  exact Lib.residue_of_le (by omega)

-- All pieces but the last have whole words.
theorem sumsAtOnce {pieces : List Bytes} (hwhole : ∀ p ∈ pieces.dropLast, p.length % 2 = 0)
    (h : AccumulatorFits start pieces.flatten) : SumsAtOnce start pieces := by
  induction pieces generalizing start with
  | nil =>
    refine ⟨fun before piece after hsplit => ?_, (computeChecksum_nil start).symm⟩
    cases before <;> cases hsplit
  | cons p ps ih =>
    cases ps with
    | nil =>
      rw [List.flatten_singleton] at h
      refine ⟨fun before piece after hsplit => ?_, ?_⟩
      · obtain ⟨rfl, rfl, -⟩ : before = [] ∧ p = piece ∧ after = [] := by
          cases before with
          | nil => simpa [eq_comm] using hsplit
          | cons q before => simp at hsplit
        exact h
      · rw [List.flatten_singleton]
        rfl
    | cons q qs =>
      rw [List.dropLast_cons_cons, List.forall_mem_cons] at hwhole
      rw [List.flatten_cons] at h
      obtain ⟨hrest, happend⟩ := computeChecksum_append hwhole.1 h
      obtain ⟨hfits, hchained⟩ := ih hwhole.2 hrest
      refine ⟨fun before piece after hsplit => ?_, ?_⟩
      · cases before with
        | nil =>
          rw [← (List.cons.inj hsplit).1]
          exact h.left hwhole.1
        | cons p' before =>
          obtain ⟨hhead, htail⟩ := List.cons.inj hsplit
          rw [hhead] at hfits
          exact hfits before piece after htail
      · rw [List.foldl_cons, hchained, happend, List.flatten_cons (l := p)]

/-! ## Buffers that carry their checksum -/

-- A buffer with the complement of its sum at an even place.
theorem onesSum_complemented {front back : Bytes} (hfront : front.length % 2 = 0)
    (h : AccumulatorFits 0 (front ++ leBytes16 0 ++ back)) :
    onesSum (front ++ leBytes16 (~~~computeChecksum 0 (front ++ leBytes16 0 ++ back)) ++ back) =
      0xFFFF := by
  have hsum (c : U16) : (words (front ++ leBytes16 c ++ back)).sum =
      (words front).sum + (words back).sum + c.toNat := by
    have heven : (front ++ leBytes16 c).length % 2 = 0 := by
      rw [List.length_append, length_leBytes16]
      omega
    rw [words_append heven, words_append hfront, words_leBytes16, List.sum_append, List.sum_append,
      List.sum_singleton]
    omega
  have hchecksum := computeChecksum_toNat h
  have hzero : (0 : U16).toNat = 0 := rfl
  rw [hsum, hzero, Nat.zero_add, Nat.add_zero] at hchecksum
  rw [onesSum_eq, hsum, BitVec.toNat_not, hchecksum]
  exact Lib.residue_complement (by decide) _

/-- The pseudo header a receiver sums for the packet `ip`. -/
def pseudoHeader (ip : Bytes) : Bytes :=
  (ip.drop 12).take 8 ++ [0#8, getProtocol ip] ++
    beBytes16 (getTTLEN ip - BitVec.ofNat 16 (getHeaderLen ip))

/-- Both checksums of a packet are those a receiver accepts. -/
structure ChecksumsValid (ip : Bytes) : Prop where
  header : onesSum (ip.take (getHeaderLen ip)) = 0xFFFF
  transport : onesSum (pseudoHeader ip ++ ip.drop (getHeaderLen ip)) = 0xFFFF

section Built

variable {protocol : U8} {src dest : U32} {ttlen : Nat} {front back : Bytes}

theorem pseudoHeader_ipv4 (checksum : U16) {len : Nat} (hlen : ttlen = 20 + len) (rest : Bytes) :
    pseudoHeader (ipv4Header protocol src dest ttlen checksum ++ rest) =
      ipv4Pseudo protocol src dest len := by
  have hpart : BitVec.ofNat 16 ttlen - BitVec.ofNat 16 20 = BitVec.ofNat 16 len := by
    rw [hlen]
    apply BitVec.eq_of_toNat_eq
    rw [BitVec.toNat_sub, BitVec.toNat_ofNat, BitVec.toNat_ofNat, BitVec.toNat_ofNat]
    omega
  rw [pseudoHeader, addresses_ipv4, getProtocol_ipv4, getTTLEN_ipv4, getHeaderLen_ipv4, hpart]
  rfl

theorem onesSum_ipv4Header : onesSum (ipv4Header protocol src dest ttlen
    (~~~computeChecksum 0 (ipv4Header protocol src dest ttlen 0))) = 0xFFFF := by
  have hsplit (checksum : U16) : ipv4Header protocol src dest ttlen checksum =
      [0x45#8, 0#8] ++ beBytes16 (BitVec.ofNat 16 ttlen) ++ [0#8, 0#8, 0#8, 0#8] ++
        [64#8, protocol] ++ leBytes16 checksum ++ (leBytes32 src ++ leBytes32 dest) :=
    List.append_assoc _ _ _
  rw [hsplit 0, hsplit]
  apply onesSum_complemented (by simp)
  exact accumulatorFits_of_length (by simp) 0

-- A packet whose transport header carries its checksum between `front` and `back`.
theorem checksumsValid {len : Nat} (hlen : ttlen = 20 + len) (hfront : front.length % 2 = 0)
    (hfits : AccumulatorFits 0
      (ipv4Pseudo protocol src dest len ++ front ++ leBytes16 0 ++ back)) :
    ChecksumsValid
      (ipv4Header protocol src dest ttlen
          (~~~computeChecksum 0 (ipv4Header protocol src dest ttlen 0)) ++
        (front ++ leBytes16 (~~~computeChecksum 0
          (ipv4Pseudo protocol src dest len ++ front ++ leBytes16 0 ++ back)) ++ back)) where
  header := by
    rw [getHeaderLen_ipv4, take_ipv4]
    exact onesSum_ipv4Header
  transport := by
    have heven : (ipv4Pseudo protocol src dest len ++ front).length % 2 = 0 := by
      rw [List.length_append]
      show (12 + front.length) % 2 = 0
      omega
    rw [getHeaderLen_ipv4, drop_ipv4, pseudoHeader_ipv4 _ hlen, ← List.append_assoc,
      ← List.append_assoc]
    exact onesSum_complemented heven hfits

end Built

end NetCore
