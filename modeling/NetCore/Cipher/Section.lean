import NetCore.Cipher.Estimate

/-!
# Sections as a code

`pack` cuts a content into sections and marks the last one by its length, or by an empty section
behind it.  There is no second way to write a content down: what `unpack` takes off a stream is what
`pack` writes for the bytes it has put out.
-/

namespace NetCore
namespace Cipher

-- The two bytes of a length, taken apart again.
theorem beBytes16_pair (hi lo : U8) : beBytes16 (hi ++ lo) = [hi, lo] := by
  have hhi := hi.isLt
  have hlo := lo.isLt
  have hword : (hi ++ lo : U16).toNat = hi.toNat * 2 ^ 8 + lo.toNat := by
    rw [BitVec.toNat_append, ← Nat.shiftLeft_add_eq_or_of_lt hlo, Nat.shiftLeft_eq]
  have hfirst : ((hi ++ lo : U16) >>> 8).setWidth 8 = hi := by
    apply BitVec.eq_of_toNat_eq
    rw [BitVec.toNat_setWidth, BitVec.toNat_ushiftRight, hword, Nat.shiftRight_eq_div_pow]
    omega
  have hsecond : (hi ++ lo : U16).setWidth 8 = lo := by
    apply BitVec.eq_of_toNat_eq
    rw [BitVec.toNat_setWidth, hword]
    omega
  unfold beBytes16
  rw [hfirst, hsecond]

-- A length is written one way only.
theorem header_eq {hi lo : U8} {y : Bytes} (h : y.length = (hi ++ lo : U16).toNat) :
    beBytes16 (BitVec.ofNat 16 y.length) = [hi, lo] := by
  have hword : BitVec.ofNat 16 y.length = (hi ++ lo : U16) := by
    rw [h]
    exact BitVec.ofNat_toNat _ _
  rw [hword, beBytes16_pair]

-- A last section behind its length; the empty one is the end mark behind a full one.
theorem packLoop_end {n l : Nat} {hi lo : U8} {y : Bytes}
    (hlength : y.length = (hi ++ lo : U16).toNat) (hshort : y.length < MAX_SECTION_SIZE)
    (hn : y.length ≤ n) (hy : y ≠ [] ∨ l = MAX_SECTION_SIZE) :
    (packLoop n y l).1 ++ endMark (packLoop n y l).2 = [hi, lo] ++ y := by
  have hheader := header_eq hlength
  by_cases hnil : y = []
  · have hl := hy.resolve_left fun hne => hne hnil
    rw [hnil] at hheader
    rw [hnil, packLoop_nil, hl, endMark, if_pos rfl, ← hheader]
    rfl
  · rw [packLoop_last hnil hn hshort, endMark, if_neg (Nat.ne_of_lt hshort), hheader,
      List.append_nil]

-- A full section in front of others.
theorem packLoop_full {n : Nat} {s y : Bytes} (l : Nat) (hs : s.length = MAX_SECTION_SIZE) :
    packLoop (n + 1) (s ++ y) l =
      (beBytes16 (BitVec.ofNat 16 MAX_SECTION_SIZE) ++ s ++ (packLoop n y MAX_SECTION_SIZE).1,
        (packLoop n y MAX_SECTION_SIZE).2) := by
  have hne : s ++ y ≠ [] := by
    apply List.ne_nil_of_length_pos
    rw [List.length_append, hs, maxSectionSize_eq]
    omega
  have hlen : ¬ (s ++ y).length < MAX_SECTION_SIZE := by
    rw [List.length_append]
    omega
  rw [packLoop, if_neg hne, if_neg hlen]
  dsimp only
  rw [List.drop_left' hs, List.take_left' hs]

-- The bytes a complete parcel takes off a stream are the sections of what it puts out.
theorem unpackLoop_canonical {fuel : Nat} {s out rest : Bytes}
    (h : (unpackLoop fuel s out).rest = some rest) :
    ∃ y, (unpackLoop fuel s out).out = out ++ y ∧
      ∀ n l, y.length ≤ n → (y ≠ [] ∨ l = MAX_SECTION_SIZE) →
        s = (packLoop n y l).1 ++ endMark (packLoop n y l).2 ++ rest := by
  -- along the sections: all but the last are full
  induction fuel generalizing s out with
  | zero => cases h
  | succ fuel ih =>
    match s with
    | [] => cases h
    | [_] => cases h
    | hi :: lo :: s =>
      simp only [unpackLoop] at h ⊢
      generalize hw : (hi ++ lo : U16).toNat = size at h ⊢
      split at h
      · cases h
      next hok =>
        have hbytes : s.take size ++ s.drop size = s := List.take_append_drop _ _
        have htake : (s.take size).length = size := by
          rw [List.length_take]
          omega
        have hlength : (s.take size).length = (hi ++ lo : U16).toNat := htake.trans hw.symm
        rw [if_neg hok]
        split at h
        next hlast =>
          cases h
          rw [if_pos hlast]
          refine ⟨s.take size, rfl, ?_⟩
          intro n l hn hy
          rw [packLoop_end hlength (by omega) hn hy, List.append_assoc, hbytes]
          rfl
        next hfull =>
          have hsize : size = MAX_SECTION_SIZE := Classical.not_not.mp hfull
          have hsection := htake.trans hsize
          have hheader := header_eq hlength
          obtain ⟨y, hout, hcode⟩ := ih h
          rw [if_neg hfull]
          refine ⟨s.take size ++ y, ?_, ?_⟩
          · show (unpackLoop fuel (s.drop size) (out ++ s.take size)).out = _
            rw [hout, List.append_assoc]
          · intro n l hn _
            rw [List.length_append, hsection, maxSectionSize_eq] at hn
            have hpos : n ≠ 0 := by omega
            obtain ⟨n, rfl⟩ := Nat.exists_eq_succ_of_ne_zero hpos
            have hlater := hcode n MAX_SECTION_SIZE (by omega) (.inr rfl)
            rw [packLoop_full l hsection, ← hsection, hheader, hsection, List.append_assoc,
              List.append_assoc, ← List.append_assoc (packLoop n y _).1, List.append_assoc, ← hlater,
              hbytes]
            rfl

/-- The number `unpack` returns: how many bytes it has put out, when it has found the end. -/
def Unpacked.returned (u : Unpacked) : Nat := if u.rest.isSome then u.out.length else 0

/-- Where `*data` points to after `unpack`. -/
def cursor (data : Bytes) : Bytes := (unpack data).rest.getD data

theorem unpacked_of_parcel {data content rest : Bytes} (h : parcel data = some (content, rest)) :
    (unpack data).out = content ∧ (unpack data).returned = content.length ∧ cursor data = rest := by
  obtain ⟨hrest, hout⟩ := parcel_eq_some.mp h
  unfold Unpacked.returned cursor
  rw [hrest, hout]
  exact ⟨rfl, rfl, rfl⟩

theorem unpacked_of_none {data : Bytes} (h : parcel data = none) :
    (unpack data).returned = 0 ∧ cursor data = data := by
  have hrest := parcel_eq_none.mp h
  unfold Unpacked.returned cursor
  rw [hrest]
  exact ⟨rfl, rfl⟩

-- `pack` writes what its estimate has room for.
theorem pack_eq {content : Bytes} {size : Nat} (hne : content ≠ [])
    (hsize : estimatePackLen content.length ≤ size) :
    pack content size = (packLoop content.length content 0).1 ++
      endMark (packLoop content.length content 0).2 := by
  have hroom := estimatePackLen_eq content.length
  have hgood : ¬ (content = [] ∨ size < content.length) := fun hbad => hbad.elim hne (by omega)
  unfold pack
  rw [if_neg hgood, if_neg (by omega)]
  exact append_endMark _

-- What `unpack` takes off is what `pack` writes.
theorem unpack_canonical {data : Bytes} {size : Nat} (hpos : 0 < (unpack data).returned)
    (hsize : estimatePackLen (unpack data).out.length ≤ size) :
    data = pack (unpack data).out size ++ cursor data := by
  unfold Unpacked.returned at hpos
  cases hrest : (unpack data).rest with
  | none =>
    rw [hrest] at hpos
    exact absurd hpos (Nat.lt_irrefl 0)
  | some rest =>
    rw [hrest] at hpos
    have hne : (unpack data).out ≠ [] := List.ne_nil_of_length_pos hpos
    obtain ⟨y, hout, hcode⟩ := unpackLoop_canonical hrest
    rw [List.nil_append] at hout
    have hsame : (unpack data).out = y := hout
    rw [hsame] at hne hsize ⊢
    rw [pack_eq hne hsize]
    unfold cursor
    rw [hrest]
    exact hcode y.length 0 (Nat.le_refl _) (.inl hne)

/-- Whatever follows a packed content, `unpack` gives the content and stops behind it; of a part of it
    `unpack` gives nothing; and nothing else than packed contents is taken off a stream. -/
theorem unpack_exact :
    (∀ (content : Bytes) (size : Nat), content ≠ [] → content.length ≤ CIPHER_BUFFER_SIZE →
      estimatePackLen content.length ≤ size →
      (∀ r, (unpack (pack content size ++ r)).out = content ∧
        (unpack (pack content size ++ r)).returned = content.length ∧
        cursor (pack content size ++ r) = r) ∧
      ∀ p, p <+: pack content size → p ≠ pack content size →
        (unpack p).returned = 0 ∧ cursor p = p) ∧
    ∀ (data : Bytes) (size : Nat), 0 < (unpack data).returned →
      estimatePackLen (unpack data).out.length ≤ size →
      (unpack data).out.length = (unpack data).returned ∧
        data = pack (unpack data).out size ++ cursor data := by
  constructor
  · intro content size hne hlen hsize
    have hlength := length_pack hne hsize
    have hroom := estimatePackLen_eq content.length
    have hwritten : pack content size ≠ [] := List.ne_nil_of_length_pos (by omega)
    have hframe := pack_isFrame hlen hwritten
    constructor
    · intro r
      apply unpacked_of_parcel
      exact parcel_framing.next_frame hframe r
    · intro p hprefix hproper
      apply unpacked_of_none
      exact parcel_framing.next_prefix hframe hprefix hproper
  · intro data size hpos hsize
    constructor
    · unfold Unpacked.returned at hpos ⊢
      split
      · rfl
      next hnone =>
        rw [if_neg hnone] at hpos
        exact absurd hpos (Nat.lt_irrefl 0)
    · exact unpack_canonical hpos hsize

/-- A content of exactly one section, which needs an end mark, with and without it. -/
theorem unpack_exact_sample :
    ((unpack (pack (List.replicate 1024 7) 2000 ++ [9])).out = List.replicate 1024 7 ∧
        (unpack (pack (List.replicate 1024 7) 2000 ++ [9])).returned = 1024 ∧
        cursor (pack (List.replicate 1024 7) 2000 ++ [9]) = [9]) ∧
      ((unpack ((pack (List.replicate 1024 7) 2000).take 1026)).returned = 0 ∧
        cursor ((pack (List.replicate 1024 7) 2000).take 1026) =
          (pack (List.replicate 1024 7) 2000).take 1026) ∧
      ([0, 2, 7, 8, 9] : Bytes) = pack (unpack [0, 2, 7, 8, 9]).out 8 ++ cursor [0, 2, 7, 8, 9] := by
  have hlen : (List.replicate 1024 (7 : U8)).length = 1024 := List.length_replicate
  have hparse := unpack_exact.2 [0, 2, 7, 8, 9] 8 (by decide) (by decide)
  generalize List.replicate 1024 (7 : U8) = content at hlen ⊢
  have hne : content ≠ [] := by
    refine List.ne_nil_of_length_pos ?_
    rw [hlen]
    decide
  have hsize : estimatePackLen content.length ≤ 2000 := by
    rw [hlen]
    decide
  obtain ⟨hwhole, hpart⟩ := unpack_exact.1 content 2000 hne (by rw [hlen]; decide) hsize
  have hnine := hwhole [9]
  rw [hlen] at hnine
  refine ⟨hnine, hpart _ (List.take_prefix 1026 _) ?_, hparse.2⟩
  intro heq
  have hpack := length_pack hne hsize
  have htaken := congrArg List.length heq
  rw [estimatePackLen_eq, hlen] at hpack
  rw [List.length_take] at htaken
  omega

end Cipher

end NetCore
