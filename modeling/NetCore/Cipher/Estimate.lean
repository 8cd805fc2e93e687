import Mathlib.Order.Bounds.Defs
import NetCore.Cipher.RoundTrip

/-!
# What the estimate of `encrypt` is worth

`estimateEncryptLen` allows for the whole padding, but not for the two bytes that tell its length, so
a content may be two bytes longer than estimated.  `estimatePackLen` has two bytes to spare, which is
enough unless `pack` asks it again, or the content reaches one more section.  A parcel is longer than
its message by a section and a few bytes, at most.
-/

namespace NetCore
namespace Cipher

variable {draws : Draws} {origin : Bytes} {size : U32} {c : Cipher}

def paddingDrawn (draws : Draws) (n : Nat) : Nat :=
  PaddingCoder.drawn draws.padding (n + 3) (CIPHER_BUFFER_SIZE - 1)

-- Around a message stand three ids, the shift and the two bytes that tell the padding.
theorem length_sealContent_eq (draws : Draws) {m : Bytes} (hm : m.length ≤ MAX_ENCRYPT_SIZE) :
    (sealContent draws m).length = m.length + 6 + paddingDrawn draws m.length := by
  have hshifted := length_shifted draws hm
  rw [maxEncryptSize_eq] at hm
  have hsize := cipherBufferSize_eq
  unfold sealContent
  rw [List.length_cons, PaddingCoder.length_encode _ (by rw [List.length_cons, hshifted]; omega),
    List.length_cons, hshifted]
  show _ = m.length + 6 + PaddingCoder.drawn draws.padding (m.length + 2 + 1) (CIPHER_BUFFER_SIZE - 1)
  omega

theorem length_endMark (l : Nat) : (endMark l).length = if l = MAX_SECTION_SIZE then 2 else 0 := by
  unfold endMark
  split <;> rfl

-- Two bytes for each full section, and two for the last section or the end mark.
theorem length_packLoop_eq {n : Nat} {s : Bytes} (l : Nat) (hn : s.length ≤ n)
    (hs : s ≠ [] ∨ l = MAX_SECTION_SIZE) :
    (packLoop n s l).1.length + (endMark (packLoop n s l).2).length =
      s.length + 2 * (s.length / 1024 + 1) := by
  have hsection := maxSectionSize_eq
  induction n generalizing s l with
  | zero =>
    have hnil := List.length_eq_zero_iff.mp (Nat.le_zero.mp hn)
    obtain hl := hs.resolve_left fun hne => hne hnil
    rw [packLoop, length_endMark, if_pos hl, hnil]
    rfl
  | succ n ih =>
    by_cases hnil : s = []
    · obtain hl := hs.resolve_left fun hne => hne hnil
      rw [packLoop, if_pos hnil, length_endMark, if_pos hl, hnil]
      rfl
    · have hpos := List.length_pos_iff.mpr hnil
      by_cases hlt : s.length < MAX_SECTION_SIZE
      · rw [packLoop_last hnil hn hlt, length_endMark, if_neg (by omega), List.length_append,
          length_beBytes16]
        omega
      · have hlater := ih (s := s.drop MAX_SECTION_SIZE) MAX_SECTION_SIZE
          (by rw [List.length_drop]; omega) (.inr rfl)
        rw [List.length_drop] at hlater
        rw [packLoop, if_neg hnil, if_neg hlt]
        simp only [List.length_append, List.length_take, length_beBytes16]
        omega

theorem estimatePackLen_eq (len : Nat) : estimatePackLen len = len + 2 * (len / 1024 + 1) + 2 := by
  unfold estimatePackLen
  rw [maxSectionSize_eq, Nat.shiftLeft_eq]
  omega

-- `pack` writes two bytes less than it asks for.
theorem length_pack {content : Bytes} {size : Nat} (hne : content ≠ [])
    (hsize : estimatePackLen content.length ≤ size) :
    (pack content size).length + 2 = estimatePackLen content.length := by
  have hloop := length_packLoop_eq 0 (Nat.le_refl content.length) (.inl hne)
  rw [estimatePackLen_eq] at hsize ⊢
  unfold pack
  rw [if_neg (fun h => h.elim hne (by omega)), estimatePackLen_eq, if_neg (by omega)]
  simp only
  rw [append_endMark, List.length_append, hloop]

theorem pack_refused {content : Bytes} {size : Nat} (h : size < estimatePackLen content.length) :
    pack content size = [] := by
  unfold pack
  by_cases hbad : content = [] ∨ size < content.length
  · rw [if_pos hbad]
  · rw [if_neg hbad, if_pos h]

-- When `encrypt` refuses a message, `*origin` stays where it is.
theorem encrypt_refused_origin
    (h : origin = [] ∨ size.toNat < estimateEncryptLen (origin.take MAX_ENCRYPT_SIZE).length) :
    (encrypt draws origin size c).origin = origin := by
  have hbuffer := cipherBufferSize_eq
  have hmax := maxEncryptSize_eq
  have hm : (origin.take MAX_ENCRYPT_SIZE).length ≤ MAX_ENCRYPT_SIZE := List.length_take_le _ _
  obtain ⟨hlen, -⟩ := cut_front origin
  unfold encrypt
  by_cases hbad : origin = [] ∨ size = 0
  · rw [if_pos hbad]
  · have hroom := h.resolve_left fun hempty => hbad (.inl hempty)
    simp only [hlen]
    rw [if_neg hbad, if_neg (by omega), if_pos hroom]

/-- A passed size check is final, and nothing is skipped. -/
structure SizeCheckFinal (draws : Draws) (origin : Bytes) (size : U32) (c : Cipher) : Prop where
  success : origin ≠ [] → estimateEncryptLen (origin.take MAX_ENCRYPT_SIZE).length ≤ size.toNat →
    0 < (encrypt draws origin size c).out.length ∧
      (encrypt draws origin size c).out.length ≤
        estimateEncryptLen (origin.take MAX_ENCRYPT_SIZE).length
  unchanged : (encrypt draws origin size c).out = [] →
    (encrypt draws origin size c).origin = origin

-- A message that passes the check comes out as a parcel exactly if `pack` has its room, too.
theorem encrypt_passed (draws : Draws) (c : Cipher) (hne : origin ≠ [])
    (hroom : estimateEncryptLen (origin.take MAX_ENCRYPT_SIZE).length ≤ size.toNat) {need : Nat}
    (hneed : need = estimatePackLen ((origin.take MAX_ENCRYPT_SIZE).length + 6 +
      paddingDrawn draws (origin.take MAX_ENCRYPT_SIZE).length)) :
    (size.toNat < need → (encrypt draws origin size c).out = [] ∧
        (encrypt draws origin size c).origin ≠ origin) ∧
      (need ≤ size.toNat → (encrypt draws origin size c).out.length + 2 = need) := by
  have hm : (origin.take MAX_ENCRYPT_SIZE).length ≤ MAX_ENCRYPT_SIZE := List.length_take_le _ _
  have hlen := length_sealContent_eq draws hm
  obtain ⟨hout, horigin⟩ := @encrypt_sealed draws _ _ c hne hroom
  rw [← hlen] at hneed
  rw [hout, horigin, hneed]
  constructor
  · intro hlt
    refine ⟨pack_refused hlt, fun hsame => ?_⟩
    have hlength := congrArg List.length hsame
    have hpos := List.length_pos_iff.mpr hne
    rw [List.length_drop, maxEncryptSize_eq] at hlength
    omega
  · intro hle
    exact length_pack (List.ne_nil_of_length_pos (by omega)) hle

/-- The size check is final exactly if it fails, or if the content with the padding drawn has room
    for `pack` in the output and stays within the estimate. -/
theorem encrypt_final_iff (draws : Draws) (origin : Bytes) (size : U32) (c : Cipher) :
    SizeCheckFinal draws origin size c ↔
      origin = [] ∨
      size.toNat < estimateEncryptLen (origin.take MAX_ENCRYPT_SIZE).length ∨
      (estimatePackLen ((origin.take MAX_ENCRYPT_SIZE).length + 6 +
          paddingDrawn draws (origin.take MAX_ENCRYPT_SIZE).length) ≤ size.toNat ∧
        estimatePackLen ((origin.take MAX_ENCRYPT_SIZE).length + 6 +
          paddingDrawn draws (origin.take MAX_ENCRYPT_SIZE).length) ≤
          estimateEncryptLen (origin.take MAX_ENCRYPT_SIZE).length + 2) := by
  by_cases hrefused : origin = [] ∨
      size.toNat < estimateEncryptLen (origin.take MAX_ENCRYPT_SIZE).length
  · constructor
    · exact fun _ => hrefused.imp_right .inl
    · exact fun _ => ⟨fun hne hle => absurd hle (by have hlt := hrefused.resolve_left hne; omega),
        fun _ => encrypt_refused_origin hrefused⟩
  · rw [not_or] at hrefused
    obtain ⟨hne, hroom⟩ := hrefused
    obtain ⟨hshort, hfits⟩ := encrypt_passed draws c hne (Nat.le_of_not_lt hroom) rfl
    have hpositive := estimatePackLen_eq ((origin.take MAX_ENCRYPT_SIZE).length + 6 +
      paddingDrawn draws (origin.take MAX_ENCRYPT_SIZE).length)
    constructor
    · intro h
      have hsuccess := h.success hne (Nat.le_of_not_lt hroom)
      have hle := Nat.le_of_not_lt fun hlt => (hshort hlt).2 (h.unchanged (hshort hlt).1)
      have hlength := hfits hle
      exact .inr (.inr ⟨hle, by omega⟩)
    · intro h
      obtain ⟨hle, hestimate⟩ := (h.resolve_left hne).resolve_left hroom
      have hlength := hfits hle
      refine ⟨fun _ _ => ⟨by omega, by omega⟩, fun hempty => ?_⟩
      rw [hempty, List.length_nil] at hlength
      omega

/-- A message that fills a section exactly with its shift and ids, and an output as large as
    estimated: nothing is written, and the message is skipped. -/
theorem encrypt_skips :
    (encrypt sampleDraws (List.replicate 1021 0) 1031 sampleCipher).out = [] ∧
      (encrypt sampleDraws (List.replicate 1021 0) 1031 sampleCipher).origin ≠
        List.replicate 1021 0 ∧
      ¬ SizeCheckFinal sampleDraws (List.replicate 1021 0) 1031 sampleCipher := by
  have hlen : ((List.replicate 1021 0 : Bytes).take MAX_ENCRYPT_SIZE).length = 1021 := by
    rw [List.length_take, List.length_replicate]
    rfl
  have hpadding : paddingDrawn sampleDraws 1021 = 0 := by decide
  have hroom : estimateEncryptLen ((List.replicate 1021 0 : Bytes).take MAX_ENCRYPT_SIZE).length ≤
      (1031 : U32).toNat := by
    rw [hlen]
    decide
  have hneed : 1033 = estimatePackLen (((List.replicate 1021 0 : Bytes).take MAX_ENCRYPT_SIZE).length +
      6 + paddingDrawn sampleDraws
        ((List.replicate 1021 0 : Bytes).take MAX_ENCRYPT_SIZE).length) := by
    rw [hlen, hpadding]
    decide
  have hne : (List.replicate 1021 0 : Bytes) ≠ [] := List.cons_ne_nil _ _
  have hlt : (1031 : U32).toNat < 1033 := by decide
  obtain ⟨hout, horigin⟩ := (encrypt_passed sampleDraws sampleCipher hne hroom hneed).1 hlt
  exact ⟨hout, horigin, fun h => horigin (h.unchanged hout)⟩

/-! ## How much longer a parcel is than its message -/

/-- The padding fills a message of one byte up to a section, and what stands around it makes a second
    one. -/
def maxExpansion : Nat := MAX_SECTION_SIZE + 6

/-- The differences in length between a parcel and its message. -/
def expansions : Set Nat :=
  {d | ∃ m x, Encrypts m x ∧ m.length ≤ MAX_ENCRYPT_SIZE ∧ x.length = m.length + d}

-- The length of a parcel.
theorem Encrypts.length_eq {m x : Bytes} (h : Encrypts m x) (hm : m.length ≤ MAX_ENCRYPT_SIZE) :
    ∃ draws, x.length + 2 = estimatePackLen (m.length + 6 + paddingDrawn draws m.length) := by
  obtain ⟨draws, size, c, rfl, hne⟩ := h
  obtain ⟨-, hout, -⟩ := encrypt_eq hne
  rw [List.take_of_length_le hm] at hout
  have hlen := length_sealContent_eq draws hm
  have hcontent : sealContent draws m ≠ [] := List.ne_nil_of_length_pos (by omega)
  have hfits : estimatePackLen (sealContent draws m).length ≤ size.toNat :=
    Nat.le_of_not_lt fun hlt => hne (hout.trans (pack_refused hlt))
  have hpack := length_pack hcontent hfits
  refine ⟨draws, ?_⟩
  rw [hout, hpack, hlen]

theorem paddingDrawn_le (draws : Draws) (n : Nat) :
    paddingDrawn draws n ≤ if MAX_SECTION_SIZE < n + 3 then 2 else MAX_SECTION_SIZE - (n + 3) :=
  PaddingCoder.drawn_le draws.padding (n + 3) (CIPHER_BUFFER_SIZE - 1)

theorem Encrypts.length_le_add {m x : Bytes} (h : Encrypts m x) (hm : m.length ≤ MAX_ENCRYPT_SIZE) :
    x.length ≤ m.length + maxExpansion := by
  have hmax := maxEncryptSize_eq
  have hsection := maxSectionSize_eq
  have hpos : 0 < m.length := by
    obtain ⟨draws, size, c, rfl, hne⟩ := h
    exact List.length_pos_iff.mpr (encrypt_eq hne).1
  obtain ⟨draws, hlen⟩ := h.length_eq hm
  have hpadding := paddingDrawn_le draws m.length
  rw [estimatePackLen_eq] at hlen
  unfold maxExpansion
  split at hpadding <;> omega

-- Draws that pad as much as there is room.
def sampleFull : Draws where
  shift := 0
  padding _ := 1019

theorem isGreatest_maxExpansion : IsGreatest expansions maxExpansion := by
  constructor
  · have hne : (encrypt sampleFull [0] (BitVec.ofNat 32 MAX_PARCEL_SIZE) sampleCipher).out ≠ [] :=
      encrypt_succeeds sampleFull sampleCipher (by simp) (by decide)
    have hout := (encrypt_eq hne).2.1
    have hlen := length_sealContent_eq sampleFull (m := [0]) (by decide)
    have hpadding : paddingDrawn sampleFull 1 = 1020 := by decide
    rw [List.length_singleton, hpadding] at hlen
    have hcontent : sealContent sampleFull [0] ≠ [] := List.ne_nil_of_length_pos (by omega)
    have hsize : estimatePackLen (sealContent sampleFull [0]).length ≤
        (BitVec.ofNat 32 MAX_PARCEL_SIZE).toNat := by
      rw [hlen]
      decide
    have hpack := length_pack hcontent hsize
    refine ⟨[0], _, ⟨_, _, _, rfl, hne⟩, by decide, ?_⟩
    rw [hout]
    show (pack (sealContent sampleFull [0]) _).length = _
    rw [hlen, estimatePackLen_eq] at hpack
    unfold maxExpansion
    rw [maxSectionSize_eq, List.length_singleton]
    omega
  · rintro d ⟨m, x, hencrypts, hm, hlen⟩
    have hle := hencrypts.length_le_add hm
    omega

end Cipher

end NetCore
