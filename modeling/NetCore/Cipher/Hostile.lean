import NetCore.Cipher.Parcel

/-!
# Input from the network

The decoders look at their header before they look at the length.  `decrypt` is safe on a stream
exactly when no coder in it is left with less than its header: only then can a length run below 0.
-/

namespace NetCore
namespace Cipher

structure Safe (n : Nat) (r : DecryptResult) : Prop where
  /-- It returns, and less than it was given. -/
  returns : ∃ i, r.stop = .returned i ∧ i.toNat < n
  /-- Every `decode` is given its header and shortens what it is given, every `memcpy` stays
      inside. -/
  sound : ∀ p ∈ r.points, p.Sound
  /-- Every parcel is decoded in at most as many steps as it has bytes. -/
  steps : StepsWithin 0 r.points

theorem decrypt_safe_iff {data : Bytes} {size : U32} (h : data.length ≤ size.toNat) (c : Cipher) :
    Safe data.length (decrypt data size c) ↔ data ≠ [] ∧ readParcels data ≠ .short := by
  have hspec := decrypt_spec h c
  have hsize := size.isLt
  constructor
  · intro hsafe
    constructor
    · rintro rfl
      obtain ⟨i, -, hlt⟩ := hsafe.returns
      exact absurd hlt (Nat.not_lt_zero _)
    · intro hshort
      obtain ⟨p, hp, hbad⟩ := hspec.short hshort
      exact hbad (hsafe.sound p hp)
  · rintro ⟨hne, hlong⟩
    obtain ⟨hsound, hsteps⟩ := hspec.sound hlong
    refine ⟨?_, hsound, hsteps⟩
    cases hread : readParcels data with
    | returned out rest =>
      have hlt := (readLoop_length hread).2 hne (Nat.succ_pos _)
      rw [List.length_nil] at hlt
      refine ⟨_, (hspec.returned out rest hread).1, ?_⟩
      rw [BitVec.toNat_ofNat]
      omega
    | failed =>
      exact ⟨0, (hspec.failed hread).1, List.length_pos_iff.mpr hne⟩
    | short => exact absurd hread hlong

-- A plain parcel, one with the shift coder and the start of a third.
def sampleStream : Bytes := [0, 2, 0, 0x61, 0, 4, codeSHIFT, 0, 0, 0xC4, 0, 9, codePADDING]

theorem decrypt_safe_sample : Safe 13 (decrypt sampleStream 13 sampleCipher) := by
  have hsize : sampleStream.length ≤ (13 : U32).toNat := by decide
  exact (decrypt_safe_iff hsize sampleCipher).mpr ⟨by decide, by decide⟩

/-- A parcel that holds nothing but the code of the shift coder. -/
theorem decrypt_unsafe :
    ∃ (data : Bytes) (size : U32) (c : Cipher), data.length ≤ size.toNat ∧ data ≠ [] ∧
      ¬ Safe data.length (decrypt data size c) := by
  have hsize : ([0, 1, codeSHIFT] : Bytes).length ≤ (3 : U32).toNat := by decide
  have hshort : readParcels [0, 1, codeSHIFT] = .short := by decide
  refine ⟨[0, 1, codeSHIFT], 3, sampleCipher, hsize, by decide, fun hsafe => ?_⟩
  obtain ⟨p, hp, hbad⟩ := (decrypt_spec hsize sampleCipher).short hshort
  exact hbad (hsafe.sound p hp)

end Cipher

end NetCore
