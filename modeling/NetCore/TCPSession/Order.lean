import NetCore.Lib.Serial
import NetCore.TCPSession.Accept

/-!
# The order of sequence numbers

`TCPDatagram::compare` orders the forward queue by the difference of two numbers, which is the order
of serial numbers.  `compare_u32` finds repeated segments by comparing the numbers as `int`s first,
which is the same order only for numbers that are not far apart as `int`s.
-/

namespace NetCore

open Lib (Before)

/-- Two numbers less than half the circle apart are ordered as serial numbers, by both comparisons. -/
structure SerialOrder (s1 s2 : U32) : Prop where
  negative : compareU32 s1 s2 < 0 ↔ (s2 - s1).toNat < 2 ^ 31
  datagrams (a b : TCPDatagram) : a.mSeq = s1 → b.mSeq = s2 →
    (compareU32 s1 s2).sign = (TCPDatagram.compare a b).sign
  antisymm : (compareU32 s2 s1).sign = -(compareU32 s1 s2).sign
  /-- A segment is taken for repeated exactly if it would be queued before what comes next. -/
  repeated {τ : Type} [ITunnel τ] (ip : Packet) (s : TCPSession τ) (next : TCPDatagram) :
    s.relativeSeq ip = s1 → s.mRemoteNext = s2 → next.mSeq = s2 →
    (s.Repeated ip ↔ TCPDatagram.compare (s.forwardDatagram ip) next < 0)

variable {s1 s2 : U32}

theorem sign_compareU32_of_neg (h : compareU32 s1 s2 < 0) : (compareU32 s1 s2).sign = -1 :=
  Int.sign_eq_neg_one_of_neg h

theorem sign_compareU32_of_not_neg (hne : s1 ≠ s2) (h : ¬ compareU32 s1 s2 < 0) :
    (compareU32 s1 s2).sign = 1 := by
  unfold compareU32 at h ⊢
  rw [if_neg hne] at h ⊢
  split at h
  · omega
  next hafter => rw [if_neg hafter]; rfl

-- A difference of two `int`s wraps when it is not an `int` itself.
theorem toInt_sub_cases (s1 s2 : U32) :
    (s2 - s1).toInt = s2.toInt - s1.toInt ∨
      (s2 - s1).toInt = s2.toInt - s1.toInt - 2 ^ 32 ∧ 2 ^ 31 ≤ s2.toInt - s1.toInt ∨
      (s2 - s1).toInt = s2.toInt - s1.toInt + 2 ^ 32 ∧ s2.toInt - s1.toInt < -2 ^ 31 := by
  have h1 := s1.isLt
  have h2 := s2.isLt
  rw [BitVec.toInt_eq_toNat_cond, BitVec.toInt_eq_toNat_cond, BitVec.toInt_eq_toNat_cond,
    BitVec.toNat_sub]
  omega

-- The second test of `compare_u32` is never met: no `int` is that large.
theorem compareU32_neg_iff :
    compareU32 s1 s2 < 0 ↔ s1.toInt < s2.toInt ∧ (s2 - s1).toInt < 0x7FFFFFFF := by
  have hmax : (s1 - s2).toInt < 2 ^ 31 := BitVec.toInt_lt
  unfold compareU32
  by_cases heq : s1 = s2
  · subst heq
    rw [if_pos rfl]
    omega
  · rw [if_neg heq]
    split <;> omega

-- `TCPDatagram::compare` is the order of serial numbers.
theorem compare_neg_iff {a b : TCPDatagram} (hne : a.mSeq ≠ b.mSeq)
    (hdist : (b.mSeq - a.mSeq).toNat ≠ 2 ^ 31) :
    TCPDatagram.compare a b < 0 ↔ Before a.mSeq b.mSeq := by
  have hcircle := Lib.toNat_sub_add_toNat_sub hne
  have hlt := (a.mSeq - b.mSeq).isLt
  unfold TCPDatagram.compare Before
  rw [BitVec.toInt_eq_toNat_cond]
  constructor
  · intro h
    refine ⟨hne, ?_⟩
    split at h <;> omega
  · rintro ⟨-, h⟩
    rw [if_neg (by omega)]
    omega

theorem sign_compare {a b : TCPDatagram} (hne : a.mSeq ≠ b.mSeq)
    (hdist : (b.mSeq - a.mSeq).toNat ≠ 2 ^ 31) :
    (TCPDatagram.compare a b).sign = if Before a.mSeq b.mSeq then -1 else 1 := by
  have hneg := compare_neg_iff hne hdist
  split
  next hbefore => exact Int.sign_eq_neg_one_of_neg (hneg.mpr hbefore)
  next hafter =>
    apply Int.sign_eq_one_of_pos
    have hzero : TCPDatagram.compare a b ≠ 0 := by
      unfold TCPDatagram.compare
      intro h
      have hsub := BitVec.eq_of_toInt_eq (show (a.mSeq - b.mSeq).toInt = (0 : U32).toInt from h)
      exact hne (BitVec.sub_eq_iff_eq_add.mp hsub |>.trans (BitVec.zero_add _))
    have hnot := mt hneg.mp hafter
    omega

theorem half_circle (hne : s1 ≠ s2) (hdist : min (s2 - s1).toNat (s1 - s2).toNat < 2 ^ 31) :
    (s2 - s1).toNat ≠ 2 ^ 31 := by
  have hcircle := Lib.toNat_sub_add_toNat_sub hne
  omega

-- What `compare_u32` gets right, in terms of the numbers taken as `int`s.
theorem compareU32_before_iff (hne : s1 ≠ s2) (hdist : (s2 - s1).toNat ≠ 2 ^ 31) :
    (compareU32 s1 s2 < 0 ↔ Before s1 s2) ↔
      s2.toInt - s1.toInt < 2 ^ 31 - 1 ∧ s1.toInt - s2.toInt < 2 ^ 31 := by
  have hcircle := Lib.toNat_sub_add_toNat_sub hne
  have hcases := toInt_sub_cases s1 s2
  have hbefore : Before s1 s2 ↔ 0 < (s2 - s1).toInt := by
    rw [BitVec.toInt_eq_toNat_cond]
    constructor
    · rintro ⟨-, h⟩
      rw [if_pos (by omega)]
      have hback := (s1 - s2).isLt
      omega
    · intro h
      refine ⟨hne, ?_⟩
      split at h <;> omega
  have hrange (s : U32) : -2 ^ 31 ≤ s.toInt ∧ s.toInt < 2 ^ 31 := ⟨BitVec.le_toInt s, BitVec.toInt_lt⟩
  have hlow := hrange s1
  have hhigh := hrange s2
  have hdiff := hrange (s2 - s1)
  have hneInt : s1.toInt ≠ s2.toInt := fun h => hne (BitVec.eq_of_toInt_eq h)
  have hmin : (s2 - s1).toInt ≠ -2 ^ 31 := by
    rw [BitVec.toInt_eq_toNat_cond]
    split <;> omega
  rw [compareU32_neg_iff, hbefore]
  constructor
  · intro h
    omega
  · intro h
    omega

/-- `compare_u32` is the order of serial numbers exactly between numbers that are, taken as `int`s,
    less than `INT_MAX` apart. -/
theorem compareU32_serial_iff (hne : s1 ≠ s2)
    (hdist : min (s2 - s1).toNat (s1 - s2).toNat < 2 ^ 31) :
    SerialOrder s1 s2 ↔ (s2.toInt - s1.toInt).natAbs < 2 ^ 31 - 1 := by
  have hhalf := half_circle hne hdist
  have hhalf' := half_circle hne.symm (Nat.min_comm _ _ ▸ hdist)
  have hforth := compareU32_before_iff hne hhalf
  have hback := compareU32_before_iff hne.symm hhalf'
  have hnegative : (compareU32 s1 s2 < 0 ↔ (s2 - s1).toNat < 2 ^ 31) ↔
      (compareU32 s1 s2 < 0 ↔ Before s1 s2) := by
    have hbefore : Before s1 s2 ↔ (s2 - s1).toNat < 2 ^ 31 :=
      ⟨fun h => by have hlt := h.2; omega, fun h => ⟨hne, by omega⟩⟩
    rw [hbefore]
  constructor
  · intro h
    have hfar := hforth.mp (hnegative.mp h.negative)
    -- at a distance of `INT_MAX` one way is right, but both ways are positive
    by_contra hmax
    have hminus : ¬ compareU32 s1 s2 < 0 := fun hneg => by
      have hlt := (compareU32_neg_iff.mp hneg).1
      omega
    have hplus : ¬ compareU32 s2 s1 < 0 := fun hneg => by
      have hlt := compareU32_neg_iff.mp hneg
      have hcases := toInt_sub_cases s2 s1
      omega
    have hanti := h.antisymm
    rw [sign_compareU32_of_not_neg hne hminus, sign_compareU32_of_not_neg hne.symm hplus] at hanti
    omega
  · intro h
    have hright := hforth.mpr (by omega)
    have hright' := hback.mpr (by omega)
    have hsign : (compareU32 s1 s2).sign = if Before s1 s2 then -1 else 1 := by
      split
      next hbefore => exact sign_compareU32_of_neg (hright.mpr hbefore)
      next hafter => exact sign_compareU32_of_not_neg hne (mt hright.mp hafter)
    refine ⟨hnegative.mpr hright, ?_, ?_, ?_⟩
    · rintro a b rfl rfl
      rw [hsign, sign_compare hne hhalf]
    · rw [hsign]
      split
      next hbefore =>
        rw [sign_compareU32_of_not_neg hne.symm (mt hright'.mp hbefore.asymm)]
        rfl
      next hafter =>
        have hcircle := Lib.toNat_sub_add_toNat_sub hne
        have hother : Before s2 s1 := by
          refine ⟨hne.symm, ?_⟩
          have hnot : ¬ 2 * (s2 - s1).toNat < 2 ^ 32 := fun hlt => hafter ⟨hne, hlt⟩
          omega
        exact sign_compareU32_of_neg (hright'.mpr hother)
    · rintro τ _ ip s next rfl rfl hnext
      have hqueued := compare_neg_iff (a := s.forwardDatagram ip) (b := next)
        (hnext ▸ hne) (hnext ▸ hhalf)
      rw [hnext] at hqueued
      exact hright.trans hqueued.symm

theorem compareU32_serial_sample :
    SerialOrder 1 2 ↔ ((2 : U32).toInt - (1 : U32).toInt).natAbs < 2 ^ 31 - 1 :=
  compareU32_serial_iff (by decide) (by decide)

/-- The successor of the largest `int`. -/
theorem compareU32_not_serial :
    (0x7FFFFFFF : U32) ≠ 0x80000000 ∧
      min ((0x80000000 : U32) - 0x7FFFFFFF).toNat ((0x7FFFFFFF : U32) - 0x80000000).toNat < 2 ^ 31 ∧
      ¬ SerialOrder 0x7FFFFFFF 0x80000000 := by
  refine ⟨by decide, by decide, fun h => ?_⟩
  have hneg : compareU32 0x7FFFFFFF 0x80000000 < 0 := h.negative.mpr (by decide)
  exact absurd hneg (by decide)

end NetCore
