import Mathlib.Data.BitVec

/-!
# Serial numbers

Numbers that wrap around, of any width.  `Before a b` says that the way from `a` forward to `b` is
shorter than half the circle; two numbers half a circle apart are not ordered.
-/

namespace NetCore
namespace Lib

variable {w : Nat} {a b : BitVec w}

/-- `b` lies less than half the circle ahead of `a`. -/
def Before (a b : BitVec w) : Prop := a ≠ b ∧ 2 * (b - a).toNat < 2 ^ w

instance (a b : BitVec w) : Decidable (Before a b) := inferInstanceAs (Decidable (_ ∧ _))

theorem not_before_self (a : BitVec w) : ¬ Before a a := fun h => h.1 rfl

-- The ways forward from `a` to `b` and from `b` to `a` make up the circle.
theorem toNat_sub_add_toNat_sub (h : a ≠ b) : (b - a).toNat + (a - b).toNat = 2 ^ w := by
  have ha := a.isLt
  have hb := b.isLt
  have hne : a.toNat ≠ b.toNat := fun heq => h (BitVec.eq_of_toNat_eq heq)
  rw [BitVec.toNat_sub, BitVec.toNat_sub]
  by_cases hle : a.toNat ≤ b.toNat
  · have hwrap : 2 ^ w - a.toNat + b.toNat = 2 ^ w + (b.toNat - a.toNat) := by omega
    rw [hwrap, Nat.add_mod_left, Nat.mod_eq_of_lt (by omega), Nat.mod_eq_of_lt (by omega)]
    omega
  · have hwrap : 2 ^ w - b.toNat + a.toNat = 2 ^ w + (a.toNat - b.toNat) := by omega
    rw [hwrap, Nat.add_mod_left, Nat.mod_eq_of_lt (by omega), Nat.mod_eq_of_lt (by omega)]
    omega

theorem Before.asymm (h : Before a b) : ¬ Before b a := by
  intro h'
  have hcircle := toNat_sub_add_toNat_sub h.1
  have hforth := h.2
  have hback := h'.2
  omega

-- Two numbers less than half the circle ahead of a third differ as their distances from it do.
theorem toInt_sub_of_span {base : BitVec w} (ha : 2 * (a - base).toNat < 2 ^ w)
    (hb : 2 * (b - base).toNat < 2 ^ w) :
    (a - b).toInt = ((a - base).toNat : Int) - (b - base).toNat := by
  have hshift : a - b = (a - base) - (b - base) := by
    rw [BitVec.sub_sub, BitVec.add_comm, BitVec.sub_add_cancel]
  rw [hshift, BitVec.toInt_sub, BitVec.toInt_eq_toNat_of_lt ha, BitVec.toInt_eq_toNat_of_lt hb]
  apply Int.bmod_eq_of_le_mul_two
  · omega
  · omega

-- One step back from a number that is not passed over.
theorem toNat_sub_add_one (h : a ≠ b) : (b - (a + 1)).toNat + 1 = (b - a).toNat := by
  have hcircle := toNat_sub_add_toNat_sub h
  have hback := (a - b).isLt
  have hlt := (b - a).isLt
  have hone : (1#w).toNat = 1 := by
    rw [BitVec.toNat_ofNat, Nat.mod_eq_of_lt (by omega)]
  have hle : 1#w ≤ b - a := by
    rw [BitVec.le_def, hone]
    omega
  have hsub : b - (a + 1#w) = b - a - 1#w := by
    rw [BitVec.sub_sub]
  show (b - (a + 1#w)).toNat + 1 = (b - a).toNat
  rw [hsub, BitVec.toNat_sub_of_le hle, hone]
  omega

-- A number before another, or half a circle apart, is before it with its successor, too.
theorem before_add_one (hne : a ≠ b) (hsucc : a + 1 ≠ b) (h : ¬ Before b a) :
    Before (a + 1) b := by
  have hcircle := toNat_sub_add_toNat_sub hne
  have hstep := toNat_sub_add_one hne
  have hfar : ¬ 2 * (a - b).toNat < 2 ^ w := fun hnear => h ⟨hne.symm, hnear⟩
  exact ⟨hsucc, by omega⟩

-- From width 2 on a number is before its successor.
theorem before_self_add_one (hw : 1 < w) (a : BitVec w) : Before a (a + 1) := by
  have hpow : 2 ^ 2 ≤ 2 ^ w := Nat.pow_le_pow_right (by omega) hw
  have hone : (1#w).toNat = 1 := by
    rw [BitVec.toNat_ofNat, Nat.mod_eq_of_lt (by omega)]
  have hdiff : a + 1#w - a = 1#w := by
    rw [BitVec.add_comm, BitVec.add_sub_cancel]
  refine ⟨fun heq => ?_, ?_⟩
  · have hzero : (1#w).toNat = 0 := by
      rw [← hdiff, show a + 1#w = a from heq.symm, BitVec.sub_self]
      exact BitVec.toNat_zero
    omega
  · show 2 * (a + 1#w - a).toNat < 2 ^ w
    rw [hdiff, hone]
    omega

end Lib
end NetCore
