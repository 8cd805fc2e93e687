import Mathlib.Data.Nat.ModEq
import Mathlib.Algebra.BigOperators.Group.List.Basic

/-!
# Sums with end-around carry

In one's complement the carry out of the top comes in again at the bottom, so numbers up to `m` are
added modulo `m`, but with two zeros: a sum is 0 only if all that was added is 0, and `m` otherwise.
`residue m` picks the representative of a number, so that a sum may be folded at any point.
-/

namespace NetCore.Lib

variable {m : Nat}

-- The representative of `n` among `0, ..., m`.
def residue (m n : Nat) : Nat := if n = 0 then 0 else (n - 1) % m + 1

/-- Addition of two numbers up to `m`, the carry brought back in. -/
def addCarry (m a b : Nat) : Nat := if a + b ≤ m then a + b else a + b - m

-- One round of folding: what lies above the top digit is added at the bottom.
def foldRound (m n : Nat) : Nat := n % (m + 1) + n / (m + 1)

theorem residue_le (hm : 0 < m) (n : Nat) : residue m n ≤ m := by
  unfold residue
  split
  · exact Nat.zero_le m
  · exact Nat.mod_lt _ hm

theorem residue_le_self (n : Nat) : residue m n ≤ n := by
  have hmod := Nat.mod_le (n - 1) m
  unfold residue
  split <;> omega

theorem residue_modEq (m n : Nat) : residue m n ≡ n [MOD m] := by
  unfold residue
  split
  next hzero => rw [hzero]
  next hpos =>
    have hstep := (Nat.mod_modEq (n - 1) m).add_right 1
    rw [Nat.sub_add_cancel (Nat.pos_of_ne_zero hpos)] at hstep
    exact hstep

theorem residue_eq_zero {n : Nat} : residue m n = 0 ↔ n = 0 := by
  unfold residue
  split <;> simp_all

-- Two positive numbers up to `m` are equal if they are congruent.
theorem eq_of_modEq {a b : Nat} (ha : 0 < a) (ham : a ≤ m) (hb : 0 < b) (hbm : b ≤ m)
    (h : a ≡ b [MOD m]) : a = b := by
  have hpred : a - 1 ≡ b - 1 [MOD m] := by
    apply Nat.ModEq.add_right_cancel' 1
    rw [Nat.sub_add_cancel ha, Nat.sub_add_cancel hb]
    exact h
  have heq := hpred.eq_of_lt_of_lt (by omega) (by omega)
  omega

-- A number up to `m` that is congruent to `n`, and 0 only with `n`, is its representative.
theorem eq_residue {r n : Nat} (hle : r ≤ m) (hmod : r ≡ n [MOD m]) (hzero : r = 0 ↔ n = 0) :
    r = residue m n := by
  rcases Nat.eq_zero_or_pos r with hr | hr
  · rw [hr, hzero.mp hr]
    rfl
  · have hn : n ≠ 0 := fun hn => absurd (hzero.mpr hn) (by omega)
    have hpos : 0 < residue m n := Nat.pos_of_ne_zero (mt residue_eq_zero.mp hn)
    exact eq_of_modEq hr hle hpos (residue_le (by omega) n) (hmod.trans (residue_modEq m n).symm)

theorem residue_congr (hm : 0 < m) {a b : Nat} (h : a ≡ b [MOD m]) (hzero : a = 0 ↔ b = 0) :
    residue m a = residue m b :=
  eq_residue (residue_le hm a) ((residue_modEq m a).trans h) (residue_eq_zero.trans hzero)

theorem residue_of_le {n : Nat} (h : n ≤ m) : residue m n = n :=
  (eq_residue h .rfl .rfl).symm

-- A summand may be folded first.
theorem residue_add (hm : 0 < m) (a b : Nat) : residue m (residue m a + b) = residue m (a + b) := by
  apply residue_congr hm ((residue_modEq m a).add_right b)
  rw [Nat.add_eq_zero_iff, Nat.add_eq_zero_iff, residue_eq_zero]

theorem addCarry_eq {a b : Nat} (ha : a ≤ m) (hb : b ≤ m) : addCarry m a b = residue m (a + b) := by
  unfold addCarry
  split
  next hle => rw [residue_of_le hle]
  next hgt =>
    apply eq_residue (by omega)
    · have hback := Nat.add_modEq_right (n := m) (a := a + b - m)
      rw [Nat.sub_add_cancel (by omega)] at hback
      exact hback.symm
    · omega

-- A sum with end-around carry at every step is the sum folded at the end.
theorem foldl_addCarry (hm : 0 < m) {a : Nat} (ha : a ≤ m) {ws : List Nat} (hws : ∀ w ∈ ws, w ≤ m) :
    ws.foldl (addCarry m) a = residue m (a + ws.sum) := by
  induction ws generalizing a with
  | nil => rw [List.foldl_nil, List.sum_nil, Nat.add_zero, residue_of_le ha]
  | cons w ws ih =>
    obtain ⟨hw, hrest⟩ := List.forall_mem_cons.mp hws
    rw [List.foldl_cons, addCarry_eq ha hw, ih (residue_le hm _) hrest, residue_add hm,
      List.sum_cons, Nat.add_assoc]

-- A round of folding keeps the representative.
theorem residue_foldRound (hm : 0 < m) (n : Nat) : residue m (foldRound m n) = residue m n := by
  have hsplit := Nat.mod_add_div n (m + 1)
  have hbase : m + 1 ≡ 1 [MOD m] := Nat.add_modEq_left
  have hmod : foldRound m n ≡ n [MOD m] := by
    calc foldRound m n
      _ = n % (m + 1) + 1 * (n / (m + 1)) := by rw [foldRound, Nat.one_mul]
      _ ≡ n % (m + 1) + (m + 1) * (n / (m + 1)) [MOD m] :=
          (hbase.symm.mul_right _).add_left _
      _ = n := hsplit
  apply residue_congr hm hmod
  unfold foldRound
  constructor
  · intro hzero
    obtain ⟨hlow, hhigh⟩ := Nat.add_eq_zero_iff.mp hzero
    rw [← hsplit, hlow, hhigh, Nat.mul_zero]
  · rintro rfl
    rw [Nat.zero_mod, Nat.zero_div]

-- What a number is completed to by its complement.
theorem residue_complement (hm : 0 < m) (n : Nat) : residue m (n + (m - residue m n)) = m := by
  have hle := residue_le hm n
  rw [← residue_add hm, Nat.add_sub_cancel' hle, residue_of_le (Nat.le_refl m)]

end NetCore.Lib
