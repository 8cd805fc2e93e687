import Mathlib.Algebra.BigOperators.Group.List.Basic
import Mathlib.Algebra.GroupWithZero.Nat

/-!
# Totals and what is told of them

Two counters that wrap, what comes in and what goes out, beside the sums of what has been told of
each.  An amount that is added to a counter and told agrees with it afterwards if it agreed before.
-/

namespace NetCore.Lib

structure Ledger (w : Nat) where
  recv : BitVec w
  sent : BitVec w
  toldRecv : Nat
  toldSent : Nat

namespace Ledger

variable {w : Nat} {l : Ledger w}

-- Both counters have been told.
structure Told (l : Ledger w) : Prop where
  recv : BitVec.ofNat w l.toldRecv = l.recv
  sent : BitVec.ofNat w l.toldSent = l.sent

def receive (n : BitVec w) (l : Ledger w) : Ledger w :=
  { l with recv := l.recv + n, toldRecv := l.toldRecv + n.toNat }

def send (n : BitVec w) (l : Ledger w) : Ledger w :=
  { l with sent := l.sent + n, toldSent := l.toldSent + n.toNat }

theorem Told.receive (h : l.Told) (n : BitVec w) : (l.receive n).Told where
  recv := by
    show BitVec.ofNat w (l.toldRecv + n.toNat) = l.recv + n
    rw [BitVec.ofNat_add, h.recv, BitVec.ofNat_toNat, BitVec.setWidth_eq]
  sent := h.sent

theorem Told.send (h : l.Told) (n : BitVec w) : (l.send n).Told where
  recv := h.recv
  sent := by
    show BitVec.ofNat w (l.toldSent + n.toNat) = l.sent + n
    rw [BitVec.ofNat_add, h.sent, BitVec.ofNat_toNat, BitVec.setWidth_eq]

end Ledger

-- What says nothing adds nothing.
theorem sum_map_eq_zero {α : Type*} {size : α → Nat} {l : List α} (h : ∀ x ∈ l, size x = 0) :
    (l.map size).sum = 0 := by
  apply List.sum_eq_zero
  intro n hn
  obtain ⟨x, hx, rfl⟩ := List.mem_map.mp hn
  exact h x hx

end NetCore.Lib
