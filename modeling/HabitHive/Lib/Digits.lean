import Mathlib.Algebra.Order.Ring.Int
import Mathlib.Tactic.Linarith
import Mathlib.Tactic.Ring

/-!
# Splitting an integer at its last digit

Division that rounds toward zero splits an integer into the rest and the
last digit, and neither has the opposite sign of the other.  `split_iff`
says which pairs are splits.  So reading back what was split is the
identity, and splitting what was read is the identity on splits only.  A
number of two digits splits into them.
-/

namespace Digits

variable {k : Nat} {a b n : Int}

/-- The last digit is below the base and has the sign of the rest. -/
def Split (k : Nat) (a b : Int) : Prop := b.natAbs < k ∧ 0 ≤ a * b

instance (k : Nat) (a b : Int) : Decidable (Split k a b) :=
  inferInstanceAs (Decidable (b.natAbs < k ∧ 0 ≤ a * b))

/-- The split of an integer in base `k`. -/
theorem split_iff (hk : 0 < k) :
    n.tdiv k = a ∧ n.tmod k = b ↔ a * k + b = n ∧ Split k a b := by
  have hne : (k : Int) ≠ 0 := by omega
  have hpos : (0 : Int) ≤ k := by omega
  constructor
  · rintro ⟨rfl, rfl⟩
    refine ⟨Int.tdiv_mul_add_tmod n k, ?_⟩
    rcases Int.le_total 0 n with hn | hn
    · have hunique := (Int.tdiv_tmod_unique hn hne).mp ⟨rfl, rfl⟩
      have hdiv : 0 ≤ n.tdiv k := Int.tdiv_nonneg hn hpos
      exact ⟨by omega, mul_nonneg hdiv hunique.2.1⟩
    · have hunique := (Int.tdiv_tmod_unique' hn hne).mp ⟨rfl, rfl⟩
      have hneg : 0 ≤ (-n).tdiv k := Int.tdiv_nonneg (by omega) hpos
      rw [Int.neg_tdiv] at hneg
      exact ⟨by omega, mul_nonneg_of_nonpos_of_nonpos (by omega) hunique.2.2⟩
  · rintro ⟨rfl, hb, hsign⟩
    have hcomm : b + k * a = a * k + b := by ring
    rcases mul_nonneg_iff.mp hsign with ⟨ha, hb'⟩ | ⟨ha, hb'⟩
    · exact (Int.tdiv_tmod_unique (add_nonneg (mul_nonneg ha hpos) hb') hne).mpr
        ⟨hcomm, hb', by omega⟩
    · exact (Int.tdiv_tmod_unique' (add_nonpos (mul_nonpos_of_nonpos_of_nonneg ha hpos) hb')
        hne).mpr ⟨hcomm, by omega, hb'⟩

/-- Both parts of a number of two digits are digits. -/
theorem digits_lt (hnonneg : 0 ≤ n) (hlt : n < k * k) :
    (0 ≤ n.tdiv k ∧ n.tdiv k < k) ∧ 0 ≤ n.tmod k ∧ n.tmod k < k := by
  have hpos : (0 : Int) < k := by nlinarith [Int.natCast_nonneg k]
  rw [Int.tdiv_eq_ediv_of_nonneg hnonneg, Int.tmod_eq_emod_of_nonneg hnonneg]
  exact ⟨⟨Int.ediv_nonneg hnonneg hpos.le, Int.ediv_lt_of_lt_mul hpos hlt⟩,
    Int.emod_nonneg n hpos.ne', Int.emod_lt_of_pos n hpos⟩

end Digits
