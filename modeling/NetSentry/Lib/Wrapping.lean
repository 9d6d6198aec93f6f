import Mathlib.Algebra.Group.Int.Defs
import Mathlib.Algebra.Group.Nat.Defs

/-!
# Counters that wrap around

A counter of 64 bits holds an integer modulo `2 ^ 64`, and `UInt64.ofInt` is that residue.  Sums and
differences of counters are the residues of the sums and differences of what they count.

* `emod_le_emod_add_iff`, `emod_sub_le_emod_iff`: when a sum or a difference of residues has not
  wrapped around.
* `ofInt_sub`, `ofInt_toNat`, `toNat_ofInt`: from counters to integers and back.
* `toNat_sub_le_iff`: a difference of counters is at most the first of them when it has not wrapped
  around.
-/

namespace Wrapping

/-! ### Residues -/

section Residues

variable {m : ℤ} (x y : ℤ)

theorem emod_range (hm : 0 < m) : 0 ≤ x % m ∧ x % m < m :=
  ⟨Int.emod_nonneg x (Int.ne_of_gt hm), Int.emod_lt_of_pos x hm⟩

/-- The two values of a sum of residues. -/
theorem add_emod_cases (hm : 0 < m) :
    (x % m + y % m < m ∧ (x + y) % m = x % m + y % m) ∨
      (m ≤ x % m + y % m ∧ (x + y) % m = x % m + y % m - m) := by
  have hx := emod_range x hm
  have hy := emod_range y hm
  rw [Int.add_emod]
  by_cases hlt : x % m + y % m < m
  · left
    exact ⟨hlt, Int.emod_eq_of_lt (by omega) hlt⟩
  · right
    refine ⟨by omega, ?_⟩
    rw [← Int.sub_emod_right, Int.emod_eq_of_lt (by omega) (by omega)]

/-- **A sum of residues** has not wrapped around when it is at least as great as one of them. -/
theorem emod_le_emod_add_iff (hm : 0 < m) : x % m ≤ (x + y) % m ↔ x % m + y % m < m := by
  have hy := emod_range y hm
  rcases add_emod_cases x y hm with ⟨hlt, heq⟩ | ⟨hge, heq⟩ <;> omega

/-- A sum of residues is zero when both are, or when it has just wrapped around. -/
theorem emod_add_eq_zero_iff (hm : 0 < m) :
    (x + y) % m = 0 ↔ x % m + y % m = 0 ∨ x % m + y % m = m := by
  have hx := emod_range x hm
  have hy := emod_range y hm
  rcases add_emod_cases x y hm with ⟨hlt, heq⟩ | ⟨hge, heq⟩ <;> omega

/-- **A difference of residues** has not wrapped around when it is at most the first of them. -/
theorem emod_sub_le_emod_iff (hm : 0 < m) : (x - y) % m ≤ x % m ↔ y % m ≤ x % m := by
  have hy := emod_range y hm
  have hsub := emod_range (x - y) hm
  have hadd := add_emod_cases (x - y) y hm
  rw [Int.sub_add_cancel] at hadd
  omega

end Residues

/-! ### Counters -/

theorem toNat_ofInt (z : ℤ) : ((UInt64.ofInt z).toNat : ℤ) = z % 2 ^ 64 := by
  have hz := emod_range z (show (0 : ℤ) < 2 ^ 64 by omega)
  unfold UInt64.ofInt
  rw [UInt64.toNat_ofNat_of_lt' (by change _ < 2 ^ 64; omega)]
  omega

theorem ofInt_toNat (a : UInt64) : UInt64.ofInt a.toNat = a := by
  apply UInt64.toNat_inj.mp
  have hlt : a.toNat < 2 ^ 64 := a.toNat_lt
  have hnat := toNat_ofInt a.toNat
  omega

theorem ofInt_sub (x y : ℤ) : UInt64.ofInt (x - y) = UInt64.ofInt x - UInt64.ofInt y := by
  rw [Int.sub_eq_add_neg, UInt64.ofInt_add, UInt64.ofInt_neg, ← UInt64.sub_eq_add_neg]

/-- **A difference of counters** is at most the first of them when it has not wrapped around. -/
theorem toNat_sub_le_iff (a b : UInt64) : (a - b).toNat ≤ a.toNat ↔ b.toNat ≤ a.toNat := by
  have hsub := emod_sub_le_emod_iff (m := 2 ^ 64) a.toNat b.toNat (by decide)
  rw [← toNat_ofInt, ← toNat_ofInt, ← toNat_ofInt, ofInt_sub, ofInt_toNat, ofInt_toNat] at hsub
  omega

end Wrapping
