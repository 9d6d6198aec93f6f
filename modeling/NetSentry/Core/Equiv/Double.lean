import Mathlib.Algebra.Order.Field.Basic
import Mathlib.Data.Rat.Cast.Order
import Mathlib.Tactic.FieldSimp
import Mathlib.Tactic.Ring
import NetSentry.Core.ConfigManager

/-!
# What is stored for a decimal number

`stod` reads the numerals that `parseYaml` takes for a `double`.

* `stod_nearest`: the number that it returns has the sign of the numeral, and no `double` is closer.
* `stod_eq_none_iff`: it throws where the numeral is half a step or more beyond the greatest
  `double`, and where it is none and lies below the normal ones.
-/

namespace NetSentry.ConfigManager

open Bytes

/-- The value of the digits before and after the point. -/
def numeral (whole fraction : Bytes) : ℚ :=
  digitsValue (whole ++ fraction) / (10 ^ fraction.length : ℕ)

/-- The value of a magnitude. -/
def magnitudeValue (x : BinaryFloat 52 2045) : ℚ := x.units / Double.unitsOfOne

variable {value whole fraction : Bytes}

theorem unitsOfOne_pos : 0 < Double.unitsOfOne := by
  unfold Double.unitsOfOne
  positivity

/-- The distance of two quotients, without denominators. -/
theorem abs_div_sub_div_mul (u m : ℕ) {one d : ℕ} (hone : 0 < one) (hd : 0 < d) :
    |(u / one : ℚ) - m / d| * (one * d) = (|(u * d : ℤ) - (m * one : ℕ)| : ℤ) := by
  have hone' : (0 : ℚ) < one := Nat.cast_pos.mpr hone
  have hd' : (0 : ℚ) < d := Nat.cast_pos.mpr hd
  rw [← abs_of_pos (mul_pos hone' hd'), ← abs_mul]
  push_cast
  congr 1
  field_simp

/-- **The nearest `double`** is what a numeral is read as. -/
theorem stod_nearest (hmatch : matchDecimal value = some (whole, fraction)) {x : Double}
    (h : stod value = some x) :
    x.negative = decide (value.head? = some 45) ∧ ∀ y : BinaryFloat 52 2045,
      |magnitudeValue x.magnitude - numeral whole fraction|
        ≤ |magnitudeValue y - numeral whole fraction| := by
  rw [stod, hmatch, Option.bind_some] at h
  dsimp only at h
  split_ifs at h
  obtain ⟨magnitude, hround, rfl⟩ := Option.map_eq_some_iff.mp h
  refine ⟨rfl, fun y => ?_⟩
  have hden : 0 < 10 ^ fraction.length := Nat.pow_pos (by decide)
  have hscale : (0 : ℚ) < Double.unitsOfOne * (10 ^ fraction.length : ℕ) :=
    mul_pos (Nat.cast_pos.mpr unitsOfOne_pos) (Nat.cast_pos.mpr hden)
  have hnearest := BinaryFloat.round_nearest hden hround y
  have hdistance := fun u => abs_div_sub_div_mul u (digitsValue (whole ++ fraction))
    unitsOfOne_pos hden
  rw [← mul_le_mul_iff_left₀ hscale, magnitudeValue, magnitudeValue, numeral, hdistance,
    hdistance]
  exact_mod_cast hnearest

/-- Half a step and more beyond the greatest `double`. -/
theorem le_div_iff_of_greatest (n : ℕ) {d : ℕ} (hd : 0 < d) :
    2 ^ 1024 - 2 ^ 970 ≤ (n / d : ℚ)
      ↔ (2 ^ 54 - 1) * (d * 2 ^ 2045) ≤ 2 * (n * Double.unitsOfOne) := by
  have hgreatest : (2 : ℚ) ^ 1024 - 2 ^ 970 = (2 ^ 54 - 1 : ℕ) * (2 ^ 970 : ℕ) := by
    have hpow : (2 : ℚ) ^ 1024 = 2 ^ 54 * 2 ^ 970 := pow_add 2 54 970
    rw [hpow]
    generalize 970 = k
    push_cast
    ring
  have htop : 2 ^ 2045 = 2 ^ 970 * (2 * Double.unitsOfOne) := by
    rw [Double.unitsOfOne, ← pow_succ', ← pow_add]
  have hone : 0 < 2 * Double.unitsOfOne := Nat.mul_pos Nat.two_pos unitsOfOne_pos
  rw [hgreatest, htop, le_div_iff₀ (Nat.cast_pos.mpr hd)]
  generalize 2 ^ 970 = g
  generalize 2 ^ 54 - 1 = s
  generalize Double.unitsOfOne = one at hone
  have hcancel : s * (d * (g * (2 * one))) ≤ 2 * (n * one) ↔ s * g * d ≤ n := by
    rw [show s * (d * (g * (2 * one))) = s * g * d * (2 * one) by ring,
      show 2 * (n * one) = n * (2 * one) by ring]
    exact Nat.mul_le_mul_right_iff hone
  rw [hcancel]
  exact_mod_cast Iff.rfl

/-- Below the normal numbers, also when it is rounded to 53 bits. -/
theorem div_lt_iff_of_least (n : ℕ) {d : ℕ} (hd : 0 < d) :
    (n / d : ℚ) < 1 / 2 ^ 1022 - 1 / 2 ^ 1076
      ↔ 4 * (n * Double.unitsOfOne) < (2 ^ 54 - 1) * d := by
  have hpow : (2 : ℚ) ^ 1076 = 2 ^ 54 * 2 ^ 1022 := pow_add 2 54 1022
  have hunits : ((4 * Double.unitsOfOne : ℕ) : ℚ) = 2 ^ 1076 := by
    unfold Double.unitsOfOne
    rw [show (4 : ℕ) = 2 ^ 2 from rfl, ← pow_add, Nat.cast_pow]
    rfl
  have hleast : (1 : ℚ) / 2 ^ 1022 - 1 / 2 ^ 1076
      = (2 ^ 54 - 1 : ℕ) / (4 * Double.unitsOfOne : ℕ) := by
    have hpos : (0 : ℚ) < 2 ^ 1022 := by positivity
    rw [hunits, hpow]
    generalize (2 : ℚ) ^ 1022 = g at hpos
    push_cast
    field_simp
    norm_num
  have hone : 0 < 4 * Double.unitsOfOne := Nat.mul_pos (by decide) unitsOfOne_pos
  rw [hleast, div_lt_div_iff₀ (Nat.cast_pos.mpr hd) (Nat.cast_pos.mpr hone)]
  generalize 2 ^ 54 - 1 = s
  generalize Double.unitsOfOne = one
  rw [show 4 * (n * one) = n * (4 * one) by ring]
  exact_mod_cast Iff.rfl

/-- A numeral below the normal numbers is a `double` when it is a number of units. -/
theorem exists_magnitudeValue_iff
    (htiny : 4 * (digitsValue (whole ++ fraction) * Double.unitsOfOne)
      < (2 ^ 54 - 1) * 10 ^ fraction.length) :
    (∃ y : BinaryFloat 52 2045, magnitudeValue y = numeral whole fraction)
      ↔ digitsValue (whole ++ fraction) * Double.unitsOfOne % 10 ^ fraction.length = 0 := by
  have hden : 0 < 10 ^ fraction.length := Nat.pow_pos (by decide)
  have hone := unitsOfOne_pos
  have hvalue : ∀ u : ℕ, (u / Double.unitsOfOne : ℚ) = numeral whole fraction
      ↔ u * 10 ^ fraction.length = digitsValue (whole ++ fraction) * Double.unitsOfOne := by
    intro u
    rw [numeral, div_eq_div_iff (Nat.cast_pos.mpr hone).ne' (Nat.cast_pos.mpr hden).ne']
    exact_mod_cast Iff.rfl
  rw [← Nat.dvd_iff_mod_eq_zero]
  constructor
  · rintro ⟨y, hy⟩
    exact ⟨y.units, by rw [← (hvalue y.units).mp hy, mul_comm]⟩
  · rintro ⟨u, hu⟩
    have hshort : u < 2 ^ 53 := by
      rw [hu, mul_comm _ u, ← mul_assoc] at htiny
      have hlt := Nat.lt_of_mul_lt_mul_right htiny
      omega
    refine ⟨⟨u, 0, hshort, .inl rfl, Nat.zero_le _⟩, (hvalue _).mpr ?_⟩
    rw [hu, BinaryFloat.units, pow_zero, mul_one, mul_comm]

/-- **Where `stod` throws**: from the greatest `double` and half a step on, and below the normal
ones where the numeral is not a `double`. -/
theorem stod_eq_none_iff (hmatch : matchDecimal value = some (whole, fraction)) :
    stod value = none ↔ 2 ^ 1024 - 2 ^ 970 ≤ numeral whole fraction ∨
      (numeral whole fraction < 1 / 2 ^ 1022 - 1 / 2 ^ 1076 ∧
        ∀ y : BinaryFloat 52 2045, magnitudeValue y ≠ numeral whole fraction) := by
  have hden : 0 < 10 ^ fraction.length := Nat.pow_pos (by decide)
  rw [stod, hmatch, Option.bind_some, numeral, le_div_iff_of_greatest _ hden,
    div_lt_iff_of_least _ hden, ← BinaryFloat.round_eq_none_iff hden, ← not_exists, ← numeral]
  dsimp only
  split_ifs with hsubnormal
  · obtain ⟨hinexact, htiny⟩ := hsubnormal
    exact ⟨fun _ => .inr ⟨htiny, mt (exists_magnitudeValue_iff htiny).mp hinexact⟩, fun _ => rfl⟩
  · rw [Option.map_eq_none_iff]
    refine ⟨.inl, fun h => h.resolve_right fun ⟨htiny, hnone⟩ => ?_⟩
    exact hsubnormal ⟨mt (exists_magnitudeValue_iff htiny).mpr hnone, htiny⟩

/-- Two numerals of one `double`. -/
example : stod (ascii "0.10000000000000000001") = stod (ascii "0.1") := by decide +kernel

/-- The two zeros. -/
example : stod (ascii "-0.0") ≠ stod (ascii "0.0") := by decide +kernel

end NetSentry.ConfigManager
