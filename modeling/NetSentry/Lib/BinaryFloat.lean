import Mathlib.Algebra.Order.Ring.Abs
import Mathlib.Tactic.Linarith
import Mathlib.Tactic.Ring

/-!
# Binary floating-point numbers

A `BinaryFloat p top` is a magnitude of a binary format with `p + 1` bits of precision and the
exponents up to `top`, counted in units of the least positive one.  Each has one representation.

`round` rounds a quotient of natural numbers to the nearest magnitude, and to the even one of two.

* `round_nearest`: no other magnitude is closer.
* `round_eq_none_iff`: what is half a step or more beyond the greatest magnitude is out of range.
-/

/-- A significand and an exponent.  The numbers with the exponent zero may have fewer bits. -/
structure BinaryFloat (p top : ℕ) where
  significand : ℕ
  exponent : ℕ
  significand_lt : significand < 2 ^ (p + 1)
  normal : exponent = 0 ∨ 2 ^ p ≤ significand
  exponent_le : exponent ≤ top
deriving DecidableEq

namespace BinaryFloat

variable {p top n d : ℕ}

/-- The value, in units of the least positive one. -/
def units (x : BinaryFloat p top) : ℕ := x.significand * 2 ^ x.exponent

/-! ### The nearest integer -/

/-- The integer that is nearest to a quotient, and the even one of two. -/
def nearestEven (n d : ℕ) : ℕ :=
  if 2 * (n % d) < d ∨ 2 * (n % d) = d ∧ n / d % 2 = 0 then n / d else n / d + 1

theorem div_le_nearestEven (n d : ℕ) : n / d ≤ nearestEven n d := by
  unfold nearestEven
  split_ifs <;> omega

theorem nearestEven_le (n d : ℕ) : nearestEven n d ≤ n / d + 1 := by
  unfold nearestEven
  split_ifs <;> omega

/-- At most half a step away. -/
theorem abs_nearestEven_sub_le (hd : 0 < d) (n : ℕ) :
    2 * |(nearestEven n d * d : ℤ) - n| ≤ d := by
  have hdiv : (d : ℤ) * (n / d : ℕ) + (n % d : ℕ) = n := by exact_mod_cast Nat.div_add_mod n d
  have hlt : n % d < d := Nat.mod_lt n hd
  unfold nearestEven
  generalize n / d = q at hdiv ⊢
  generalize n % d = r at hdiv hlt ⊢
  split_ifs with hlow
  · have hdiff : (q * d : ℤ) - n = -r := by linarith
    rw [hdiff, abs_neg, Nat.abs_cast]
    omega
  · have hdiff : ((q + 1 : ℕ) * d : ℤ) - n = (d - r : ℕ) := by
      rw [Nat.cast_sub hlt.le]
      push_cast
      linarith
    rw [hdiff, Nat.abs_cast]
    omega

/-- The nearest integer reaches an even one from half a step below it on. -/
theorem two_mul_le_nearestEven_iff (hd : 0 < d) (n : ℕ) {m : ℕ} (hm : 0 < m) :
    2 * m ≤ nearestEven n d ↔ (4 * m - 1) * d ≤ 2 * n := by
  have hdiv : d * (n / d) + n % d = n := Nat.div_add_mod n d
  have hlt : n % d < d := Nat.mod_lt n hd
  unfold nearestEven
  generalize n / d = q at hdiv ⊢
  generalize n % d = r at hdiv hlt ⊢
  subst hdiv
  obtain ⟨k, hk⟩ : ∃ k, k + 1 = 4 * m := ⟨4 * m - 1, by omega⟩
  rw [← hk, Nat.add_sub_cancel]
  -- the cases are those of the integral part, two steps below it and more, or one step, or above
  rcases Nat.lt_trichotomy (q + 1) (2 * m) with hq | hq | hq
  · have hk' : 2 * q + 3 ≤ k := by omega
    have hmul : (2 * q + 3) * d ≤ k * d := Nat.mul_le_mul_right d hk'
    constructor
    · intro h
      split_ifs at h <;> omega
    · intro h
      nlinarith
  · have hk' : k = 2 * q + 1 := by omega
    subst hk'
    constructor
    · intro h
      split_ifs at h with hlow
      · omega
      · have hhalf : d ≤ 2 * r := by omega
        nlinarith
    · intro h
      have hhalf : d ≤ 2 * r := by nlinarith
      rw [if_neg (by omega)]
      omega
  · have hk' : k ≤ 2 * q := by omega
    have hmul : k * d ≤ 2 * q * d := Nat.mul_le_mul_right d hk'
    constructor
    · intro _
      nlinarith
    · intro _
      split_ifs <;> omega

/-- **No other integer is nearer.** -/
theorem abs_nearestEven_le (hd : 0 < d) (n : ℕ) (m : ℤ) :
    |(nearestEven n d * d : ℤ) - n| ≤ |m * d - n| := by
  have hhalf := abs_nearestEven_sub_le hd n
  by_cases hm : m = nearestEven n d
  · rw [hm]
  · -- the two integers are a step apart
    have hstep : (d : ℤ) ≤ |m * d - nearestEven n d * d| := by
      have hone : 1 ≤ |m - nearestEven n d| := Int.one_le_abs (sub_ne_zero.mpr hm)
      rw [← sub_mul, abs_mul, Nat.abs_cast]
      nlinarith
    have htriangle := abs_sub_le (m * d) n (nearestEven n d * d)
    rw [abs_sub_comm (n : ℤ)] at htriangle
    linarith

/-! ### Rounding -/

/-- The exponent for a quotient: the least one at which its integral part has at most `p + 1`
bits. -/
def exponentOf (p n d : ℕ) : ℕ := (n / d).log2 - p

/-- The significand, which is one bit longer where the quotient is rounded up to a power of two. -/
def significandOf (p n d : ℕ) : ℕ := nearestEven n (d * 2 ^ exponentOf p n d)

theorem div_exponentOf_lt (p n d : ℕ) : n / (d * 2 ^ exponentOf p n d) < 2 ^ (p + 1) := by
  rw [← Nat.div_div_eq_div_mul]
  apply Nat.div_lt_of_lt_mul
  rw [← pow_add]
  refine Nat.lt_log2_self.trans_le (Nat.pow_le_pow_right Nat.two_pos ?_)
  rw [exponentOf]
  omega

theorem le_div_exponentOf (h : exponentOf p n d ≠ 0) :
    2 ^ p ≤ n / (d * 2 ^ exponentOf p n d) := by
  have hne : n / d ≠ 0 := by
    intro hzero
    rw [exponentOf, hzero, Nat.log2_zero, Nat.zero_sub] at h
    exact h rfl
  rw [← Nat.div_div_eq_div_mul, Nat.le_div_iff_mul_le (Nat.two_pow_pos _), ← pow_add]
  refine le_trans (Nat.pow_le_pow_right Nat.two_pos ?_) (Nat.log2_self_le hne)
  unfold exponentOf at h ⊢
  omega

theorem significandOf_le (p n d : ℕ) : significandOf p n d ≤ 2 ^ (p + 1) :=
  (nearestEven_le n _).trans (div_exponentOf_lt p n d)

theorem normal_significandOf (p n d : ℕ) :
    exponentOf p n d = 0 ∨ 2 ^ p ≤ significandOf p n d := by
  by_cases h : exponentOf p n d = 0
  · exact .inl h
  · exact .inr ((le_div_exponentOf h).trans (div_le_nearestEven n _))

/-- The magnitude that is nearest to a quotient, and the even one of two; none where it would be
greater than every magnitude. -/
def round (p top n d : ℕ) : Option (BinaryFloat p top) :=
  if hshort : significandOf p n d < 2 ^ (p + 1) then
    if htop : exponentOf p n d ≤ top then
      some ⟨significandOf p n d, exponentOf p n d, hshort, normal_significandOf p n d, htop⟩
    else none
  else if htop : exponentOf p n d + 1 ≤ top then
    some ⟨2 ^ p, exponentOf p n d + 1, Nat.pow_lt_pow_right Nat.one_lt_two (Nat.lt_succ_self p),
      .inr (Nat.le_refl _), htop⟩
  else none

theorem units_round {x : BinaryFloat p top} (h : round p top n d = some x) :
    x.units = significandOf p n d * 2 ^ exponentOf p n d := by
  unfold round at h
  split_ifs at h with hshort
  · obtain rfl := Option.some.inj h
    rfl
  · obtain rfl := Option.some.inj h
    rw [(significandOf_le p n d).antisymm (not_lt.mp hshort), units, pow_succ, pow_succ]
    ring

/-- **The magnitude is the nearest one.** -/
theorem round_nearest (hd : 0 < d) {x : BinaryFloat p top} (h : round p top n d = some x)
    (y : BinaryFloat p top) : |(x.units * d : ℤ) - n| ≤ |(y.units * d : ℤ) - n| := by
  have hstep : 0 < d * 2 ^ exponentOf p n d := Nat.mul_pos hd (Nat.two_pow_pos _)
  have hnearest : ∀ m : ℕ, |(x.units * d : ℤ) - n|
      ≤ |((m * 2 ^ exponentOf p n d : ℕ) * d : ℤ) - n| := by
    intro m
    have hm := abs_nearestEven_le hstep n m
    rw [units_round h]
    push_cast at hm ⊢
    rw [significandOf]
    calc _ = |((nearestEven n (d * 2 ^ exponentOf p n d) : ℤ)
            * (d * 2 ^ exponentOf p n d)) - n| := by ring_nf
      _ ≤ _ := hm
      _ = _ := by ring_nf
  by_cases hexponent : exponentOf p n d ≤ y.exponent
  · -- a multiple of the step
    have hunits : y.units
        = y.significand * 2 ^ (y.exponent - exponentOf p n d) * 2 ^ exponentOf p n d := by
      rw [units, mul_assoc, ← pow_add, Nat.sub_add_cancel hexponent]
    rw [hunits]
    exact hnearest _
  · -- below the powers of two that are at most the quotient
    have hpow : y.units ≤ 2 ^ p * 2 ^ exponentOf p n d := by
      have hy : y.units ≤ 2 ^ (p + 1) * 2 ^ y.exponent :=
        Nat.mul_le_mul_right _ y.significand_lt.le
      refine hy.trans ?_
      rw [← pow_add, ← pow_add]
      exact Nat.pow_le_pow_right Nat.two_pos (by omega)
    have hle : 2 ^ p * 2 ^ exponentOf p n d * d ≤ n := by
      have hdiv := le_div_exponentOf (p := p) (n := n) (d := d) (by omega)
      rw [Nat.le_div_iff_mul_le hstep] at hdiv
      linarith
    have hpow' : y.units * d ≤ 2 ^ p * 2 ^ exponentOf p n d * d := Nat.mul_le_mul_right d hpow
    refine (hnearest (2 ^ p)).trans ?_
    have hle' : ((2 ^ p * 2 ^ exponentOf p n d : ℕ) * d : ℤ) ≤ n := by exact_mod_cast hle
    have hlow : (y.units * d : ℤ) ≤ ((2 ^ p * 2 ^ exponentOf p n d : ℕ) * d : ℤ) := by
      exact_mod_cast hpow'
    rw [abs_of_nonpos (by linarith), abs_of_nonpos (by linarith)]
    linarith

/-- **What is out of range** is half a step or more beyond the greatest magnitude. -/
theorem round_eq_none_iff (hd : 0 < d) :
    round p top n d = none ↔ (2 ^ (p + 2) - 1) * (d * 2 ^ top) ≤ 2 * n := by
  have hfour : (2 : ℕ) ^ (p + 2) = 4 * 2 ^ p := by ring
  have htwo : (2 : ℕ) ^ (p + 1) = 2 * 2 ^ p := by ring
  have hpos : 0 < 2 ^ p := Nat.two_pow_pos p
  have hstep : ∀ e, 0 < d * 2 ^ e := fun e => Nat.mul_pos hd (Nat.two_pow_pos e)
  have hmono : ∀ {e e'}, e ≤ e' → d * 2 ^ e ≤ d * 2 ^ e' :=
    fun h => Nat.mul_le_mul_left d (Nat.pow_le_pow_right Nat.two_pos h)
  have hlong : 2 ^ (p + 1) ≤ significandOf p n d
      ↔ (2 ^ (p + 2) - 1) * (d * 2 ^ exponentOf p n d) ≤ 2 * n := by
    rw [htwo, hfour, significandOf]
    exact two_mul_le_nearestEven_iff (hstep _) n hpos
  have hfits := div_exponentOf_lt p n d
  rw [Nat.div_lt_iff_lt_mul (hstep _), htwo] at hfits
  unfold round
  split_ifs with hshort htop htop
  · -- a significand that is short enough, and an exponent within range
    have hlow := mt hlong.mpr hshort.not_ge
    have hle := Nat.mul_le_mul_left (2 ^ (p + 2) - 1) (hmono htop)
    exact ⟨nofun, fun h => absurd (hle.trans h) hlow⟩
  · -- an exponent that is too great
    have hnormal := le_div_exponentOf (p := p) (n := n) (d := d) (by omega)
    rw [Nat.le_div_iff_mul_le (hstep _)] at hnormal
    have hle := Nat.mul_le_mul_left (2 ^ p) (hmono (not_le.mp htop))
    refine ⟨fun _ => ?_, fun _ => rfl⟩
    calc (2 ^ (p + 2) - 1) * (d * 2 ^ top) ≤ 2 ^ (p + 2) * (d * 2 ^ top) :=
          Nat.mul_le_mul_right _ (Nat.sub_le _ _)
      _ = 2 * (2 ^ p * (d * 2 ^ (top + 1))) := by ring
      _ ≤ 2 * n := Nat.mul_le_mul_left 2 (hle.trans hnormal)
  · -- a significand that is rounded up to the next exponent
    refine ⟨nofun, fun h => absurd h (not_le.mpr ?_)⟩
    have hle := Nat.mul_le_mul_left (2 ^ (p + 2) - 1) (hmono htop)
    refine lt_of_lt_of_le ?_ hle
    calc 2 * n < 2 * (2 * 2 ^ p * (d * 2 ^ exponentOf p n d)) :=
          Nat.mul_lt_mul_of_pos_left hfits Nat.two_pos
      _ = 2 * 2 ^ p * (d * 2 ^ (exponentOf p n d + 1)) := by ring
      _ ≤ (2 ^ (p + 2) - 1) * (d * 2 ^ (exponentOf p n d + 1)) :=
          Nat.mul_le_mul_right _ (by omega)
  · have hhigh := hlong.mp (not_lt.mp hshort)
    have hle := Nat.mul_le_mul_left (2 ^ (p + 2) - 1)
      (hmono (show top ≤ exponentOf p n d by omega))
    exact ⟨fun _ => hle.trans hhigh, fun _ => rfl⟩

end BinaryFloat
