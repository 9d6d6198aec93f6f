import Mathlib.Data.Nat.Basic
import Mathlib.Data.List.Basic
import Mathlib.Tactic.IntervalCases

/-!
# Bytes, big-endian words and decimal numerals

Byte strings (`Bytes`) and the conversions between them and numbers: big-endian 16-bit words
(`be16`, `encode16`), the canonical decimal numerals (`decimal`, `signedDecimal`), and the numeral
readers of the C library (`strtol` and the range checks of `stoi` and `stoll`).

* `toNat_be16`, `be16_encode16`: the two directions of the word encoding.
* `digitsValue_decimal`: reading a decimal numeral gives the number back.
* `strtol_decimal`, `strtol_signedDecimal`: so does `strtol`.
-/

/-- A string of bytes. -/
abbrev Bytes := List UInt8

namespace Bytes

/-- The bytes of an ASCII text. -/
def ascii (s : String) : Bytes := s.toList.map fun c => c.toNat.toUInt8

/-! ### Big-endian words -/

/-- `(hi << 8) | lo`. -/
def be16 (hi lo : UInt8) : UInt16 := hi.toUInt16 <<< 8 ||| lo.toUInt16

/-- The two bytes of a word, the high one first. -/
def encode16 (w : UInt16) : Bytes := [(w >>> 8).toUInt8, w.toUInt8]

@[simp] theorem toNat_be16 (hi lo : UInt8) : (be16 hi lo).toNat = hi.toNat * 256 + lo.toNat := by
  have hhi := hi.toNat_lt
  have hlo := lo.toNat_lt
  rw [be16, UInt16.toNat_or, UInt16.toNat_shiftLeft, UInt8.toNat_toUInt16, UInt8.toNat_toUInt16,
    show (8 : UInt16).toNat % 16 = 8 from rfl, Nat.shiftLeft_eq, Nat.mod_eq_of_lt (by omega),
    ← Nat.shiftLeft_eq, ← Nat.shiftLeft_add_eq_or_of_lt (by omega), Nat.shiftLeft_eq]

@[simp] theorem length_encode16 (w : UInt16) : (encode16 w).length = 2 := rfl

theorem be16_encode16 (w : UInt16) : be16 (w >>> 8).toUInt8 w.toUInt8 = w := by
  have hw := w.toNat_lt
  apply UInt16.toNat_inj.mp
  rw [toNat_be16, UInt16.toNat_toUInt8, UInt16.toNat_toUInt8, UInt16.toNat_shiftRight,
    show (8 : UInt16).toNat % 16 = 8 from rfl, Nat.shiftRight_eq_div_pow]
  omega

theorem be16_inj {a b c d : UInt8} : be16 a b = be16 c d ↔ a = c ∧ b = d := by
  have hb := b.toNat_lt
  have hd := d.toNat_lt
  rw [← UInt16.toNat_inj, toNat_be16, toNat_be16, ← UInt8.toNat_inj, ← UInt8.toNat_inj]
  omega

/-! ### Length-prefixed strings -/

/-- A string short enough for a one-byte length prefix. -/
abbrev Short8 := { b : Bytes // b.length < 2 ^ 8 }

/-- A string short enough for a two-byte length prefix. -/
abbrev Short16 := { b : Bytes // b.length < 2 ^ 16 }

/-- The string after its one-byte length. -/
def frame8 (b : Bytes) : Bytes := b.length.toUInt8 :: b

/-- The string after its two-byte length. -/
def frame16 (b : Bytes) : Bytes := encode16 b.length.toUInt16 ++ b

@[simp] theorem length_frame8 (b : Bytes) : (frame8 b).length = 1 + b.length := by
  rw [frame8, List.length_cons, Nat.add_comm]

@[simp] theorem length_frame16 (b : Bytes) : (frame16 b).length = 2 + b.length := by
  rw [frame16, List.length_append, length_encode16]

theorem toNat_toUInt8_length (b : Short8) : b.1.length.toUInt8.toNat = b.1.length := by
  rw [Nat.toUInt8, UInt8.toNat_ofNat', Nat.mod_eq_of_lt b.2]

theorem toNat_toUInt16_length (b : Short16) : b.1.length.toUInt16.toNat = b.1.length := by
  rw [Nat.toUInt16, UInt16.toNat_ofNat', Nat.mod_eq_of_lt b.2]

/-! ### Decimal numerals -/

/-- `isspace` in the default locale: blank, tab, line feed, vertical tab, form feed and carriage
return. -/
def isSpace (c : UInt8) : Bool := c = 32 || (9 ≤ c && c ≤ 13)

/-- Blanks and tabs. -/
def isBlank (c : UInt8) : Bool := c = 32 || c = 9

/-- `isdigit`. -/
def isDigit (c : UInt8) : Bool := 48 ≤ c && c ≤ 57

/-- The digit character of `d < 10`. -/
def digitChar (d : ℕ) : UInt8 := (48 + d).toUInt8

/-- The canonical decimal numeral of `n`. -/
def decimal (n : ℕ) : Bytes :=
  if n < 10 then [digitChar n] else decimal (n / 10) ++ [digitChar (n % 10)]

/-- The canonical decimal numeral of an integer, with a minus sign where it is negative. -/
def signedDecimal (v : ℤ) : Bytes := if v < 0 then 45 :: decimal v.natAbs else decimal v.natAbs

/-- The number a string of digits stands for. -/
def digitsValue (s : Bytes) : ℕ := s.foldl (fun n c => 10 * n + (c.toNat - 48)) 0

theorem isDigit_digitChar {d : ℕ} (h : d < 10) : isDigit (digitChar d) = true := by
  interval_cases d <;> decide

theorem toNat_digitChar {d : ℕ} (h : d < 10) : (digitChar d).toNat - 48 = d := by
  interval_cases d <;> decide

theorem decimal_ne_nil (n : ℕ) : decimal n ≠ [] := by
  rw [decimal]
  split_ifs <;> simp

theorem forall_isDigit_decimal (n : ℕ) : ∀ c ∈ decimal n, isDigit c = true := by
  induction n using Nat.strong_induction_on with
  | _ n ih =>
    rw [decimal]
    split_ifs with h
    · simpa using isDigit_digitChar h
    · intro c hc
      rcases List.mem_append.mp hc with hc | hc
      · exact ih (n / 10) (by omega) c hc
      · rw [List.mem_singleton.mp hc]
        exact isDigit_digitChar (Nat.mod_lt n (by omega))

theorem forall_mem_signedDecimal (v : ℤ) : ∀ c ∈ signedDecimal v, c = 45 ∨ isDigit c = true := by
  intro c hc
  rw [signedDecimal] at hc
  split_ifs at hc with hneg
  · rcases List.mem_cons.mp hc with rfl | hc
    · exact Or.inl rfl
    · exact Or.inr (forall_isDigit_decimal _ c hc)
  · exact Or.inr (forall_isDigit_decimal _ c hc)

theorem digitsValue_append_singleton (s : Bytes) (c : UInt8) :
    digitsValue (s ++ [c]) = 10 * digitsValue s + (c.toNat - 48) := by
  rw [digitsValue, List.foldl_append]
  rfl

/-- **Reading a decimal numeral gives the number back.** -/
theorem digitsValue_decimal (n : ℕ) : digitsValue (decimal n) = n := by
  induction n using Nat.strong_induction_on with
  | _ n ih =>
    rw [decimal]
    split_ifs with h
    · simp [digitsValue, toNat_digitChar h]
    · rw [digitsValue_append_singleton, ih (n / 10) (by omega),
        toNat_digitChar (Nat.mod_lt n (by omega))]
      omega

/-- Zeros in front do not count. -/
theorem digitsValue_replicate_append (k : ℕ) (s : Bytes) :
    digitsValue (List.replicate k 48 ++ s) = digitsValue s := by
  induction k with
  | zero => rfl
  | succ k ih =>
    rw [List.replicate_succ, List.cons_append]
    exact ih

theorem length_decimal_le {n k : ℕ} (hk : 0 < k) (h : n < 10 ^ k) : (decimal n).length ≤ k := by
  induction k generalizing n with
  | zero => cases hk
  | succ k ih =>
    rw [decimal]
    split_ifs with hn
    · exact Nat.succ_le_succ (Nat.zero_le k)
    · have hk : 0 < k := by
        by_contra hzero
        obtain rfl := Nat.eq_zero_of_not_pos hzero
        exact hn h
      rw [List.length_append]
      exact Nat.succ_le_succ (ih hk (Nat.div_lt_of_lt_mul (by rwa [← pow_succ'])))

/-! ### Numeral readers -/

/-- The value the `strtol` family reads in base ten: white space, an optional sign, then the longest
run of digits; `none` where there is no digit. -/
def strtol (s : Bytes) : Option ℤ :=
  let s := s.dropWhile isSpace
  let neg := s.head? = some 45
  let s := if s.head? = some 45 ∨ s.head? = some 43 then s.tail else s
  let digits := s.takeWhile isDigit
  if digits = [] then none
  else some (if neg then -(digitsValue digits : ℤ) else (digitsValue digits : ℤ))

/-- `std::stoi`; `none` stands for the exceptions it throws. -/
def stoi (s : Bytes) : Option ℤ := (strtol s).filter fun v => -2 ^ 31 ≤ v ∧ v < 2 ^ 31

/-- `std::stoll`; `none` stands for the exceptions it throws. -/
def stoll (s : Bytes) : Option ℤ := (strtol s).filter fun v => -2 ^ 63 ≤ v ∧ v < 2 ^ 63

/-- `std::stoul`; `none` stands for the exceptions it throws.  A number with a minus sign is taken
modulo `2 ^ 64`. -/
def stoul (s : Bytes) : Option UInt64 :=
  ((strtol s).filter fun v => v.natAbs < 2 ^ 64).map UInt64.ofInt

theorem not_isSpace_of_isDigit {c : UInt8} (h : isDigit c = true) : isSpace c = false := by
  simp only [isDigit, Bool.and_eq_true, decide_eq_true_eq, UInt8.le_iff_toNat_le] at h
  simp only [isSpace, Bool.or_eq_false_iff, Bool.and_eq_false_iff, decide_eq_false_iff_not,
    UInt8.le_iff_toNat_le, ← UInt8.toNat_inj]
  simp only [UInt8.reduceToNat] at h ⊢
  omega

/-- `strtol` on a run of digits that the string ends or that something other than a digit ends. -/
theorem strtol_digits {ds : Bytes} (rest : Bytes) (hne : ds ≠ []) (hds : ∀ c ∈ ds, isDigit c = true)
    (hrest : ∀ c ∈ rest.head?, isDigit c = false) :
    strtol (ds ++ rest) = some (digitsValue ds : ℤ) := by
  obtain ⟨d, ds', rfl⟩ := List.exists_cons_of_ne_nil hne
  have hd : isDigit d = true := hds d (by simp)
  have hspace : (d :: ds' ++ rest).dropWhile isSpace = d :: ds' ++ rest := by
    rw [List.cons_append, List.dropWhile_cons_of_neg (by simp [not_isSpace_of_isDigit hd])]
  have hsign : d ≠ 45 ∧ d ≠ 43 := by
    constructor <;> (rintro rfl; exact absurd hd (by decide))
  have htake : (d :: ds' ++ rest).takeWhile isDigit = d :: ds' := by
    rw [List.takeWhile_append_of_pos hds]
    cases rest with
    | nil => simp
    | cons r rest => simp [hrest r (by simp)]
  unfold strtol
  simp only [hspace]
  simp only [List.cons_append, List.head?_cons, Option.some.injEq, hsign.1, hsign.2, or_self,
    if_false]
  rw [← List.cons_append, htake, if_neg (List.cons_ne_nil d ds')]

theorem strtol_neg_digits {ds : Bytes} (hne : ds ≠ []) (hds : ∀ c ∈ ds, isDigit c = true) :
    strtol (45 :: ds) = some (-(digitsValue ds : ℤ)) := by
  have hspace : (45 :: ds).dropWhile isSpace = 45 :: ds :=
    List.dropWhile_cons_of_neg (by decide)
  have htake : ds.takeWhile isDigit = ds := by
    have happend : (ds ++ []).takeWhile isDigit = ds ++ [].takeWhile isDigit :=
      List.takeWhile_append_of_pos hds
    rwa [List.takeWhile_nil, List.append_nil] at happend
  unfold strtol
  simp only [hspace, List.head?_cons, true_or, if_true, List.tail_cons]
  rw [htake, if_neg hne]

theorem strtol_decimal (n : ℕ) : strtol (decimal n) = some (n : ℤ) := by
  have h := strtol_digits [] (decimal_ne_nil n) (forall_isDigit_decimal n) (by simp)
  rwa [List.append_nil, digitsValue_decimal] at h

/-- **`strtol` reads back a signed numeral.** -/
theorem strtol_signedDecimal (v : ℤ) : strtol (signedDecimal v) = some v := by
  rw [signedDecimal]
  split_ifs with hneg
  · rw [strtol_neg_digits (decimal_ne_nil _) (forall_isDigit_decimal _), digitsValue_decimal]
    congr 1
    omega
  · rw [strtol_decimal]
    congr 1
    omega

end Bytes
