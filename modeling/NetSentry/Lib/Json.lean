import Mathlib.Algebra.Field.Rat
import Mathlib.Algebra.GroupWithZero.Basic
import Mathlib.Data.List.Basic
import Mathlib.Data.Rat.Defs
import NetSentry.Lib.Numeral

/-!
# Reading JSON

`Json.read` reads a text of JSON, as a list of bytes: the bytes of a string are taken as they are,
but for its escapes, and a number is the rational that its numeral stands for.

`ReadsAs text v`: wherever the text stands, before something that does not go on with a number, it
is read as `v`.

* `reads_string`, `reads_decimal`, `reads_fraction`: strings without escapes, and numerals.
* `reader_intercalate`: texts that are separated by commas and white space are read one after the
  other, by the reader of items and by that of members.
* `reads_array`, `reads_object`: arrays and objects of such texts.
-/

open Bytes

/-- The values of JSON. -/
inductive Json
  | null
  | bool (b : Bool)
  | number (v : ℚ)
  | string (s : Bytes)
  | array (items : List Json)
  | object (members : List (Bytes × Json))

namespace Json

/-! ### The reader -/

/-- The white space of JSON. -/
def isWhite (c : UInt8) : Bool := c = 32 || c = 9 || c = 10 || c = 13

def skipWhite (s : Bytes) : Bytes := s.dropWhile isWhite

/-- The value of a hexadecimal digit. -/
def hexValue (c : UInt8) : Option ℕ :=
  if 48 ≤ c ∧ c ≤ 57 then some (c.toNat - 48)
  else if 65 ≤ c ∧ c ≤ 70 then some (c.toNat - 55)
  else if 97 ≤ c ∧ c ≤ 102 then some (c.toNat - 87)
  else none

/-- Four hexadecimal digits. -/
def readUnit : Bytes → Option (ℕ × Bytes)
  | a :: b :: c :: d :: s => do
    let a ← hexValue a
    let b ← hexValue b
    let c ← hexValue c
    let d ← hexValue d
    some (((a * 16 + b) * 16 + c) * 16 + d, s)
  | _ => none

/-- What follows `\\u`: a character, or the two surrogates of one. -/
def readUnicode (s : Bytes) : Option (Bytes × Bytes) := do
  let (u, s) ← readUnit s
  if 0xD800 ≤ u ∧ u < 0xDC00 then
    match s with
    | 92 :: 117 :: s => do
      let (v, s) ← readUnit s
      if 0xDC00 ≤ v ∧ v < 0xE000 then
        let code := 0x10000 + (u - 0xD800) * 0x400 + (v - 0xDC00)
        some (String.utf8EncodeChar (Char.ofNat code), s)
      else none
    | _ => none
  else if 0xDC00 ≤ u ∧ u < 0xE000 then none
  else some (String.utf8EncodeChar (Char.ofNat u), s)

/-- What follows a backslash. -/
def readEscape : Bytes → Option (Bytes × Bytes)
  | [] => none
  | c :: s =>
    if c = 34 ∨ c = 92 ∨ c = 47 then some ([c], s)
    else if c = 98 then some ([8], s)
    else if c = 102 then some ([12], s)
    else if c = 110 then some ([10], s)
    else if c = 114 then some ([13], s)
    else if c = 116 then some ([9], s)
    else if c = 117 then readUnicode s
    else none

/-- What follows the quote at the beginning of a string. -/
def readString : ℕ → Bytes → Option (Bytes × Bytes)
  | 0, _ => none
  | _ + 1, [] => none
  | fuel + 1, c :: s =>
    if c = 34 then some ([], s)
    else if c = 92 then do
      let (chars, s) ← readEscape s
      let (rest, s) ← readString fuel s
      some (chars ++ rest, s)
    else if c < 32 then none
    else (readString fuel s).map fun r => (c :: r.1, r.2)

/-- The digits after the point, if there is one. -/
def readFraction (s : Bytes) : Option (Bytes × Bytes) :=
  if s.head? = some 46 then
    let digits := s.tail.takeWhile isDigit
    if digits = [] then none else some (digits, s.tail.dropWhile isDigit)
  else some ([], s)

/-- The exponent, if there is one. -/
def readExponent (s : Bytes) : Option (ℤ × Bytes) :=
  if s.head? = some 101 ∨ s.head? = some 69 then
    let signed := s.tail
    let unsigned := if signed.head? = some 45 ∨ signed.head? = some 43 then signed.tail else signed
    let digits := unsigned.takeWhile isDigit
    if digits = [] then none
    else
      let magnitude : ℤ := digitsValue digits
      some (if signed.head? = some 45 then -magnitude else magnitude, unsigned.dropWhile isDigit)
  else some (0, s)

/-- A numeral without a sign, which has no zeros in front. -/
def readMagnitude (s : Bytes) : Option (ℚ × Bytes) :=
  let whole := s.takeWhile isDigit
  if whole = [] ∨ (whole.head? = some 48 ∧ whole ≠ [48]) then none
  else do
    let (fraction, rest) ← readFraction (s.dropWhile isDigit)
    let (exponent, rest) ← readExponent rest
    let mantissa : ℚ := digitsValue whole + digitsValue fraction / 10 ^ fraction.length
    some (mantissa * 10 ^ exponent, rest)

def readNumber (s : Bytes) : Option (ℚ × Bytes) :=
  if s.head? = some 45 then (readMagnitude s.tail).map fun r => (-r.1, r.2) else readMagnitude s

def readLiteral (word : Bytes) (v : Json) (s : Bytes) : Option (Json × Bytes) :=
  if word <+: s then some (v, s.drop word.length) else none

mutual

/-- A value, and the white space in front of it. -/
def readValue : ℕ → Bytes → Option (Json × Bytes)
  | 0, _ => none
  | fuel + 1, s =>
    match skipWhite s with
    | [] => none
    | c :: s =>
      if c = 34 then (readString fuel s).map fun r => (.string r.1, r.2)
      else if c = 91 then
        if (skipWhite s).head? = some 93 then some (.array [], (skipWhite s).tail)
        else (readItems fuel s).map fun r => (.array r.1, r.2)
      else if c = 123 then
        if (skipWhite s).head? = some 125 then some (.object [], (skipWhite s).tail)
        else (readMembers fuel s).map fun r => (.object r.1, r.2)
      else if c = 116 then readLiteral (ascii "true") (.bool true) (c :: s)
      else if c = 102 then readLiteral (ascii "false") (.bool false) (c :: s)
      else if c = 110 then readLiteral (ascii "null") .null (c :: s)
      else (readNumber (c :: s)).map fun r => (.number r.1, r.2)

/-- The items of an array that has some, and its end. -/
def readItems : ℕ → Bytes → Option (List Json × Bytes)
  | 0, _ => none
  | fuel + 1, s => do
    let (item, s) ← readValue fuel s
    match skipWhite s with
    | [] => none
    | c :: s =>
      if c = 44 then (readItems fuel s).map fun r => (item :: r.1, r.2)
      else if c = 93 then some ([item], s)
      else none

/-- The members of an object that has some, and its end. -/
def readMembers : ℕ → Bytes → Option (List (Bytes × Json) × Bytes)
  | 0, _ => none
  | fuel + 1, s =>
    match skipWhite s with
    | [] => none
    | c :: s =>
      if c ≠ 34 then none
      else do
        let (name, s) ← readString fuel s
        if (skipWhite s).head? ≠ some 58 then none
        else do
          let (value, s) ← readValue fuel (skipWhite s).tail
          match skipWhite s with
          | [] => none
          | c :: s =>
            if c = 44 then (readMembers fuel s).map fun r => ((name, value) :: r.1, r.2)
            else if c = 125 then some ([(name, value)], s)
            else none

end

/-- The value of a text. -/
def read (text : Bytes) : Option Json := do
  let (v, rest) ← readValue (2 * text.length + 2) text
  if skipWhite rest = [] then some v else none

/-! ### Texts that are read -/

/-- What comes next does not go on with a number. -/
def Ends (rest : Bytes) : Prop :=
  ∀ c ∈ rest.head?, isDigit c = false ∧ c ≠ 46 ∧ c ≠ 101 ∧ c ≠ 69

instance (rest : Bytes) : Decidable (Ends rest) := rest.head?.decidableForallMem

/-- The text is read as the value. -/
def ReadsAs (text : Bytes) (v : Json) : Prop :=
  ∀ fuel rest, 2 * text.length < fuel → Ends rest → readValue fuel (text ++ rest) = some (v, rest)

/-- Nothing but white space. -/
def White (s : Bytes) : Prop := ∀ c ∈ s, isWhite c = true

instance (s : Bytes) : Decidable (White s) := List.decidableBAll _ s

theorem skipWhite_append {white : Bytes} (h : White white) (s : Bytes) :
    skipWhite (white ++ s) = skipWhite s :=
  List.dropWhile_append_of_pos h

theorem skipWhite_cons {c : UInt8} (h : isWhite c = false) (s : Bytes) :
    skipWhite (c :: s) = c :: s :=
  List.dropWhile_cons_of_neg (by simp [h])

theorem readValue_append {white : Bytes} (h : White white) (fuel : ℕ) (s : Bytes) :
    readValue fuel (white ++ s) = readValue fuel s := by
  cases fuel with
  | zero => rw [readValue, readValue]
  | succ fuel => rw [readValue, readValue, skipWhite_append h]

theorem readItems_append {white : Bytes} (h : White white) (fuel : ℕ) (s : Bytes) :
    readItems fuel (white ++ s) = readItems fuel s := by
  cases fuel with
  | zero => rw [readItems, readItems]
  | succ fuel => rw [readItems, readItems, readValue_append h]

theorem readMembers_append {white : Bytes} (h : White white) (fuel : ℕ) (s : Bytes) :
    readMembers fuel (white ++ s) = readMembers fuel s := by
  cases fuel with
  | zero => rw [readMembers, readMembers]
  | succ fuel => rw [readMembers, readMembers, skipWhite_append h]

/-- White space may stand in front. -/
theorem ReadsAs.append_left {white text : Bytes} {v : Json} (hwhite : White white)
    (h : ReadsAs text v) : ReadsAs (white ++ text) v := by
  intro fuel rest hfuel hends
  rw [List.append_assoc, readValue_append hwhite]
  rw [List.length_append] at hfuel
  exact h fuel rest (by omega) hends

theorem ends_of_isWhite {c : UInt8} (h : isWhite c = true) (s : Bytes) : Ends (c :: s) := by
  intro c' hc'
  obtain rfl : c = c' := Option.some.inj hc'
  simp only [isWhite, Bool.or_eq_true, decide_eq_true_eq] at h
  rcases h with ((rfl | rfl) | rfl) | rfl <;> decide

theorem ends_cons {c : UInt8} (hc : Ends [c]) (s : Bytes) : Ends (c :: s) := hc

/-- **White space and a delimiter end a number.** -/
theorem ends_white_append {white : Bytes} (h : White white) {c : UInt8} (hc : Ends [c])
    (s : Bytes) : Ends (white ++ c :: s) := by
  cases white with
  | nil => exact ends_cons hc s
  | cons w white => exact ends_of_isWhite (h w (by simp)) _

/-- **A text is read whole**, with white space after it. -/
theorem read_append {text white : Bytes} {v : Json} (h : ReadsAs text v) (hwhite : White white) :
    read (text ++ white) = some v := by
  have hends : Ends white := by
    cases white with
    | nil => intro c hc; cases hc
    | cons w white => exact ends_of_isWhite (hwhite w (by simp)) white
  have hskip : skipWhite white = [] := by
    have hall := skipWhite_append hwhite []
    rwa [List.append_nil] at hall
  rw [read, h _ white (by rw [List.length_append]; omega) hends, Option.bind_eq_bind,
    Option.bind_some]
  exact if_pos hskip

/-! ### Strings -/

/-- A string that stands for itself: no quotes, no backslashes and no control characters. -/
def PlainText (s : Bytes) : Prop := ∀ c ∈ s, c ≠ 34 ∧ c ≠ 92 ∧ 32 ≤ c

instance (s : Bytes) : Decidable (PlainText s) := List.decidableBAll _ s

theorem PlainText.append {s t : Bytes} (hs : PlainText s) (ht : PlainText t) : PlainText (s ++ t) :=
  fun c hc => (List.mem_append.mp hc).elim (hs c) (ht c)

theorem PlainText.intercalate {sep : Bytes} (hsep : PlainText sep) {texts : List Bytes}
    (h : ∀ s ∈ texts, PlainText s) : PlainText (sep.intercalate texts) := by
  induction texts with
  | nil => exact fun _ hc => absurd hc List.not_mem_nil
  | cons s texts ih =>
    have hs := h s List.mem_cons_self
    have hrest := ih fun t ht => h t (List.mem_cons_of_mem _ ht)
    cases texts with
    | nil => rwa [List.intercalate_singleton]
    | cons t texts =>
      rw [List.intercalate_cons_cons]
      exact (hs.append hsep).append hrest

/-- Digits stand for themselves. -/
theorem plainText_decimal (n : ℕ) : PlainText (decimal n) := by
  intro c hc
  have hdigit : 48 ≤ c ∧ c ≤ 57 := by simpa [isDigit] using forall_isDigit_decimal n c hc
  refine ⟨?_, ?_, UInt8.le_trans (by decide) hdigit.1⟩
  · rintro rfl
    exact absurd hdigit.1 (by decide)
  · rintro rfl
    exact absurd hdigit.2 (by decide)

theorem readString_append {s : Bytes} (h : PlainText s) {fuel : ℕ} (hfuel : s.length < fuel)
    (rest : Bytes) : readString fuel (s ++ 34 :: rest) = some (s, rest) := by
  induction s generalizing fuel with
  | nil =>
    obtain ⟨fuel, rfl⟩ := Nat.exists_eq_add_of_lt hfuel
    rw [List.nil_append, readString, if_pos rfl]
  | cons c s ih =>
    obtain ⟨hquote, hbackslash, hcontrol⟩ := h c (by simp)
    cases fuel with
    | zero => cases hfuel
    | succ fuel =>
      rw [List.cons_append, readString, if_neg hquote, if_neg hbackslash,
        if_neg (UInt8.not_lt.mpr hcontrol), ih (fun c hc => h c (List.mem_cons_of_mem _ hc))
        (Nat.lt_of_succ_lt_succ hfuel)]
      rfl

/-- **A string** that stands for itself. -/
theorem reads_string {s : Bytes} (h : PlainText s) : ReadsAs (34 :: s ++ [34]) (.string s) := by
  intro fuel rest hfuel _
  have htext : 34 :: s ++ [34] ++ rest = 34 :: (s ++ 34 :: rest) := by simp
  cases fuel with
  | zero => cases hfuel
  | succ fuel =>
    have hlen : s.length < fuel := by
      simp only [List.length_append, List.length_cons, List.length_nil] at hfuel
      omega
    rw [htext, readValue, skipWhite_cons (by decide)]
    simp only [if_true, readString_append h hlen, Option.map_some]

/-! ### Numbers -/

/-- A run of digits, up to something that is none. -/
theorem span_digits {ds rest : Bytes} (hds : ∀ c ∈ ds, isDigit c = true)
    (hrest : ∀ c ∈ rest.head?, isDigit c = false) :
    (ds ++ rest).takeWhile isDigit = ds ∧ (ds ++ rest).dropWhile isDigit = rest := by
  rw [List.takeWhile_append_of_pos hds, List.dropWhile_append_of_pos hds]
  cases rest with
  | nil => simp
  | cons c rest =>
    have hc : isDigit c = false := hrest c rfl
    rw [List.takeWhile_cons_of_neg (by simp [hc]), List.dropWhile_cons_of_neg (by simp [hc]),
      List.append_nil]
    exact ⟨rfl, rfl⟩

theorem decimal_of_head_zero (n : ℕ) (h : (decimal n).head? = some 48) : decimal n = [48] := by
  induction n using Nat.strong_induction_on with
  | _ n ih =>
    rw [decimal] at h ⊢
    split_ifs at h ⊢ with hn
    · rw [Option.some.inj h]
    · -- otherwise the digits in front are those of a positive number
      have hhead : (decimal (n / 10)).head? = some 48 := by
        rwa [List.head?_append_of_ne_nil _ (decimal_ne_nil _)] at h
      have hzero := congrArg digitsValue (ih (n / 10) (by omega) hhead)
      rw [digitsValue_decimal] at hzero
      have hpos : n / 10 = 0 := hzero
      omega

theorem readMagnitude_append {n : ℕ} {tail fraction rest : Bytes}
    (htail : ∀ c ∈ tail.head?, isDigit c = false)
    (hfraction : readFraction tail = some (fraction, rest)) (hends : Ends rest) :
    readMagnitude (decimal n ++ tail)
      = some ((n : ℚ) + digitsValue fraction / 10 ^ fraction.length, rest) := by
  obtain ⟨htake, hdrop⟩ := span_digits (forall_isDigit_decimal n) htail
  have hexponent : readExponent rest = some (0, rest) := by
    refine if_neg ?_
    rintro (h | h)
    · exact (hends _ h).2.2.1 rfl
    · exact (hends _ h).2.2.2 rfl
  have hzeros : ¬ (decimal n = [] ∨ ((decimal n).head? = some 48 ∧ decimal n ≠ [48])) := by
    rintro (h | ⟨hhead, hnot⟩)
    · exact decimal_ne_nil n h
    · exact hnot (decimal_of_head_zero n hhead)
  rw [readMagnitude]
  simp only [htake, hdrop, if_neg hzeros, hfraction, hexponent, Option.bind_eq_bind,
    Option.bind_some, digitsValue_decimal, zpow_zero, mul_one]

theorem not_isWhite_of_isDigit {c : UInt8} (h : isDigit c = true) : isWhite c = false := by
  by_contra hwhite
  simp only [isWhite, Bool.not_eq_false, Bool.or_eq_true, decide_eq_true_eq] at hwhite
  rcases hwhite with ((rfl | rfl) | rfl) | rfl <;> cases h

/-- What begins like a number is read as one. -/
theorem readValue_number {c : UInt8} (hc : c = 45 ∨ isDigit c = true) (fuel : ℕ) (s : Bytes) :
    readValue (fuel + 1) (c :: s) = (readNumber (c :: s)).map fun r => (.number r.1, r.2) := by
  have hno : isWhite c = false ∧ c ≠ 34 ∧ c ≠ 91 ∧ c ≠ 123 ∧ c ≠ 116 ∧ c ≠ 102 ∧ c ≠ 110 := by
    rcases hc with rfl | hc
    · decide
    · refine ⟨not_isWhite_of_isDigit hc, ?_, ?_, ?_, ?_, ?_, ?_⟩ <;> (rintro rfl; cases hc)
  obtain ⟨hwhite, h34, h91, h123, h116, h102, h110⟩ := hno
  rw [readValue, skipWhite_cons hwhite]
  simp only [h34, h91, h123, h116, h102, h110, if_false]

/-- A numeral begins with a digit. -/
theorem exists_decimal_cons (n : ℕ) : ∃ c s, decimal n = c :: s ∧ isDigit c = true := by
  obtain ⟨c, s, hdigits⟩ := List.exists_cons_of_ne_nil (decimal_ne_nil n)
  exact ⟨c, s, hdigits, forall_isDigit_decimal n c (by simp [hdigits])⟩

/-- A numeral is read as what its sign and its magnitude are read as. -/
theorem readValue_signed (negative : Bool) (n fuel : ℕ) {tail rest : Bytes} {v : ℚ}
    (h : readMagnitude (decimal n ++ tail) = some (v, rest)) :
    readValue (fuel + 1) ((if negative then [45] else []) ++ decimal n ++ tail)
      = some (.number ((if negative then -1 else 1) * v), rest) := by
  obtain ⟨c, s, hdigits, hc⟩ := exists_decimal_cons n
  rw [hdigits] at h ⊢
  cases negative with
  | true =>
    have hread : readNumber (45 :: (c :: s ++ tail)) = some (-v, rest) := by
      rw [readNumber, if_pos List.head?_cons, List.tail_cons, h, Option.map_some]
    rw [if_pos rfl, if_pos rfl, List.append_assoc, List.singleton_append,
      readValue_number (.inl rfl), hread, Option.map_some, neg_one_mul]
  | false =>
    have hread : readNumber (c :: (s ++ tail)) = some (v, rest) := by
      refine (if_neg fun hsign => ?_).trans h
      rw [Option.some.inj hsign] at hc
      cases hc
    rw [if_neg Bool.false_ne_true, if_neg Bool.false_ne_true, List.nil_append, List.cons_append,
      readValue_number (.inr hc), hread, Option.map_some, one_mul]

/-- **A natural number.** -/
theorem reads_decimal (n : ℕ) : ReadsAs (decimal n) (.number n) := by
  intro fuel rest hfuel hends
  have hread : readMagnitude (decimal n ++ rest) = some ((n : ℚ), rest) := by
    have h := readMagnitude_append (n := n) (fun c hc => (hends c hc).1)
      (if_neg fun hpoint => (hends _ hpoint).2.1 rfl) hends
    simpa [digitsValue] using h
  cases fuel with
  | zero => cases hfuel
  | succ fuel => simpa using readValue_signed false n fuel hread

/-- **A numeral with a point.** -/
theorem reads_fraction (negative : Bool) (n : ℕ) {ds : Bytes} (hne : ds ≠ [])
    (hds : ∀ c ∈ ds, isDigit c = true) :
    ReadsAs ((if negative then [45] else []) ++ decimal n ++ 46 :: ds)
      (.number ((if negative then -1 else 1) * ((n : ℚ) + digitsValue ds / 10 ^ ds.length))) := by
  intro fuel rest hfuel hends
  obtain ⟨htake, hdrop⟩ := span_digits hds fun c hc => (hends c hc).1
  have hfraction : readFraction (46 :: (ds ++ rest)) = some (ds, rest) := by
    rw [readFraction, if_pos List.head?_cons, List.tail_cons, htake, hdrop]
    exact if_neg hne
  have hpoint : ∀ c ∈ (46 :: (ds ++ rest)).head?, isDigit c = false := by
    intro c hc
    rw [← Option.some.inj hc]
    rfl
  have hread := readMagnitude_append (n := n) hpoint hfraction hends
  cases fuel with
  | zero => cases hfuel
  | succ fuel =>
    rw [List.append_assoc, List.cons_append]
    exact readValue_signed negative n fuel hread

/-! ### Separated texts -/

/-- Texts between two delimiters, separated by commas; white space may follow the first delimiter
and the commas, and precede the last delimiter. -/
def enclosed (first : UInt8) (white sep close : Bytes) (last : UInt8) (texts : List Bytes) :
    Bytes :=
  first :: white ++ (44 :: sep).intercalate texts ++ close ++ [last]

theorem enclosed_append (first : UInt8) (white sep close : Bytes) (last : UInt8)
    (texts : List Bytes) (rest : Bytes) :
    enclosed first white sep close last texts ++ rest
      = first :: (white ++ ((44 :: sep).intercalate texts ++ (close ++ last :: rest))) := by
  simp only [enclosed, List.append_assoc, List.cons_append, List.nil_append]

theorem length_enclosed (first : UInt8) (white sep close : Bytes) (last : UInt8)
    (texts : List Bytes) :
    (enclosed first white sep close last texts).length
      = white.length + ((44 :: sep).intercalate texts).length + close.length + 2 := by
  simp only [enclosed, List.length_append, List.length_cons, List.length_nil]
  omega

/-- Nothing but white space up to the last delimiter. -/
theorem skipWhite_enclosed_nil {white close : Bytes} (hwhite : White white) (hclose : White close)
    {last : UInt8} (hlast : isWhite last = false) (sep rest : Bytes) :
    skipWhite (white ++ ((44 :: sep).intercalate [] ++ (close ++ last :: rest)))
      = last :: rest := by
  rw [skipWhite_append hwhite, List.intercalate_nil, List.nil_append, skipWhite_append hclose,
    skipWhite_cons hlast]

section Separated

variable {α β : Type*} {reader : ℕ → Bytes → Option (List β × Bytes)} {text : α → Bytes}
  {entry : α → β} {sep close : Bytes} {last : UInt8} {as : List α}

/-- **A reader of separated texts** reads them all, where it reads each of them before the last
delimiter, and before a comma what it reads after it. -/
theorem reader_intercalate (hsep : ∀ fuel s, reader fuel (sep ++ s) = reader fuel s)
    (hclose : White close) (hends : Ends [last]) (hlast : isWhite last = false)
    (hreadLast : ∀ a ∈ as, ∀ fuel t rest, 2 * (text a).length < fuel → Ends t →
      skipWhite t = last :: rest → reader (fuel + 1) (text a ++ t) = some ([entry a], rest))
    (hreadMore : ∀ a ∈ as, ∀ fuel t u bs rest, 2 * (text a).length < fuel → Ends t →
      skipWhite t = 44 :: u → reader fuel u = some (bs, rest) →
        reader (fuel + 1) (text a ++ t) = some (entry a :: bs, rest))
    (hne : as ≠ []) (rest : Bytes) (fuel : ℕ)
    (hfuel : 2 * ((44 :: sep).intercalate (as.map text)).length + 1 < fuel) :
    reader fuel ((44 :: sep).intercalate (as.map text) ++ (close ++ last :: rest))
      = some (as.map entry, rest) := by
  induction as generalizing fuel with
  | nil => exact absurd rfl hne
  | cons a as ih =>
    cases fuel with
    | zero => cases hfuel
    | succ fuel =>
      cases as with
      | nil =>
        -- the last text: what follows it is read up to the delimiter
        rw [List.map_singleton, List.intercalate_singleton] at hfuel ⊢
        refine hreadLast a List.mem_cons_self fuel _ rest (by omega)
          (ends_white_append hclose hends rest) ?_
        rw [skipWhite_append hclose, skipWhite_cons hlast]
      | cons next as =>
        -- a comma follows, and then the texts that are left
        rw [List.map_cons, List.map_cons, List.intercalate_cons_cons, ← List.map_cons] at hfuel ⊢
        rw [List.length_append, List.length_append, List.length_cons] at hfuel
        have hrest := ih (fun b hb => hreadLast b (List.mem_cons_of_mem a hb))
          (fun b hb => hreadMore b (List.mem_cons_of_mem a hb)) (List.cons_ne_nil _ _) fuel
          (by omega)
        rw [List.append_assoc, List.append_assoc, List.cons_append]
        refine hreadMore a List.mem_cons_self fuel _ _ _ rest (by omega)
          (ends_cons (by decide) _) (skipWhite_cons (by decide) _) ?_
        rw [hsep, hrest]

end Separated

/-! ### Arrays -/

theorem readItems_last {fuel : ℕ} {s t rest : Bytes} {v : Json}
    (h : readValue fuel s = some (v, t)) (ht : skipWhite t = 93 :: rest) :
    readItems (fuel + 1) s = some ([v], rest) := by
  rw [readItems, h, Option.bind_eq_bind, Option.bind_some]
  dsimp only
  rw [ht]
  rfl

theorem readItems_more {fuel : ℕ} {s t u rest : Bytes} {v : Json} {vs : List Json}
    (h : readValue fuel s = some (v, t)) (ht : skipWhite t = 44 :: u)
    (hu : readItems fuel u = some (vs, rest)) :
    readItems (fuel + 1) s = some (v :: vs, rest) := by
  rw [readItems, h, Option.bind_eq_bind, Option.bind_some]
  dsimp only
  rw [ht]
  dsimp only
  rw [if_pos rfl, hu, Option.map_some]

theorem readValue_array_nil {s rest : Bytes} (hs : skipWhite s = 93 :: rest) (fuel : ℕ) :
    readValue (fuel + 1) (91 :: s) = some (.array [], rest) := by
  rw [readValue, skipWhite_cons (by decide)]
  dsimp only
  rw [if_neg (by decide), if_pos rfl, hs]
  rfl

/-- What is read as items does not begin like the end of an array. -/
theorem head_ne_of_readItems {fuel : ℕ} {s : Bytes} {r : List Json × Bytes}
    (h : readItems fuel s = some r) : (skipWhite s).head? ≠ some 93 := by
  intro hhead
  obtain ⟨t, ht⟩ := List.head?_eq_some_iff.mp hhead
  have hnone : ∀ fuel, readValue fuel s = none := by
    intro fuel
    cases fuel with
    | zero => rfl
    | succ fuel =>
      -- a bracket that closes is no numeral
      rw [readValue, ht]
      rfl
  cases fuel with
  | zero => cases h
  | succ fuel =>
    rw [readItems, hnone] at h
    cases h

theorem readValue_array {fuel : ℕ} {s rest : Bytes} {vs : List Json}
    (h : readItems fuel s = some (vs, rest)) :
    readValue (fuel + 1) (91 :: s) = some (.array vs, rest) := by
  rw [readValue, skipWhite_cons (by decide)]
  dsimp only
  rw [if_neg (by decide), if_pos rfl, if_neg (head_ne_of_readItems h), h, Option.map_some]

/-- **An array.** -/
theorem reads_array {white sep close : Bytes} (hwhite : White white) (hsep : White sep)
    (hclose : White close) {items : List (Bytes × Json)} (h : ∀ i ∈ items, ReadsAs i.1 i.2) :
    ReadsAs (enclosed 91 white sep close 93 (items.map Prod.fst))
      (.array (items.map Prod.snd)) := by
  intro fuel rest hfuel _
  rw [length_enclosed] at hfuel
  rw [enclosed_append]
  cases fuel with
  | zero => cases hfuel
  | succ fuel =>
    rcases List.eq_nil_or_concat items with rfl | ⟨_, _, hne⟩
    · exact readValue_array_nil (skipWhite_enclosed_nil hwhite hclose (by decide) sep rest) fuel
    · have hread := reader_intercalate (readItems_append hsep) hclose
        (by decide) (by decide)
        (fun i hi fuel t rest hfuel hends => readItems_last (h i hi fuel t hfuel hends))
        (fun i hi fuel t u vs rest hfuel hends => readItems_more (h i hi fuel t hfuel hends))
        (by simp [hne]) rest fuel (by omega)
      refine readValue_array ?_
      rw [readItems_append hwhite, hread]

/-! ### Objects -/

/-- A member of an object: its name, the text of its value, and the value. -/
structure Member where
  name : Bytes
  text : Bytes
  value : Json

/-- The text of the member itself. -/
def Member.layout (m : Member) : Bytes := 34 :: m.name ++ [34, 58, 32] ++ m.text

/-- What the object has for it. -/
def Member.entry (m : Member) : Bytes × Json := (m.name, m.value)

/-- The name stands for itself, and the text is read as the value. -/
structure Member.Reads (m : Member) : Prop where
  name : PlainText m.name
  text : ReadsAs m.text m.value

theorem readValue_object_nil {s rest : Bytes} (hs : skipWhite s = 125 :: rest) (fuel : ℕ) :
    readValue (fuel + 1) (123 :: s) = some (.object [], rest) := by
  rw [readValue, skipWhite_cons (by decide)]
  dsimp only
  rw [if_neg (by decide), if_neg (by decide), if_pos rfl, hs]
  rfl

/-- What is read as members does not begin like the end of an object. -/
theorem head_ne_of_readMembers {fuel : ℕ} {s : Bytes} {r : List (Bytes × Json) × Bytes}
    (h : readMembers fuel s = some r) : (skipWhite s).head? ≠ some 125 := by
  intro hhead
  obtain ⟨t, ht⟩ := List.head?_eq_some_iff.mp hhead
  cases fuel with
  | zero => cases h
  | succ fuel =>
    rw [readMembers, ht] at h
    cases h

theorem readValue_object {fuel : ℕ} {s rest : Bytes} {ms : List (Bytes × Json)}
    (h : readMembers fuel s = some (ms, rest)) :
    readValue (fuel + 1) (123 :: s) = some (.object ms, rest) := by
  rw [readValue, skipWhite_cons (by decide)]
  dsimp only
  rw [if_neg (by decide), if_neg (by decide), if_pos rfl, if_neg (head_ne_of_readMembers h), h,
    Option.map_some]

/-- The name and the value of a member. -/
theorem readString_member {m : Member} (hm : m.Reads) {fuel : ℕ}
    (hfuel : 2 * m.layout.length < fuel) {t : Bytes} (ht : Ends t) :
    ∃ s u, m.layout ++ t = 34 :: s ∧ readString fuel s = some (m.name, 58 :: u) ∧
      readValue fuel u = some (m.value, t) := by
  have htext : m.layout ++ t = 34 :: (m.name ++ 34 :: 58 :: ([32] ++ (m.text ++ t))) := by
    simp only [Member.layout, List.append_assoc, List.cons_append, List.nil_append]
  have hlen : m.layout.length = m.name.length + m.text.length + 4 := by
    simp only [Member.layout, List.length_append, List.length_cons, List.length_nil]
    omega
  refine ⟨_, _, htext, readString_append hm.name (by omega) _, ?_⟩
  rw [readValue_append (by decide)]
  exact hm.text fuel t (by omega) ht

theorem readMembers_last {m : Member} (hm : m.Reads) {fuel : ℕ}
    (hfuel : 2 * m.layout.length < fuel) {t rest : Bytes} (ht : Ends t)
    (hskip : skipWhite t = 125 :: rest) :
    readMembers (fuel + 1) (m.layout ++ t) = some ([m.entry], rest) := by
  obtain ⟨s, u, htext, hname, hvalue⟩ := readString_member hm hfuel ht
  have hcolon : skipWhite (58 :: u) = 58 :: u := skipWhite_cons (by decide) u
  rw [htext, readMembers, skipWhite_cons (by decide)]
  simp only [ne_eq, not_true_eq_false, if_false, hname, Option.bind_eq_bind, Option.bind_some,
    hcolon, List.head?_cons, List.tail_cons, hvalue, hskip]
  rfl

theorem readMembers_more {m : Member} (hm : m.Reads) {fuel : ℕ}
    (hfuel : 2 * m.layout.length < fuel) {t u rest : Bytes} {ms : List (Bytes × Json)}
    (ht : Ends t) (hskip : skipWhite t = 44 :: u) (hu : readMembers fuel u = some (ms, rest)) :
    readMembers (fuel + 1) (m.layout ++ t) = some (m.entry :: ms, rest) := by
  obtain ⟨s, w, htext, hname, hvalue⟩ := readString_member hm hfuel ht
  have hcolon : skipWhite (58 :: w) = 58 :: w := skipWhite_cons (by decide) w
  rw [htext, readMembers, skipWhite_cons (by decide)]
  simp only [ne_eq, not_true_eq_false, if_false, hname, Option.bind_eq_bind, Option.bind_some,
    hcolon, List.head?_cons, List.tail_cons, hvalue, hskip, hu, if_true, Option.map_some]
  rfl

/-- **An object**, laid out like an array. -/
theorem reads_object {white sep close : Bytes} (hwhite : White white) (hsep : White sep)
    (hclose : White close) {ms : List Member} (h : ∀ m ∈ ms, m.Reads) :
    ReadsAs (enclosed 123 white sep close 125 (ms.map Member.layout))
      (.object (ms.map Member.entry)) := by
  intro fuel rest hfuel _
  rw [length_enclosed] at hfuel
  rw [enclosed_append]
  cases fuel with
  | zero => cases hfuel
  | succ fuel =>
    rcases List.eq_nil_or_concat ms with rfl | ⟨_, _, hne⟩
    · exact readValue_object_nil (skipWhite_enclosed_nil hwhite hclose (by decide) sep rest) fuel
    · have hread := reader_intercalate (readMembers_append hsep) hclose
        (by decide) (by decide)
        (fun m hm fuel t rest hfuel hends => readMembers_last (h m hm) hfuel hends)
        (fun m hm fuel t u bs rest hfuel hends => readMembers_more (h m hm) hfuel hends)
        (by simp [hne]) rest fuel (by omega)
      refine readValue_object ?_
      rw [readMembers_append hwhite, hread]

end Json
