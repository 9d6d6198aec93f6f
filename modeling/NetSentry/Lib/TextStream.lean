import NetSentry.Lib.Numeral

/-!
# Text input streams

Reading a text the way the C++ library does: line by line (`getlines`), and the formatted extraction
of words and unsigned numbers from a line (`IStream`).

* `getlines_endLines`: lines that are ended are read one after the other.
* `IStream.word_append`, `IStream.uint64_decimal`: a word and a number that stand in a line between
  blanks are read back.
-/

namespace Bytes

/-- The lines that successive calls of `std::getline` read; a last line need not be ended. -/
def getlines : Bytes → List Bytes
  | [] => []
  | c :: s =>
    if c = 10 then [] :: getlines s
    else
      match getlines s with
      | [] => [[c]]
      | line :: lines => (c :: line) :: lines

/-- The line that a line feed ends is read first. -/
theorem getlines_append {line : Bytes} (h : 10 ∉ line) (rest : Bytes) :
    getlines (line ++ 10 :: rest) = line :: getlines rest := by
  induction line with
  | nil => rfl
  | cons c line ih =>
    have hc : c ≠ 10 := by
      rintro rfl
      exact h (by simp)
    rw [List.cons_append, getlines, if_neg hc, ih fun hmem => h (List.mem_cons_of_mem c hmem)]

/-- A last line that is not ended. -/
theorem getlines_of_not_mem {line : Bytes} (h : 10 ∉ line) (hne : line ≠ []) :
    getlines line = [line] := by
  induction line with
  | nil => exact absurd rfl hne
  | cons c line ih =>
    have hc : c ≠ 10 := by
      rintro rfl
      exact h (by simp)
    rw [getlines, if_neg hc]
    cases hline : line with
    | nil => rfl
    | cons c' line' =>
      rw [← hline, ih (fun hmem => h (List.mem_cons_of_mem c hmem)) (by simp [hline])]

/-- The lines, each ended by a line feed. -/
def endLines (lines : List Bytes) : Bytes := lines.flatMap (· ++ [10])

/-- **Lines that are ended are read one after the other.** -/
theorem getlines_endLines {lines : List Bytes} (h : ∀ line ∈ lines, 10 ∉ line) (rest : Bytes) :
    getlines (endLines lines ++ rest) = lines ++ getlines rest := by
  induction lines with
  | nil => rfl
  | cons line lines ih =>
    have htext : endLines (line :: lines) ++ rest = line ++ 10 :: (endLines lines ++ rest) := by
      simp [endLines]
    rw [htext, getlines_append (h line (by simp)), ih fun l hl => h l (List.mem_cons_of_mem _ hl),
      List.cons_append]

/-- An input stream over a text: what has not been read, and whether no extraction has failed. -/
structure IStream where
  rest : Bytes
  good : Bool := true

namespace IStream

/-- `is >> word`. -/
def word (s : IStream) : Bytes × IStream :=
  if !s.good then ([], s)
  else
    let rest := s.rest.dropWhile isSpace
    let chars := rest.takeWhile fun c => !isSpace c
    (chars, { rest := rest.drop chars.length, good := chars ≠ [] })

/-- `is >> value` for a `uint64_t` that holds `old`.  A numeral may have a sign, and a negative one
is taken modulo `2 ^ 64`; one that is out of range gives the greatest value. -/
def uint64 (s : IStream) (old : UInt64) : UInt64 × IStream :=
  if !s.good then (old, s)
  else
    let rest := s.rest.dropWhile isSpace
    if rest = [] then (old, { rest := rest, good := false })
    else
      let neg := rest.head? = some 45
      let unsigned := if rest.head? = some 45 ∨ rest.head? = some 43 then rest.tail else rest
      let digits := unsigned.takeWhile isDigit
      let rest := unsigned.drop digits.length
      if digits = [] then (0, { rest := rest, good := false })
      else if 2 ^ 64 ≤ digitsValue digits then (-1, { rest := rest, good := false })
      else
        let value := (digitsValue digits).toUInt64
        (if neg then -value else value, { rest := rest })

/-- What comes before the first word or number is skipped. -/
theorem dropWhile_blanks {blanks chars : Bytes} (hblanks : ∀ c ∈ blanks, isSpace c = true)
    (hchars : ∀ c ∈ chars.head?, isSpace c = false) :
    (blanks ++ chars).dropWhile isSpace = chars := by
  rw [List.dropWhile_append_of_pos hblanks]
  cases chars with
  | nil => rfl
  | cons c chars => exact List.dropWhile_cons_of_neg (by simp [hchars c rfl])

/-- A run of characters, up to one that ends it. -/
theorem takeWhile_run {p : UInt8 → Bool} {chars rest : Bytes} (hchars : ∀ c ∈ chars, p c = true)
    (hrest : ∀ c ∈ rest.head?, p c = false) : (chars ++ rest).takeWhile p = chars := by
  rw [List.takeWhile_append_of_pos hchars]
  cases rest with
  | nil => exact List.append_nil chars
  | cons c rest => rw [List.takeWhile_cons_of_neg (by simp [hrest c rfl]), List.append_nil]

/-- **A word between blanks** is read. -/
theorem word_append (blanks : Bytes) {chars rest : Bytes} (hblanks : ∀ c ∈ blanks, isSpace c = true)
    (hne : chars ≠ []) (hchars : ∀ c ∈ chars, isSpace c = false)
    (hrest : ∀ c ∈ rest.head?, isSpace c = true) :
    word { rest := blanks ++ (chars ++ rest) } = (chars, { rest := rest }) := by
  have hskip : (blanks ++ (chars ++ rest)).dropWhile isSpace = chars ++ rest := by
    apply dropWhile_blanks hblanks
    intro c hc
    rw [List.head?_append_of_ne_nil _ hne] at hc
    exact hchars c (List.mem_of_mem_head? hc)
  have hword : (chars ++ rest).takeWhile (fun c => !isSpace c) = chars :=
    takeWhile_run (by simpa using hchars) (by simpa using hrest)
  simp only [word, hskip, hword, List.drop_left]
  simp [hne]

/-- **A number between blanks** is read. -/
theorem uint64_decimal {blanks rest : Bytes} (value old : UInt64)
    (hblanks : ∀ c ∈ blanks, isSpace c = true) (hrest : ∀ c ∈ rest.head?, isDigit c = false) :
    uint64 { rest := blanks ++ (decimal value.toNat ++ rest) } old = (value, { rest := rest }) := by
  have hdigits := forall_isDigit_decimal value.toNat
  obtain ⟨d, ds, hds⟩ := List.exists_cons_of_ne_nil (decimal_ne_nil value.toNat)
  have hd : isDigit d = true := hdigits d (hds ▸ List.mem_cons_self)
  have hskip : (blanks ++ (decimal value.toNat ++ rest)).dropWhile isSpace
      = decimal value.toNat ++ rest := by
    apply dropWhile_blanks hblanks
    rw [hds, List.cons_append, List.head?_cons]
    rintro c ⟨⟩
    exact not_isSpace_of_isDigit hd
  have htake : (decimal value.toNat ++ rest).takeWhile isDigit = decimal value.toNat :=
    takeWhile_run hdigits hrest
  -- a numeral has no sign
  have hhead : (decimal value.toNat ++ rest).head? = some d := by
    rw [hds, List.cons_append, List.head?_cons]
  have hsign : d ≠ 45 ∧ d ≠ 43 := by
    constructor <;> (rintro rfl; exact absurd hd (by decide))
  have hlt := value.toNat_lt
  simp only [uint64, hskip, hhead, Option.some.injEq, hsign.1, hsign.2, or_self, if_false, htake,
    List.drop_left, digitsValue_decimal, decimal_ne_nil, List.append_eq_nil_iff, false_and]
  simp [Nat.not_le.mpr hlt]

end IStream

end Bytes
