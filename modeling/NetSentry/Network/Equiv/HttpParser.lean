import NetSentry.Network.HttpMessage

/-!
# The header region of an HTTP head

* `headerLoop_eq`: the header loop splits its region at every line end and adds the pieces one by
  one, whatever the region.
* `substr_encodeHead`: the region ends where the last line of the head ends, whatever follows.
* `parseHttpRequest_defined`, `parseHttpResponse_defined`: no substring is out of range, whatever
  the data.
* `parse_of_accepts`, `parse_of_not_accepts`: on which packets the parser returns data.
* `headerLoop_encode`: on a well-formed head the loop returns the map of its header lines.
-/

namespace NetSentry.HttpParser

open Bytes Checked Search

/-! ### The header loop -/

theorem stripBlanks_eq (value : Bytes) : stripBlanks value = .ok (value.dropWhile isBlank) := by
  induction value with
  | nil =>
    rw [stripBlanks]
    rfl
  | cons c value ih =>
    rw [stripBlanks]
    by_cases hblank : isBlank c
    · rw [dif_pos (by simpa using hblank), List.dropWhile_cons_of_pos hblank, ← ih]
      rfl
    · rw [dif_neg (by simpa using hblank), List.dropWhile_cons_of_neg hblank]
      rfl

/-- One piece between two line ends: a key and its value where there is a colon. -/
def addField (fields : Finmap fun _ : Bytes => Bytes) (line : Bytes) :
    Finmap fun _ : Bytes => Bytes :=
  match find colon line with
  | some colonPos =>
    fields.insert (line.take colonPos) ((line.drop (colonPos + 1)).dropWhile isBlank)
  | none => fields

theorem headerLoop_of_le {headers : Bytes} {start : ℕ} (h : headers.length ≤ start)
    (fields : Finmap fun _ : Bytes => Bytes) : headerLoop headers start fields = .ok fields := by
  rw [headerLoop, dif_neg (by omega)]
  rfl

/-- One pass of the loop. -/
theorem headerLoop_of_lt {headers : Bytes} {start : ℕ} (h : start < headers.length)
    (fields : Finmap fun _ : Bytes => Bytes) :
    headerLoop headers start fields
      = headerLoop headers ((findFrom crlf headers start).getD headers.length + 2)
          (addField fields ((headers.drop start).take
            ((findFrom crlf headers start).getD headers.length - start))) := by
  conv_lhs => rw [headerLoop, dif_pos h]
  simp only [substr_of_le _ h.le, bind_ok, addField]
  cases hcolon : find colon
      ((headers.drop start).take ((findFrom crlf headers start).getD headers.length - start)) with
  | none => rfl
  | some colonPos =>
    have hle := find_add_length_le hcolon
    rw [show colon.length = 1 from rfl] at hle
    simp only
    rw [substr_of_le _ (Nat.zero_le _), substrFrom_of_le hle, bind_ok, bind_ok, stripBlanks_eq,
      bind_ok]
    rfl

/-- **The header loop** splits what is left at every line end and adds the pieces in order. -/
theorem headerLoop_eq (headers : Bytes) (start : ℕ) (fields : Finmap fun _ : Bytes => Bytes) :
    headerLoop headers start fields
      = .ok ((split crlf (headers.drop start)).foldl addField fields) := by
  -- a pass consumes the part up to the next line end, or all of it
  induction hm : headers.length - start using Nat.strong_induction_on generalizing start fields with
  | _ m ih =>
    rcases Nat.lt_or_ge start headers.length with hlt | hge
    · have hlen : (headers.drop start).length = headers.length - start := List.length_drop
      rw [headerLoop_of_lt hlt, findFrom_of_le hlt.le]
      cases hfind : find crlf (headers.drop start) with
      | none =>
        rw [Option.map_none, Option.getD_none, headerLoop_of_le (by omega),
          split_of_find_none hfind, List.take_of_length_le (by omega)]
        rfl
      | some i =>
        have hle := find_add_length_le hfind
        rw [show crlf.length = 2 from rfl] at hle
        rw [Option.map_some, Option.getD_some, ih _ (by omega) _ _ rfl,
          split_of_find_some (by decide) hfind, List.foldl_cons, List.drop_drop,
          Nat.add_sub_cancel, show start + (i + crlf.length) = i + start + 2 by
            rw [show crlf.length = 2 from rfl]; omega]
    · have hnil : split crlf [] = [[]] := split_of_find_none (by decide)
      rw [headerLoop_of_le hge, List.drop_of_length_le hge, hnil]
      rfl

/-! ### The header lines -/

theorem blank_ne_cr {c : UInt8} (h : isBlank c = true) : c ≠ 13 := by
  rintro rfl
  exact absurd h (by decide)

theorem crlf_not_infix_of_not_mem {l : Bytes} (h : 13 ∉ l) : ¬ crlf <:+: l := by
  intro hin
  exact h (hin.subset (by decide))

/-- A header line has no line end in it. -/
theorem HeaderLine.crlf_free (line : HeaderLine) : ¬ crlf <:+: line.encode := by
  have hows : 13 ∉ (58 : UInt8) :: line.ows := by
    simp only [List.mem_cons, not_or]
    exact ⟨by decide, fun h => blank_ne_cr (line.ows_blank 13 h) rfl⟩
  -- a carriage return at the end of the key or of the blanks would need a line feed behind it
  have hlast : (58 :: line.ows).getLast? ≠ some 13 := by
    intro h
    exact hows (List.mem_of_getLast? h)
  rw [HeaderLine.encode, ← List.cons_append]
  exact not_infix_append line.key_free
    (not_infix_append (crlf_not_infix_of_not_mem hows) line.value_free (.inr hlast))
    (.inl (by simp))

theorem HeaderLine.encode_ne_nil (line : HeaderLine) : line.encode ≠ [] := by
  simp [HeaderLine.encode]

/-- Adding a header line adds its key with its value. -/
theorem addField_encode (fields : Finmap fun _ : Bytes => Bytes) (line : HeaderLine) :
    addField fields line.encode = fields.insert line.key line.value := by
  have hvalue : (line.ows ++ line.value).dropWhile isBlank = line.value := by
    rw [List.dropWhile_append_of_pos line.ows_blank]
    cases hcases : line.value with
    | nil => rfl
    | cons c value =>
      have hc := line.value_head c (by rw [hcases]; rfl)
      rw [List.dropWhile_cons_of_neg (by simp [hc])]
  have hfind : find colon line.encode = some line.key.length :=
    find_singleton_append _ line.colon_not_mem_key
  unfold addField
  rw [hfind]
  simp only
  rw [HeaderLine.encode, List.take_left, ← List.drop_drop, List.drop_left, List.drop_one,
    List.tail_cons, hvalue]

theorem foldl_addField_encode (lines : List HeaderLine) (fields : Finmap fun _ : Bytes => Bytes) :
    (lines.map HeaderLine.encode).foldl addField fields
      = lines.foldl (fun m line => m.insert line.key line.value) fields := by
  induction lines generalizing fields with
  | nil => rfl
  | cons line lines ih => rw [List.map_cons, List.foldl_cons, addField_encode, ih, List.foldl_cons]

/-! ### The end of the head -/

/-- The lines of a head joined by line ends. -/
theorem encodeHead_eq (firstLine : Bytes) (lines : List HeaderLine) :
    encodeHead firstLine lines
      = crlf.intercalate (firstLine :: lines.map HeaderLine.encode) ++ crlf ++ crlf := by
  have hlines : ∀ firstLine : Bytes,
      firstLine ++ crlf ++ lines.flatMap (fun line => line.encode ++ crlf)
        = crlf.intercalate (firstLine :: lines.map HeaderLine.encode) ++ crlf := by
    induction lines with
    | nil => intro firstLine; simp [List.intercalate_singleton]
    | cons line lines ih =>
      intro firstLine
      rw [List.flatMap_cons, ih line.encode, List.map_cons, List.intercalate_cons_cons]
      simp
  rw [encodeHead, hlines]

/-- **The head ends where its last line ends**, whatever follows. -/
theorem substr_encodeHead {firstLine : Bytes} (hfirst : ¬ crlf <:+: firstLine)
    (lines : List HeaderLine) (body : Bytes) :
    substr (encodeHead firstLine lines ++ body) 0
        ((find (crlf ++ crlf) (encodeHead firstLine lines ++ body)).getD
          (encodeHead firstLine lines ++ body).length)
      = .ok (crlf.intercalate (firstLine :: lines.map HeaderLine.encode)) := by
  have hlines : ∀ m ∈ lines.map HeaderLine.encode, m ≠ [] ∧ ¬ crlf <:+: m := by
    intro m hm
    obtain ⟨line, _, rfl⟩ := List.mem_map.mp hm
    exact ⟨HeaderLine.encode_ne_nil line, HeaderLine.crlf_free line⟩
  have hdata : encodeHead firstLine lines ++ body
      = crlf.intercalate (firstLine :: lines.map HeaderLine.encode)
        ++ 13 :: 10 :: 13 :: 10 :: body := by
    rw [encodeHead_eq]
    simp [crlf]
  have hfind : find (crlf ++ crlf) (encodeHead firstLine lines ++ body)
      = some (crlf.intercalate (firstLine :: lines.map HeaderLine.encode)).length := by
    rw [hdata]
    exact find_twice_intercalate (by decide) body hfirst hlines
  rw [hfind, Option.getD_some, substr_of_le _ (Nat.zero_le _), hdata, List.drop_zero,
    List.take_left]

/-- The first line of a region of several lines. -/
theorem find_crlf_intercalate {firstLine : Bytes} (hfirst : ¬ crlf <:+: firstLine)
    (line : HeaderLine) (lines : List HeaderLine) :
    find crlf (crlf.intercalate (firstLine :: (line :: lines).map HeaderLine.encode))
      = some firstLine.length := by
  rw [List.map_cons, List.intercalate_cons_cons, List.append_assoc]
  exact find_pair_append _ (by decide) hfirst

theorem substr_firstLine (firstLine : Bytes) (line : HeaderLine) (lines : List HeaderLine) :
    substr (crlf.intercalate (firstLine :: (line :: lines).map HeaderLine.encode)) 0
        firstLine.length
      = .ok firstLine := by
  rw [substr_of_le _ (Nat.zero_le _), List.map_cons, List.intercalate_cons_cons, List.append_assoc,
    List.drop_zero, List.take_left]

/-- **The header lines of a head** give its header map. -/
theorem headerLoop_encode (firstLine : Bytes) (line : HeaderLine) (lines : List HeaderLine) :
    headerLoop (crlf.intercalate (firstLine :: (line :: lines).map HeaderLine.encode))
        (firstLine.length + 2) ∅
      = .ok (fieldMap (line :: lines)) := by
  have hfree : ∀ m ∈ (line :: lines).map HeaderLine.encode, ¬ crlf <:+: m := by
    intro m hm
    obtain ⟨l, _, rfl⟩ := List.mem_map.mp hm
    exact HeaderLine.crlf_free l
  have hdrop : (crlf.intercalate (firstLine :: (line :: lines).map HeaderLine.encode)).drop
      (firstLine.length + 2) = crlf.intercalate ((line :: lines).map HeaderLine.encode) := by
    rw [List.map_cons, List.intercalate_cons_cons, ← List.map_cons,
      show firstLine.length + 2 = (firstLine ++ crlf).length by simp [crlf], List.drop_left]
  have hsplit : split crlf (crlf.intercalate ((line :: lines).map HeaderLine.encode))
      = (line :: lines).map HeaderLine.encode :=
    split_intercalate_pair (by decide) (by simp) hfree
  rw [headerLoop_eq, hdrop, hsplit, foldl_addField_encode]
  rfl

/-! ### No substring is out of range -/

theorem parseHttpRequest_defined (data : Bytes) : Defined (parseHttpRequest data) := by
  unfold parseHttpRequest
  simp only [substr_of_le _ (Nat.zero_le _), bind_ok]
  split
  · exact defined_pure _
  · split
    · exact defined_pure _
    · split
      · exact defined_pure _
      · next methodEnd hmethodEnd _ uriEnd huriEnd =>
        obtain ⟨hle, hlt⟩ := findFrom_some huriEnd
        rw [show space.length = 1 from rfl] at hlt
        rw [substr_of_le _ (by omega), substrFrom_of_le hlt, headerLoop_eq]
        exact defined_pure _

theorem parseHttpResponse_defined (data : Bytes) : Defined (parseHttpResponse data) := by
  unfold parseHttpResponse
  simp only [substr_of_le _ (Nat.zero_le _), bind_ok]
  split
  · exact defined_pure _
  · split
    · exact defined_pure _
    · next httpVersionEnd hversionEnd =>
      have hlt := find_add_length_le hversionEnd
      rw [show space.length = 1 from rfl] at hlt
      rw [substr_of_le _ hlt, headerLoop_eq]
      exact defined_pure _

/-! ### The packets the parser accepts -/

/-- The port of an HTTP server. -/
def IsHttpPort (port : UInt16) : Prop := port = 80 ∨ port = 8080

instance (port : UInt16) : Decidable (IsHttpPort port) := inferInstanceAs (Decidable (_ ∨ _))

/-- The packets the parser takes for HTTP. -/
def Accepts (packet : PacketInfo) : Prop :=
  isHttpPacket packet = true ∧ (IsHttpPort packet.sourcePort ∨ IsHttpPort packet.destPort)

instance (packet : PacketInfo) : Decidable (Accepts packet) :=
  inferInstanceAs (Decidable (_ ∧ (_ ∨ _)))

theorem parse_of_accepts {packet : PacketInfo} (h : Accepts packet) :
    ∃ data, parse packet = .ok (some (.http data)) := by
  obtain ⟨response, hresponse⟩ := parseHttpResponse_defined packet.data
  obtain ⟨request, hrequest⟩ := parseHttpRequest_defined packet.data
  unfold parse
  -- both branches return data, and one of them is taken
  rw [h.1, if_neg (by decide), hresponse, hrequest]
  split_ifs with hsource hdest
  · exact ⟨response, rfl⟩
  · exact ⟨request, rfl⟩
  · exact absurd h.2 (not_or.mpr ⟨hsource, hdest⟩)

theorem parse_of_not_accepts {packet : PacketInfo} (h : ¬ Accepts packet) :
    parse packet = .ok none := by
  unfold parse
  split_ifs with hhttp hsource hdest
  · rfl
  · exact absurd ⟨by simpa using hhttp, .inl hsource⟩ h
  · exact absurd ⟨by simpa using hhttp, .inr hdest⟩ h
  · rfl

end NetSentry.HttpParser
