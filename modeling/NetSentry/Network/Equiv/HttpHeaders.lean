import NetSentry.Network.Equiv.HttpParser

/-!
# The headers of any data

What the header loop returns for bytes that need not be a well-formed head.

* `headers_spec`: whatever the data, both functions end without a substring or an erasure that
  begins past the end, and where they get to their header loop they return the pieces of the header
  region, each split at its first colon.
-/

namespace NetSentry.HttpParser

open Bytes Checked Search

/-! ### The statement -/

/-- Where the first empty line begins, or the end of the data. -/
def headEnd (data : Bytes) : ℕ := (find (crlf ++ crlf) data).getD data.length

/-- The bytes from behind the first line end up to the first empty line, or to the end. -/
def headerRegion (data : Bytes) : Bytes :=
  (data.take (headEnd data)).drop ((find crlf data).getD data.length + 2)

/-- What stands before the first colon of a piece, and what stands behind it without the blanks that
it begins with. -/
def headerField (piece : Bytes) : Bytes × Bytes :=
  (piece.takeWhile (· ≠ 58), (piece.dropWhile (· ≠ 58)).tail.dropWhile isBlank)

/-- The map that the pieces with a colon give, where the last value of a key wins. -/
def headerMap (region : Bytes) : Finmap fun _ : Bytes => Bytes :=
  (((split crlf region).filter (58 ∈ ·)).map headerField).foldl
    (fun fields field => fields.insert field.1 field.2) ∅

/-- The first line. -/
def firstLine (data : Bytes) : Bytes := data.take ((find crlf data).getD data.length)

/-- The head has a line end. -/
def HasFirstLine (data : Bytes) : Prop := (find crlf (data.take (headEnd data))).isSome

/-- `parseHttpRequest` gets to its header loop: there are two spaces in the first line. -/
def RequestLoop (data : Bytes) : Prop :=
  HasFirstLine data ∧ ∃ methodEnd, find space (firstLine data) = some methodEnd ∧
    (findFrom space (firstLine data) (methodEnd + 1)).isSome

/-- `parseHttpResponse` gets to its header loop: there is a space in the first line. -/
def ResponseLoop (data : Bytes) : Prop :=
  HasFirstLine data ∧ (find space (firstLine data)).isSome

/-! ### Pieces -/

/-- **A piece** adds its field where it has a colon. -/
theorem addField_eq (fields : Finmap fun _ : Bytes => Bytes) (piece : Bytes) :
    addField fields piece
      = if 58 ∈ piece then fields.insert (headerField piece).1 (headerField piece).2
        else fields := by
  unfold addField
  by_cases hmem : 58 ∈ piece
  · obtain ⟨before, after, rfl, hbefore⟩ := List.eq_append_cons_of_mem hmem
    have hfree : ∀ c ∈ before, decide (c ≠ 58) = true := by
      intro c hc
      rw [decide_eq_true_eq]
      rintro rfl
      exact hbefore hc
    have hfind : find colon (before ++ 58 :: after) = some before.length :=
      find_singleton_append after hbefore
    have hkey : (before ++ 58 :: after).takeWhile (· ≠ 58) = before := by
      rw [List.takeWhile_append_of_pos hfree, List.takeWhile_cons_of_neg (by decide),
        List.append_nil]
    have hvalue : (before ++ 58 :: after).dropWhile (· ≠ 58) = 58 :: after := by
      rw [List.dropWhile_append_of_pos hfree, List.dropWhile_cons_of_neg (by decide)]
    rw [hfind, if_pos hmem]
    unfold headerField
    rw [hkey, hvalue]
    simp only [List.take_left, List.tail_cons]
    rw [← List.drop_drop, List.drop_left, List.drop_one, List.tail_cons]
  · have hnone : find colon piece = none := find_singleton_eq_none hmem
    rw [hnone, if_neg hmem]

theorem foldl_addField (pieces : List Bytes) (fields : Finmap fun _ : Bytes => Bytes) :
    pieces.foldl addField fields
      = ((pieces.filter (58 ∈ ·)).map headerField).foldl
        (fun fields field => fields.insert field.1 field.2) fields := by
  induction pieces generalizing fields with
  | nil => rfl
  | cons piece pieces ih =>
    rw [List.foldl_cons, ih, addField_eq]
    by_cases hcolon : 58 ∈ piece
    · rw [if_pos hcolon, List.filter_cons_of_pos (by simpa using hcolon), List.map_cons,
        List.foldl_cons]
    · rw [if_neg hcolon, List.filter_cons_of_neg (by simpa using hcolon)]

/-! ### The head -/

section Head

variable {data : Bytes} {lineEnd : ℕ}

/-- The first line end of a head is that of the data. -/
theorem find_crlf_of_head (h : find crlf (data.take (headEnd data)) = some lineEnd) :
    find crlf data = some lineEnd := by
  have happend := find_append_of_some (data.drop (headEnd data)) h
  rwa [List.take_append_drop] at happend

theorem take_lineEnd (h : find crlf (data.take (headEnd data)) = some lineEnd) :
    (data.take (headEnd data)).take lineEnd = firstLine data := by
  have hle := find_add_length_le h
  rw [List.length_take] at hle
  rw [firstLine, find_crlf_of_head h, List.take_take, Nat.min_eq_left (by omega)]
  rfl

/-- **The header loop**, from behind the first line end of a head. -/
theorem headerLoop_headerRegion (h : find crlf (data.take (headEnd data)) = some lineEnd) :
    headerLoop (data.take (headEnd data)) (lineEnd + 2) ∅
      = .ok (headerMap (headerRegion data)) := by
  rw [headerLoop_eq, foldl_addField, headerRegion, find_crlf_of_head h]
  rfl

end Head

/-! ### The two functions -/

/-- What the headers of a message are expected to be, where a loop over them is reached or not. -/
def HasHeaders (reached : Prop) (data : Bytes) (httpData : HttpData) : Prop :=
  (reached → httpData.headers = headerMap (headerRegion data)) ∧
  (¬ reached → httpData.headers = ∅)

theorem hasHeaders_of_reached {reached : Prop} {data : Bytes} {httpData : HttpData} (h : reached)
    (hheaders : httpData.headers = headerMap (headerRegion data)) :
    HasHeaders reached data httpData :=
  ⟨fun _ => hheaders, fun hnot => absurd h hnot⟩

theorem hasHeaders_of_not_reached {reached : Prop} {data : Bytes} {httpData : HttpData}
    (h : ¬ reached) (hheaders : httpData.headers = ∅) : HasHeaders reached data httpData :=
  ⟨fun hreached => absurd hreached h, fun _ => hheaders⟩

theorem parseHttpRequest_headers (data : Bytes) :
    ∃ request, parseHttpRequest data = .ok request ∧
      HasHeaders (RequestLoop data) data request := by
  unfold parseHttpRequest RequestLoop HasFirstLine
  simp only [substr_of_le _ (Nat.zero_le _), bind_ok, List.drop_zero]
  rw [← headEnd]
  cases hline : find crlf (data.take (headEnd data)) with
  | none => exact ⟨_, rfl, hasHeaders_of_not_reached (fun h => nomatch h.1) rfl⟩
  | some lineEnd =>
    dsimp only
    rw [take_lineEnd hline, headerLoop_headerRegion hline]
    cases hmethod : find space (firstLine data) with
    | none =>
      refine ⟨_, rfl, hasHeaders_of_not_reached ?_ rfl⟩
      rintro ⟨_, _, ⟨⟩, _⟩
    | some methodEnd =>
      dsimp only
      cases huri : findFrom space (firstLine data) (methodEnd + 1) with
      | none =>
        refine ⟨_, rfl, hasHeaders_of_not_reached ?_ rfl⟩
        rintro ⟨_, _, ⟨⟩, hsome⟩
        rw [huri] at hsome
        cases hsome
      | some uriEnd =>
        obtain ⟨hle, hlt⟩ := findFrom_some huri
        rw [show space.length = 1 from rfl] at hlt
        dsimp only
        rw [substr_of_le _ (by omega), substrFrom_of_le hlt]
        exact ⟨_, rfl, hasHeaders_of_reached ⟨rfl, methodEnd, rfl, by rw [huri]; rfl⟩ rfl⟩

theorem parseHttpResponse_headers (data : Bytes) :
    ∃ response, parseHttpResponse data = .ok response ∧
      HasHeaders (ResponseLoop data) data response := by
  unfold parseHttpResponse ResponseLoop HasFirstLine
  simp only [substr_of_le _ (Nat.zero_le _), bind_ok, List.drop_zero]
  rw [← headEnd]
  cases hline : find crlf (data.take (headEnd data)) with
  | none => exact ⟨_, rfl, hasHeaders_of_not_reached (fun h => nomatch h.1) rfl⟩
  | some lineEnd =>
    dsimp only
    rw [take_lineEnd hline, headerLoop_headerRegion hline]
    cases hversion : find space (firstLine data) with
    | none => exact ⟨_, rfl, hasHeaders_of_not_reached (fun h => nomatch h.2) rfl⟩
    | some httpVersionEnd =>
      have hlt := find_add_length_le hversion
      rw [show space.length = 1 from rfl] at hlt
      dsimp only
      rw [substr_of_le _ hlt]
      exact ⟨_, rfl, hasHeaders_of_reached ⟨rfl, rfl⟩ rfl⟩

/-- **The headers of any data.**  Both functions end without a substring that begins past the end,
and so does the loop that erases the blanks of a value.  Where a function gets to its header loop,
it returns the pieces of the header region, each split at its first colon, and so the two return the
same headers for the same region. -/
theorem headers_spec (data data' : Bytes) :
    (∀ value, stripBlanks value = .ok (value.dropWhile isBlank)) ∧
    ∃ request response,
      parseHttpRequest data = .ok request ∧ parseHttpResponse data' = .ok response ∧
      HasHeaders (RequestLoop data) data request ∧
      HasHeaders (ResponseLoop data') data' response ∧
      (RequestLoop data → ResponseLoop data' → headerRegion data = headerRegion data' →
        request.headers = response.headers) := by
  obtain ⟨request, hrequest, hrequestHeaders⟩ := parseHttpRequest_headers data
  obtain ⟨response, hresponse, hresponseHeaders⟩ := parseHttpResponse_headers data'
  refine ⟨stripBlanks_eq, request, response, hrequest, hresponse, hrequestHeaders,
    hresponseHeaders, ?_⟩
  intro hloop hloop' hregion
  rw [hrequestHeaders.1 hloop, hresponseHeaders.1 hloop', hregion]

end NetSentry.HttpParser
