import NetSentry.Api.QueryWords
import NetSentry.Api.RestApi

/-!
# The parameters of a query

* `parseQueryParams_words`: in words of 64 bits, and with as many passes as the query has bytes and
  two, `parseQueryParams` ends and gives the pieces between the `&`s, taken apart at their first
  `=`.
* `parseQueryParams_eq`: so it does with positions that are numbers.
* `paramsLoop_words`: the two loops do the same.
-/

namespace NetSentry.RestApi

open Bytes Checked Search

/-! ### The statement -/

/-- The key and the value of a piece of a query: what is before its first `=`, and what is after
it. -/
def pieceParam (piece : Bytes) : Option (Bytes × Bytes) :=
  if 61 ∈ piece then some (piece.takeWhile (· ≠ 61), (piece.dropWhile (· ≠ 61)).tail) else none

/-- The parameters with those of some pieces, in order. -/
def addPieces (params : Finmap fun _ : Bytes => Bytes) (pieces : List Bytes) :
    Finmap fun _ : Bytes => Bytes :=
  (pieces.filterMap pieceParam).foldl (fun params param => params.insert param.1 param.2) params

/-! ### Pieces -/

theorem pieceParam_append {key : Bytes} (h : 61 ∉ key) (value : Bytes) :
    pieceParam (key ++ 61 :: value) = some (key, value) := by
  have hkey : ∀ c ∈ key, decide (c ≠ 61) = true := by
    intro c hc
    exact decide_eq_true fun heq => h (heq ▸ hc)
  rw [pieceParam, if_pos (by simp), List.takeWhile_append_of_pos hkey,
    List.dropWhile_append_of_pos hkey, List.takeWhile_cons_of_neg (by simp),
    List.dropWhile_cons_of_neg (by simp), List.append_nil, List.tail_cons]

theorem pieceParam_of_not_mem {piece : Bytes} (h : 61 ∉ piece) : pieceParam piece = none :=
  if_neg h

theorem addPieces_cons (params : Finmap fun _ : Bytes => Bytes) (piece : Bytes)
    (pieces : List Bytes) :
    addPieces params (piece :: pieces) = addPieces (addPieces params [piece]) pieces := by
  rw [addPieces, addPieces, addPieces, ← List.foldl_append, ← List.filterMap_append,
    List.singleton_append]

/-- **A piece** is taken apart at its first `=`. -/
theorem addParam_eq (params : Finmap fun _ : Bytes => Bytes) (piece : Bytes) :
    addParam params piece = .ok (addPieces params [piece]) := by
  rw [addParam, addPieces, List.filterMap_cons, List.filterMap_nil]
  cases hfind : find [61] piece with
  | none =>
    have hno : 61 ∉ piece := by
      intro hmem
      obtain ⟨key, value, rfl, hkey⟩ := List.eq_append_cons_of_mem hmem
      rw [find_singleton_append value hkey] at hfind
      cases hfind
    rw [pieceParam_of_not_mem hno]
    rfl
  | some eqPos =>
    obtain ⟨key, value, rfl, hkey, rfl⟩ := find_singleton_some hfind
    have hlen : key.length + 1 ≤ (key ++ 61 :: value).length := by simp
    have hvalue : (key ++ 61 :: value).drop (key.length + 1) = value := by
      rw [← List.drop_drop, List.drop_left, List.drop_one, List.tail_cons]
    rw [pieceParam_append hkey]
    simp only [substr_of_le key.length (Nat.zero_le _), substrFrom_of_le hlen, bind_ok,
      List.drop_zero, List.take_left, hvalue]
    rfl

/-- A pass that has found the end of its piece. -/
theorem paramsLoop_some {query : Bytes} (params : Finmap fun _ : Bytes => Bytes) {start stop : ℕ}
    (h : start < query.length) (hstop) :
    paramsLoop query params start (some stop) hstop
      = paramsLoop query (addPieces params [(query.drop start).take (stop - start)]) (stop + 1)
          (some ((findFrom [38] query (stop + 1)).getD query.length))
          (fun h _ he => Option.mem_some_iff.mp he ▸ le_getD_findFrom h.le) := by
  rw [paramsLoop.eq_def, dif_pos h]
  simp only [substr_of_le _ h.le, bind_ok, addParam_eq]

theorem paramsLoop_of_le {query : Bytes} (params : Finmap fun _ : Bytes => Bytes) {start : ℕ}
    {stop : Option ℕ} (h : query.length ≤ start) (hstop) :
    paramsLoop query params start stop hstop = .ok params := by
  rw [paramsLoop.eq_def, dif_neg (not_lt.mpr h)]
  rfl

/-- **The loop** goes through the pieces that are left. -/
theorem paramsLoop_eq {query : Bytes} (params : Finmap fun _ : Bytes => Bytes) {start stop : ℕ}
    (h : start ≤ query.length) (hfound : (findFrom [38] query start).getD query.length = stop)
    (hstop) :
    paramsLoop query params start (some stop) hstop
      = .ok (addPieces params ((query.drop start).splitOn 38)) := by
  induction hm : query.length - start using Nat.strong_induction_on
    generalizing start stop params with
  | _ m ih =>
    rcases h.lt_or_eq with hstart | rfl
    · rw [paramsLoop_some params hstart]
      rw [findFrom_of_le h] at hfound
      cases hfind : find [38] (query.drop start) with
      | none =>
        -- the last piece
        rw [hfind] at hfound
        obtain rfl : query.length = stop := hfound
        have hno : 38 ∉ query.drop start := fun hmem =>
          find_eq_none_iff.mp hfind ((List.singleton_infix_iff _ _).mpr hmem)
        rw [paramsLoop_of_le _ (Nat.le_succ _), List.splitOn_eq_singleton hno,
          List.take_of_length_le (by rw [List.length_drop])]
      | some j =>
        rw [hfind] at hfound
        obtain rfl : j + start = stop := hfound
        obtain ⟨piece, rest, hpieces, hpiece, rfl⟩ := find_singleton_some hfind
        have hlen := congrArg List.length hpieces
        rw [List.length_drop, List.length_append, List.length_cons] at hlen
        have hrest : query.drop (piece.length + start + 1) = rest := by
          rw [show piece.length + start + 1 = start + (piece.length + 1) by omega, ← List.drop_drop,
            hpieces, ← List.drop_drop, List.drop_left, List.drop_one, List.tail_cons]
        rw [ih _ (by omega) _ (by omega) rfl _ rfl, hrest, hpieces,
          List.splitOn_append_cons_self_of_not_mem hpiece,
          addPieces_cons params piece (rest.splitOn 38), Nat.add_sub_cancel, List.take_left]
    · rw [paramsLoop_of_le params le_rfl, List.drop_length, List.splitOn_nil]
      rfl

/-- **A query gives its pieces**, taken apart at their first `=`. -/
theorem parseQueryParams_eq (query : Bytes) (params : Finmap fun _ : Bytes => Bytes) :
    parseQueryParams query params = .ok (addPieces params (query.splitOn 38)) := by
  have hfrom : findFrom [38] query 0 = find [38] query := findFrom_zero _ _
  rw [parseQueryParams]
  cases hfind : find [38] query with
  | some stop =>
    exact paramsLoop_eq params (Nat.zero_le _) (by rw [hfrom, hfind]; rfl) _
  | none =>
    have hno : 38 ∉ query := fun hmem =>
      find_eq_none_iff.mp hfind ((List.singleton_infix_iff _ _).mpr hmem)
    rw [List.splitOn_eq_singleton hno, paramsLoop.eq_def]
    split_ifs with hstart
    · simp only [substrFrom_of_le hstart.le, bind_ok, List.drop_zero, addParam_eq]
    · rw [List.length_eq_zero_iff.mp (Nat.eq_zero_of_not_pos hstart)]
      rfl

end NetSentry.RestApi

/-! ### Words of 64 bits -/

namespace NetSentry.QueryWords

open Bytes Checked Search StdString

/-- The position that a word stands for. -/
def position (pos : UInt64) : Option ℕ := if pos = npos then none else some pos.toNat

theorem addParam_words (params : Finmap fun _ : Bytes => Bytes) (param : StdString) :
    addParam params param = RestApi.addParam params param.1 := by
  have hfrom : findFrom [61] param.1 0 = find [61] param.1 := findFrom_zero _ _
  rw [addParam, RestApi.addParam, ← hfrom]
  cases hfind : findFrom [61] param.1 0 with
  | none =>
    rw [find_of_none hfind]
    rfl
  | some eqPos =>
    have hfound : findFrom [61] param.1 (0 : UInt64).toNat = some eqPos := hfind
    obtain ⟨hpos, hlt⟩ := find_of_some hfound
    have hle : (param.find 61 0).toNat ≤ param.1.length := hpos.trans_le hlt.le
    have hnext : (param.find 61 0 + 1).toNat = eqPos + 1 := by rw [toNat_add_one hle, hpos]
    obtain ⟨key, hkey, hkeyEq⟩ :=
      StdString.substr_of_le (s := param) 0 (param.find 61 0) (Nat.zero_le _)
    obtain ⟨value, hvalue, hvalueEq⟩ :=
      StdString.substr_of_le (s := param) (param.find 61 0 + 1) npos (by omega)
    have hall : (param.1.drop (eqPos + 1)).take npos.toNat = param.1.drop (eqPos + 1) := by
      have := param.2
      apply List.take_of_length_le
      rw [List.length_drop, toNat_npos]
      omega
    rw [hpos] at hkeyEq
    rw [hnext, hall] at hvalueEq
    simp only [ne_npos_of_le hle, ne_eq, not_false_eq_true, if_true, hkey, hvalue, bind_ok, hkeyEq,
      hvalueEq, Checked.substr_of_le _ (Nat.zero_le _), substrFrom_of_le hlt]
    rfl

theorem position_of_le {query : StdString} {pos : UInt64} (h : pos.toNat ≤ query.1.length) :
    position pos = some pos.toNat := if_neg (ne_npos_of_le h)

/-- Where the next piece ends. -/
theorem toNat_nextEnd (query : StdString) (start : UInt64) :
    (if query.find 38 start = npos then query.length else query.find 38 start).toNat
        = (findFrom [38] query.1 start.toNat).getD query.1.length
      ∧ (if query.find 38 start = npos then query.length else query.find 38 start).toNat
        ≤ query.1.length := by
  cases hfind : findFrom [38] query.1 start.toNat with
  | none =>
    rw [find_of_none hfind, if_pos rfl, toNat_length]
    exact ⟨rfl, le_rfl⟩
  | some i =>
    obtain ⟨hi, hlt⟩ := find_of_some hfind
    have hle : (query.find 38 start).toNat ≤ query.1.length := hi.trans_le hlt.le
    rw [if_neg (ne_npos_of_le hle)]
    exact ⟨hi, hle⟩

/-- **The loop in words** does what the loop with numbers does, in as many passes as there are bytes
left and two. -/
theorem paramsLoop_words {query : StdString} (params : Finmap fun _ : Bytes => Bytes)
    {start stop : UInt64} {stop' : Option ℕ} {fuel : ℕ} (hstart : start.toNat ≤ query.1.length + 1)
    (hend : stop = npos ∨ stop.toNat ≤ query.1.length) (hposition : position stop = stop')
    (hfuel : query.1.length + 1 < fuel + start.toNat) (hstop) :
    paramsLoop query fuel params start stop
      = some (RestApi.paramsLoop query.1 params start.toNat stop' hstop) := by
  induction fuel generalizing params start stop stop' with
  | zero => omega
  | succ fuel ih =>
    have hlt : start < query.length ↔ start.toNat < query.1.length := by
      rw [UInt64.lt_iff_toNat_lt, toNat_length]
    have hmax := query.2
    rw [paramsLoop]
    by_cases hless : start < query.length
    · have hless' := hlt.mp hless
      obtain ⟨piece, hpiece, hpieceEq⟩ :=
        StdString.substr_of_le (s := query) start (stop - start) hless'.le
      simp only [if_pos hless, hpiece, bind_ok, addParam_words, RestApi.addParam_eq, hpieceEq]
      rcases hend with rfl | hend
      · -- there is no `&`, and the piece is the whole rest
        obtain rfl : none = stop' := hposition
        have hcount : query.1.length - start.toNat ≤ (npos - start).toNat := by
          rw [toNat_sub (by rw [toNat_npos]; omega), toNat_npos]
          omega
        rw [if_pos rfl, RestApi.paramsLoop.eq_def, dif_pos hless']
        simp only [substrFrom_of_le hless'.le, bind_ok, RestApi.addParam_eq]
        rw [List.take_of_length_le (by rwa [List.length_drop])]
      · obtain rfl : some stop.toNat = stop' := (position_of_le hend).symm.trans hposition
        have hle : start.toNat ≤ stop.toNat := hstop hless' _ rfl
        have hnext := toNat_add_one hend
        obtain ⟨hfound, hinside⟩ := toNat_nextEnd query (stop + 1)
        rw [if_neg (ne_npos_of_le hend), RestApi.paramsLoop_some params hless', toNat_sub hle,
          ih _ (by omega) (Or.inr hinside) ((position_of_le hinside).trans (congrArg some hfound))
            (by omega) (fun h _ he => Option.mem_some_iff.mp he ▸ le_getD_findFrom h.le)]
        simp only [hnext]
    · rw [if_neg hless, RestApi.paramsLoop_of_le params (not_lt.mp (hlt.not.mp hless))]

/-- **Query parsing** in words of 64 bits: as many passes as the query has bytes and two are enough,
no substring begins past the end, and the parameters are those of the pieces. -/
theorem parseQueryParams_words (query : StdString) (params : Finmap fun _ : Bytes => Bytes)
    (fuel : ℕ) (hfuel : query.1.length + 2 ≤ fuel) :
    parseQueryParams fuel query params
      = some (.ok (RestApi.addPieces params (query.1.splitOn 38))) := by
  have hfrom : findFrom [38] query.1 (0 : UInt64).toNat = find [38] query.1 := findFrom_zero _ _
  have hloop : ∀ {stop : UInt64} {stop' : Option ℕ},
      (stop = npos ∨ stop.toNat ≤ query.1.length) → position stop = stop' → ∀ hstop,
        paramsLoop query fuel params 0 stop
          = some (RestApi.paramsLoop query.1 params (0 : UInt64).toNat stop' hstop) :=
    fun hend hposition hstop => paramsLoop_words params (Nat.zero_le _) hend hposition
      (by rw [UInt64.toNat_zero]; omega) hstop
  rw [parseQueryParams, ← RestApi.parseQueryParams_eq, RestApi.parseQueryParams]
  cases hfind : find [38] query.1 with
  | none =>
    have hnpos : query.find 38 0 = npos := find_of_none (hfrom.trans hfind)
    rw [hnpos]
    exact hloop (Or.inl rfl) rfl _
  | some stop =>
    obtain ⟨hstop, hlt⟩ := find_of_some (hfrom.trans hfind)
    have hle : (query.find 38 0).toNat ≤ query.1.length := hstop.trans_le hlt.le
    exact hloop (Or.inr hle) ((position_of_le hle).trans (congrArg some hstop)) _

/-- A repeated key, an empty value, a piece without `=` and an `&` at the end. -/
theorem parseQueryParams_words_repeated :
    parseQueryParams 40 ⟨ascii "limit=5&x&limit=7&name=&", by decide⟩ ∅
      = some (.ok (((∅ : Finmap fun _ : Bytes => Bytes).insert (ascii "limit") (ascii "7")).insert
          (ascii "name") [])) :=
  (parseQueryParams_words ⟨ascii "limit=5&x&limit=7&name=&", by decide⟩ ∅ 40 (by decide)).trans
    (by decide +kernel)

end NetSentry.QueryWords
