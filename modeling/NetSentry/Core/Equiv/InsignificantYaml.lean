import NetSentry.Core.Equiv.StoredKeys

/-!
# Comments and ends of lines in a configuration file

`parseYaml` skips a line that begins with `#`, and reads everything after a colon as the value.

* `insignificant_iff`: exactly when a comment line, a comment after a value, and ends of lines with
  a carriage return leave the settings as they are.
* `parseYaml_eq_iff`: two texts leave the same settings when they settle every key alike.
* `parseLine_withComment`, `parseLine_carriageReturn`: what a line with a comment or with a carriage
  return is read as.
-/

namespace NetSentry.ConfigManager

open Bytes KeyedFold

/-! ### The statement -/

/-- Spaces or tabs, then `#`, then anything. -/
def IsComment (line : Bytes) : Prop := (line.dropWhile isBlank).head? = some 35 ∧ 10 ∉ line

/-- A value that is neither quoted nor has a `#` in it. -/
def PlainScalar (value : Bytes) : Prop :=
  value.head? ≠ some 34 ∧ value.head? ≠ some 39 ∧ 35 ∉ value

instance (value : Bytes) : Decidable (PlainScalar value) := inferInstanceAs (Decidable (_ ∧ _ ∧ _))

/-- A comment line stores nothing, or it stores what a later line replaces or what is there. -/
def CommentHarmless (c : ConfigManager) (before : List Bytes) (comment : Bytes)
    (after : List Bytes) : Prop :=
  ∀ key entry, stores comment = some (key, entry) →
    StoredBy after key ∨ settled c before key = some entry

/-- The line, with a comment at its end. -/
def withComment (line comment : Bytes) : Bytes := line ++ ascii " #" ++ comment

/-- A comment after the value of a key makes no difference: a later line replaces what the line
stores; or the comment has a carriage return, so that the line is not read, and what the line stored
is there; or the line stored nothing, and what it stores with the comment is there. -/
def TrailingHarmless (c : ConfigManager) (before : List Bytes) (line comment key : Bytes)
    (after : List Bytes) : Prop :=
  StoredBy after key ∨
    if 13 ∈ comment then
      ∀ entry, stores line = some (key, entry) → settled c before key = some entry
    else
      stores line = none ∧ ∀ entry, stores (withComment line comment) = some (key, entry) →
        settled c before key = some entry

/-- A line that has no value, which is read with a carriage return as well. -/
def Valueless (line : Bytes) : Prop := ∀ assignment ∈ parseLine line, assignment.2 = []

instance (line : Bytes) : Decidable (Valueless line) :=
  inferInstanceAs (Decidable (∀ assignment ∈ parseLine line, assignment.2 = []))

/-- The lines that are still read when the marked ones end with a carriage return. -/
def intact (lines : List (Bytes × Bool)) : List Bytes :=
  (lines.filter fun l => l.2 = false ∨ Valueless l.1).map Prod.fst

/-- What the last line that stores a key gives is there without the marked lines. -/
def CarriageReturnsHarmless (c : ConfigManager) (lines : List (Bytes × Bool))
    (after : List Bytes) : Prop :=
  ∀ key entry, lastOf ((lines.map Prod.fst ++ after).filterMap stores) key = some entry →
    settled c (intact lines ++ after) key = some entry

/-- The line, with a carriage return at its end where it is marked. -/
def withCarriageReturn (line : Bytes × Bool) : Bytes :=
  if line.2 then line.1 ++ [13] else line.1

/-! ### Two texts -/

theorem parseYaml_eq_iff (c : ConfigManager) (content content' : Bytes) :
    c.parseYaml content = c.parseYaml content'
      ↔ ∀ key, settled c (getlines content) key = settled c (getlines content') key := by
  constructor
  · intro h key
    rw [← lookup_parseYaml, h, lookup_parseYaml]
  · intro h
    have hvalues : (c.parseYaml content).2.values = (c.parseYaml content').2.values :=
      Finmap.ext_lookup fun key => by rw [lookup_parseYaml, lookup_parseYaml, h key]
    exact Prod.ext rfl (congrArg ConfigManager.mk hvalues)

/-! ### What a line is read as -/

/-- What the first group matches, before its blanks are removed. -/
def keyGroup (before : Bytes) : Bytes :=
  if before.dropWhile isSpace = [] then before.drop (before.length - 1)
  else before.dropWhile isSpace

theorem parseLine_of_not_mem {line : Bytes} (h : 58 ∉ line) : parseLine line = none := by
  rw [parseLine, matchKeyValue, Search.find_singleton_eq_none h]
  split_ifs <;> rfl

/-- **A line with a colon.** -/
theorem parseLine_colon {before : Bytes} (h : 58 ∉ before) (after : Bytes) :
    parseLine (before ++ 58 :: after)
      = if before = [] ∨ before.head? = some 35 then none
        else if (after.dropWhile isSpace).any (fun c => c = 10 || c = 13) then none
        else some (trim (keyGroup before), trim (after.dropWhile isSpace)) := by
  have hfind : Search.find [58] (before ++ 58 :: after) = some before.length :=
    Search.find_singleton_append _ h
  have hafter : (before ++ 58 :: after).drop (before.length + 1) = after := by
    rw [← List.drop_drop, List.drop_left, List.drop_one, List.tail_cons]
  have hne : before ++ 58 :: after ≠ [] := by simp
  rw [parseLine, matchKeyValue, hfind]
  simp only [List.take_left, hafter, hne, false_or]
  cases before with
  | nil => simp
  | cons b before =>
    simp only [List.cons_append, List.head?_cons, reduceCtorEq, false_or, keyGroup]
    by_cases hcomment : b = 35
    · rw [hcomment, if_pos rfl, if_pos rfl]
    · cases (after.dropWhile isSpace).any fun c => c = 10 || c = 13 with
      | true => simp [hcomment]
      | false => simp [hcomment]

/-- What is not blank is not removed. -/
theorem mem_trim {s : Bytes} {b : UInt8} (h : b ∈ s) (hb : isBlank b = false) : b ∈ trim s := by
  have hkeep : ∀ {s : Bytes}, b ∈ s → b ∈ s.dropWhile isBlank := by
    intro s h
    rw [← List.takeWhile_append_dropWhile (p := isBlank) (l := s)] at h
    refine (List.mem_append.mp h).resolve_left fun hmem => ?_
    rw [List.mem_takeWhile_imp hmem] at hb
    cases hb
  rw [trim, List.rdropWhile, List.mem_reverse]
  exact hkeep (List.mem_reverse.mpr (hkeep h))

/-- A text that does not begin with a blank still begins as it did. -/
theorem head?_trim {s : Bytes} {b : UInt8} (h : s.head? = some b) (hb : isBlank b = false) :
    (trim s).head? = some b := by
  have hdrop : s.dropWhile isBlank = s := by
    obtain ⟨t, rfl⟩ := List.head?_eq_some_iff.mp h
    exact List.dropWhile_cons_of_neg (by simp [hb])
  have hmem : b ∈ trim s := mem_trim (List.mem_of_mem_head? h) hb
  obtain ⟨t, ht⟩ := s.rdropWhile_prefix isBlank
  rw [trim, hdrop] at hmem ⊢
  rw [← ht, List.head?_append_of_ne_nil _ (List.ne_nil_of_mem hmem)] at h
  exact h

theorem isSpace_head_dropWhile {s t : Bytes} {b : UInt8} (h : s.dropWhile isSpace = b :: t) :
    isSpace b = false := by
  have hhead := List.head?_dropWhile_not isSpace s
  rw [h] at hhead
  simpa using hhead

/-- A text without white space in front is blank only where it is empty. -/
theorem trim_dropWhile_eq_nil_iff (s : Bytes) :
    trim (s.dropWhile isSpace) = [] ↔ s.dropWhile isSpace = [] := by
  refine ⟨fun h => ?_, fun h => by rw [h]; rfl⟩
  cases hs : s.dropWhile isSpace with
  | nil => rfl
  | cons b t =>
    have hhead := head?_trim (s := b :: t) rfl (isBlank_eq_false (isSpace_head_dropWhile hs))
    rw [← hs, h] at hhead
    cases hhead

/-- **A carriage return** hides the line, but where the line has no value. -/
theorem parseLine_carriageReturn (line : Bytes) :
    parseLine (line ++ [13]) = (parseLine line).filter (·.2 = []) := by
  by_cases hmem : 58 ∈ line
  · obtain ⟨before, after, rfl, hbefore⟩ := List.eq_append_cons_of_mem hmem
    rw [List.append_assoc, List.cons_append, parseLine_colon hbefore, parseLine_colon hbefore]
    by_cases hskip : before = [] ∨ before.head? = some 35
    · rw [if_pos hskip, if_pos hskip]
      rfl
    rw [if_neg hskip, if_neg hskip]
    by_cases hnil : after.dropWhile isSpace = []
    · -- the carriage return is white space before the value
      have hdrop : (after ++ [13]).dropWhile isSpace = [] := by
        simp only [List.dropWhile_append, hnil, List.isEmpty_nil, if_true]
        rfl
      rw [hdrop, hnil]
      rfl
    · have hdrop : (after ++ [13]).dropWhile isSpace = after.dropWhile isSpace ++ [13] := by
        simp only [List.dropWhile_append, List.isEmpty_iff, if_neg hnil]
      rw [hdrop, if_pos (by simp)]
      split_ifs
      · rfl
      · rw [Option.filter_some_neg (by simpa [trim_dropWhile_eq_nil_iff] using hnil)]
  · rw [parseLine_of_not_mem hmem, parseLine_of_not_mem (by simpa using hmem)]
    rfl

/-! ### Comments after a value -/

theorem guessType_of_mem {value : Bytes} (h : 35 ∈ value) : guessType value = .string := by
  have hword : value ∉ ["true", "false", "yes", "no", "on", "off"].map ascii := by
    intro hmem
    have hno : ∀ w ∈ ["true", "false", "yes", "no", "on", "off"].map ascii, 35 ∉ w := by
      decide +kernel
    exact hno _ hmem h
  have htail : 35 ∈ (if value.head? = some 45 then value.tail else value) := by
    split_ifs with hsign
    · obtain ⟨t, rfl⟩ := List.head?_eq_some_iff.mp hsign
      exact (List.mem_cons.mp h).resolve_left (by decide)
    · exact h
  have hinteger : matchesInteger value = false := by
    rw [matchesInteger, Bool.and_eq_false_iff, List.all_eq_false]
    exact Or.inr ⟨35, htail, by decide⟩
  have hdecimal : (matchDecimal value).isSome = false := by
    rw [Option.isSome_eq_false_iff, Option.isNone_iff_eq_none, matchDecimal]
    generalize (if value.head? = some 45 then value.tail else value) = unsigned at htail
    split
    · rename_i fraction hrest
      -- the `#` is after the point, among the digits
      have hsplit := List.prefix_iff_eq_append.mp (unsigned.takeWhile_prefix isDigit)
      rw [hrest] at hsplit
      rw [← hsplit] at htail
      refine if_neg fun hmatch => ?_
      rcases List.mem_append.mp htail with hmem | hmem
      · exact absurd (List.mem_takeWhile_imp hmem) (by decide)
      · have hfraction := (List.mem_cons.mp hmem).resolve_left (by decide)
        exact absurd (List.all_eq_true.mp hmatch.2.2 35 hfraction) (by decide)
    · rfl
  rw [guessType, if_neg hword, hinteger, hdecimal]
  rfl

/-- **A comment after a value** becomes part of the value. -/
theorem parseLine_withComment {line comment key value : Bytes}
    (hline : parseLine line = some (key, value)) (hend : 10 ∉ comment) :
    if 13 ∈ comment then parseLine (withComment line comment) = none
    else ∃ text, parseLine (withComment line comment) = some (key, text) ∧ 35 ∈ text
      ∧ (text.head? = some 35 ∨ text.head? = value.head?) := by
  have hmem : 58 ∈ line := by
    by_contra hno
    rw [parseLine_of_not_mem hno] at hline
    cases hline
  obtain ⟨before, after, rfl, hbefore⟩ := List.eq_append_cons_of_mem hmem
  have hline' : withComment (before ++ 58 :: after) comment
      = before ++ 58 :: (after ++ 32 :: 35 :: comment) := by
    rw [withComment, show ascii " #" = [32, 35] by decide]
    simp
  rw [parseLine_colon hbefore] at hline
  split_ifs at hline with hskip hbad
  obtain ⟨rfl, rfl⟩ := Prod.mk.inj (Option.some.inj hline)
  -- what stands in front of the comment begins as the value does
  obtain ⟨front, hdrop, hfront, hhead⟩ : ∃ front,
      (after ++ 32 :: 35 :: comment).dropWhile isSpace = front ++ 35 :: comment
        ∧ front.any (fun c => c = 10 || c = 13) = false
        ∧ ∃ b, (front ++ 35 :: comment).head? = some b ∧ isBlank b = false
          ∧ (b = 35 ∨ (after.dropWhile isSpace).head? = some b) := by
    rw [List.dropWhile_append]
    cases hafter : after.dropWhile isSpace with
    | nil => exact ⟨[], rfl, rfl, 35, rfl, by decide, Or.inl rfl⟩
    | cons b t =>
      refine ⟨b :: t ++ [32], by simp, ?_, b, rfl, ?_, Or.inr rfl⟩
      · rw [hafter] at hbad
        simpa using hbad
      · exact isBlank_eq_false (isSpace_head_dropWhile hafter)
  obtain ⟨b, hb, hblank, hvalue⟩ := hhead
  have hany : (front ++ 35 :: comment).any (fun c => c = 10 || c = 13) = decide (13 ∈ comment) := by
    rw [List.any_append, hfront, Bool.false_or, List.any_cons, Bool.eq_iff_iff]
    simp only [Bool.or_eq_true, decide_eq_true_eq, List.any_eq_true]
    constructor
    · rintro (h | ⟨c, hc, rfl | rfl⟩)
      · exact absurd h (by decide)
      · exact absurd hc hend
      · exact hc
    · intro h
      exact Or.inr ⟨13, h, Or.inr rfl⟩
  rw [hline', parseLine_colon hbefore, if_neg hskip, hdrop, hany]
  by_cases hreturn : 13 ∈ comment
  · rw [if_pos hreturn, if_pos (decide_eq_true hreturn)]
  · have hhead := head?_trim hb hblank
    rw [if_neg hreturn, if_neg (by simpa using hreturn)]
    refine ⟨trim (front ++ 35 :: comment), rfl, ?_, ?_⟩
    · exact mem_trim (by simp) (by decide)
    · rcases hvalue with rfl | hvalue
      · exact Or.inl hhead
      · exact Or.inr (hhead.trans (head?_trim hvalue hblank).symm)

/-- A value that is not quoted is stored as it is. -/
theorem stores_of_string {line key value : Bytes} (hline : parseLine line = some (key, value))
    (hguess : guessType value = .string) (hdouble : value.head? ≠ some 34)
    (hsingle : value.head? ≠ some 39) : stores line = some (key, ⟨.string, value⟩) := by
  rw [stores, hline, Option.bind_some]
  dsimp only
  rw [hguess, parsedValue]
  simp only [hdouble, hsingle, false_and, or_self, and_false, if_false, Option.map_some]

/-! ### Changing some of the lines -/

/-- Of lines that are changed, what no later line stores matters. -/
theorem settled_append_eq_iff (c : ConfigManager) (ls ls' after : List Bytes) (key : Bytes) :
    settled c (ls ++ after) key = settled c (ls' ++ after) key
      ↔ StoredBy after key ∨ settled c ls key = settled c ls' key := by
  rw [settled_append, settled_append, storedBy_iff]
  cases lastOf (after.filterMap stores) key with
  | none => simp only [Option.none_or, ne_eq, not_true_eq_false, false_or]
  | some entry => simp only [Option.some_or, ne_eq, reduceCtorEq, not_false_eq_true, true_or]

theorem settled_concat_of_none (c : ConfigManager) (before : List Bytes) {line : Bytes}
    (h : stores line = none) (key : Bytes) :
    settled c (before ++ [line]) key = settled c before key := by
  rw [settled_append, List.filterMap_cons, h]
  rfl

theorem settled_concat_of_some (c : ConfigManager) (before : List Bytes) {line k : Bytes}
    {entry : ConfigEntry} (h : stores line = some (k, entry)) (key : Bytes) :
    settled c (before ++ [line]) key = if k = key then some entry else settled c before key := by
  rw [settled_append, List.filterMap_cons, h, List.filterMap_nil, lastOf_singleton]
  split_ifs
  · rfl
  · rfl

/-- A line that stores nothing may be left out. -/
theorem settled_middle_of_none (c : ConfigManager) (before after : List Bytes) {line : Bytes}
    (h : stores line = none) (key : Bytes) :
    settled c (before ++ [line] ++ after) key = settled c (before ++ after) key :=
  (settled_append_eq_iff ..).mpr (Or.inr (settled_concat_of_none c before h key))

/-- **Two lines that differ** in what they store for a key make no difference where a later line
replaces it. -/
theorem forall_settled_replace_iff (c : ConfigManager) (before after : List Bytes)
    {line line' k : Bytes} {entry entry' : ConfigEntry} (h : stores line = some (k, entry))
    (h' : stores line' = some (k, entry')) (hne : entry ≠ entry') :
    (∀ key, settled c (before ++ [line'] ++ after) key = settled c (before ++ [line] ++ after) key)
      ↔ StoredBy after k := by
  simp only [settled_append_eq_iff, settled_concat_of_some c before h,
    settled_concat_of_some c before h']
  constructor
  · intro hsame
    have hk := hsame k
    rw [if_pos rfl, if_pos rfl] at hk
    exact hk.resolve_right fun heq => hne (Option.some.inj heq).symm
  · intro hlater key
    split_ifs with hk
    · exact Or.inl (hk ▸ hlater)
    · exact Or.inr rfl

/-- **A line that is added** makes no difference where it stores nothing, what a later line
replaces, or what is there. -/
theorem forall_settled_concat_iff (c : ConfigManager) (before : List Bytes) (line : Bytes)
    (after : List Bytes) :
    (∀ key, settled c (before ++ [line] ++ after) key = settled c (before ++ after) key)
      ↔ CommentHarmless c before line after := by
  simp only [settled_append_eq_iff, CommentHarmless]
  cases hline : stores line with
  | none =>
    simp only [settled_concat_of_none c before hline, or_true, implies_true, reduceCtorEq,
      false_imp_iff]
  | some pair =>
    obtain ⟨k, entry⟩ := pair
    simp only [settled_concat_of_some c before hline, Option.some.injEq, Prod.mk.injEq, and_imp]
    constructor
    · rintro h key _ rfl rfl
      have hkey := h k
      rw [if_pos rfl] at hkey
      exact hkey.imp_right Eq.symm
    · intro h key
      split_ifs with hkey
      · subst hkey
        exact (h k entry rfl rfl).imp_right Eq.symm
      · exact Or.inr rfl

/-- **A comment line.** -/
theorem parseYaml_commentLine_iff (c : ConfigManager) {before : List Bytes} {comment : Bytes}
    (hbefore : ∀ line ∈ before, 10 ∉ line) (hcomment : 10 ∉ comment) (after : Bytes) :
    c.parseYaml (endLines before ++ (comment ++ 10 :: after))
        = c.parseYaml (endLines before ++ after)
      ↔ CommentHarmless c before comment (getlines after) := by
  rw [parseYaml_eq_iff, getlines_endLines hbefore, getlines_endLines hbefore,
    getlines_append hcomment, ← forall_settled_concat_iff]
  simp only [List.append_assoc, List.singleton_append]

theorem commentHarmless_iff {c : ConfigManager} {before : List Bytes} {line key : Bytes}
    {after : List Bytes} (hkey : ∀ k entry, stores line = some (k, entry) → k = key) :
    CommentHarmless c before line after ↔ StoredBy after key ∨
      ∀ entry, stores line = some (key, entry) → settled c before key = some entry := by
  constructor
  · intro h
    by_cases hlater : StoredBy after key
    · exact Or.inl hlater
    · exact Or.inr fun entry hline => (h key entry hline).resolve_left hlater
  · intro h k entry hline
    obtain rfl := hkey k entry hline
    exact h.imp_right fun h => h entry hline

theorem stores_of_parseLine_eq_none {line : Bytes} (h : parseLine line = none) :
    stores line = none := by
  rw [stores, h]
  rfl

/-- A plain scalar is not stored as a text with a `#`. -/
theorem not_mem_of_stores {line key value : Bytes} (hline : parseLine line = some (key, value))
    (hplain : PlainScalar value) {k text : Bytes} (h : stores line = some (k, ⟨.string, text⟩)) :
    35 ∉ text := by
  have hstring := stores_of_string hline (type_of_stores hline h).2.symm hplain.1 hplain.2.1
  rw [h] at hstring
  cases hstring
  exact hplain.2.2

/-- With a comment at its end, a line stores a text with a `#`. -/
theorem exists_stores_withComment {line comment key value : Bytes}
    (hline : parseLine line = some (key, value)) (hplain : PlainScalar value)
    (hcomment : 10 ∉ comment) (hreturn : 13 ∉ comment) :
    ∃ text, stores (withComment line comment) = some (key, ⟨.string, text⟩) ∧ 35 ∈ text := by
  have hread := parseLine_withComment hline hcomment
  rw [if_neg hreturn] at hread
  obtain ⟨text, hread, hmem, hhead⟩ := hread
  -- it begins with the `#`, or as the value does, and so with no quote
  have hquote : ∀ q, q ≠ 35 → value.head? ≠ some q → text.head? ≠ some q := by
    rintro q hq hvalue htext
    rcases hhead with hhead | hhead
    · exact hq (Option.some.inj (htext.symm.trans hhead))
    · exact hvalue (hhead.symm.trans htext)
  exact ⟨text, stores_of_string hread (guessType_of_mem hmem) (hquote 34 (by decide) hplain.1)
    (hquote 39 (by decide) hplain.2.1), hmem⟩

/-- **A comment after the value** of a line. -/
theorem forall_settled_withComment_iff (c : ConfigManager) {before : List Bytes}
    {line comment key value : Bytes} (hline : parseLine line = some (key, value))
    (hplain : PlainScalar value) (hcomment : 10 ∉ comment) (after : List Bytes) :
    (∀ k, settled c (before ++ [withComment line comment] ++ after) k
        = settled c (before ++ [line] ++ after) k)
      ↔ TrailingHarmless c before line comment key after := by
  have hkey : ∀ k entry, stores line = some (k, entry) → k = key := fun k entry h =>
    (type_of_stores hline h).1
  rw [TrailingHarmless]
  split_ifs with hreturn
  · -- the line is not read any more
    have hread := parseLine_withComment hline hcomment
    rw [if_pos hreturn] at hread
    rw [← commentHarmless_iff hkey, ← forall_settled_concat_iff]
    simp only [settled_middle_of_none c before after (stores_of_parseLine_eq_none hread)]
    exact forall_congr' fun k => eq_comm
  · obtain ⟨text, hstores, hmem⟩ := exists_stores_withComment hline hplain hcomment hreturn
    cases hold : stores line with
    | none =>
      -- the comment adds what it stores
      have hkey' : ∀ k entry, stores (withComment line comment) = some (k, entry) → k = key := by
        intro k entry h
        rw [hstores] at h
        exact (congrArg Prod.fst (Option.some.inj h)).symm
      simp only [settled_middle_of_none c before after hold, true_and]
      rw [forall_settled_concat_iff, commentHarmless_iff hkey']
    | some pair =>
      -- both store the key, and only one of the texts has a `#`
      obtain ⟨k', entry⟩ := pair
      obtain rfl := hkey k' entry hold
      have hne : entry ≠ ⟨.string, text⟩ := by
        rintro rfl
        exact not_mem_of_stores hline hplain hold hmem
      rw [forall_settled_replace_iff c before after hold hstores hne]
      simp only [reduceCtorEq, false_and, or_false]

/-- **A comment after the value** of a line, at the end of the text or before more lines. -/
theorem parseYaml_withComment_iff (c : ConfigManager) {before : List Bytes}
    {line key value comment : Bytes} (hbefore : ∀ l ∈ before, 10 ∉ l) (hend : 10 ∉ line)
    (hline : parseLine line = some (key, value)) (hplain : PlainScalar value)
    (hcomment : 10 ∉ comment) (after : Bytes) :
    (c.parseYaml (endLines before ++ (withComment line comment ++ 10 :: after))
        = c.parseYaml (endLines before ++ (line ++ 10 :: after))
      ↔ TrailingHarmless c before line comment key (getlines after))
    ∧ (c.parseYaml (endLines before ++ withComment line comment)
        = c.parseYaml (endLines before ++ line)
      ↔ TrailingHarmless c before line comment key []) := by
  have hend' : 10 ∉ withComment line comment := by
    have hmark : 10 ∉ ascii " #" := by decide
    simp only [withComment, List.mem_append, not_or]
    exact ⟨⟨hend, hmark⟩, hcomment⟩
  have hne : line ≠ [] := by
    rintro rfl
    cases hline
  have hne' : withComment line comment ≠ [] := by simp [withComment, hne]
  constructor
  · rw [parseYaml_eq_iff, getlines_endLines hbefore, getlines_endLines hbefore,
      getlines_append hend, getlines_append hend',
      ← forall_settled_withComment_iff c hline hplain hcomment]
    simp only [List.append_assoc, List.singleton_append]
  · rw [parseYaml_eq_iff, getlines_endLines hbefore, getlines_endLines hbefore,
      getlines_of_not_mem hend hne, getlines_of_not_mem hend' hne',
      ← forall_settled_withComment_iff c hline hplain hcomment]
    simp only [List.append_nil]

/-! ### Ends of lines -/

theorem stores_withCarriageReturn (line : Bytes) :
    stores (line ++ [13]) = if Valueless line then stores line else none := by
  rw [stores, parseLine_carriageReturn, stores]
  cases hline : parseLine line with
  | none => simp
  | some assignment =>
    have hvalueless : Valueless line ↔ assignment.2 = [] := by
      rw [Valueless, hline]
      simp
    by_cases hvalue : assignment.2 = []
    · rw [if_pos (hvalueless.mpr hvalue), Option.filter_some_pos (by simpa using hvalue)]
    · rw [if_neg (hvalueless.not.mpr hvalue), Option.filter_some_neg (by simpa using hvalue)]
      rfl

theorem stores_marked (line : Bytes × Bool) :
    stores (withCarriageReturn line)
      = if line.2 = false ∨ Valueless line.1 then stores line.1 else none := by
  obtain ⟨line, marked⟩ := line
  cases marked with
  | false => rw [if_pos (Or.inl rfl)]; rfl
  | true =>
    simp only [withCarriageReturn, if_true, stores_withCarriageReturn, Bool.true_eq_false, false_or]

/-- **With carriage returns**, the lines that are intact are read. -/
theorem filterMap_withCarriageReturn (lines : List (Bytes × Bool)) :
    (lines.map withCarriageReturn).filterMap stores = (intact lines).filterMap stores := by
  rw [intact, List.filterMap_map, List.filterMap_map, List.filterMap_filter]
  apply List.filterMap_congr
  intro line _
  rw [Function.comp_apply, stores_marked]
  simp only [decide_eq_true_eq, Function.comp_apply]

/-- A line that is intact is one of the lines. -/
theorem mem_of_mem_intact {lines : List (Bytes × Bool)} {line : Bytes} (h : line ∈ intact lines) :
    line ∈ lines.map Prod.fst := by
  obtain ⟨l, hl, rfl⟩ := List.mem_map.mp h
  exact List.mem_map_of_mem (List.mem_of_mem_filter hl)

/-- **Carriage returns** at the ends of lines. -/
theorem parseYaml_carriageReturns_iff (c : ConfigManager) {lines : List (Bytes × Bool)}
    (hlines : ∀ line ∈ lines, 10 ∉ line.1) (after : Bytes) :
    c.parseYaml (endLines (lines.map withCarriageReturn) ++ after)
        = c.parseYaml (endLines (lines.map Prod.fst) ++ after)
      ↔ CarriageReturnsHarmless c lines (getlines after) := by
  have hplain : ∀ line ∈ lines.map Prod.fst, 10 ∉ line := by
    intro line hline
    obtain ⟨l, hl, rfl⟩ := List.mem_map.mp hline
    exact hlines l hl
  have hmarked : ∀ line ∈ lines.map withCarriageReturn, 10 ∉ line := by
    intro line hline
    obtain ⟨l, hl, rfl⟩ := List.mem_map.mp hline
    rw [withCarriageReturn]
    split_ifs
    · simpa using hlines l hl
    · exact hlines l hl
  have hintact : ∀ key, settled c (lines.map withCarriageReturn ++ getlines after) key
      = settled c (intact lines ++ getlines after) key := by
    intro key
    rw [settled, List.filterMap_append, filterMap_withCarriageReturn, ← List.filterMap_append,
      settled]
  rw [parseYaml_eq_iff, getlines_endLines hmarked, getlines_endLines hplain]
  simp only [hintact]
  constructor
  · intro h key entry hlast
    rw [h key, settled, hlast, Option.some_or]
  · intro h key
    cases hlast : lastOf ((lines.map Prod.fst ++ getlines after).filterMap stores) key with
    | some entry => rw [h key entry hlast, settled, hlast, Option.some_or]
    | none =>
      -- where none of the lines stores the key, none of the intact ones does
      have hnone : lastOf ((intact lines ++ getlines after).filterMap stores) key = none := by
        rw [lastOf_eq_none_iff] at hlast ⊢
        intro pair hpair
        obtain ⟨line, hline, hstores⟩ := List.mem_filterMap.mp hpair
        refine hlast pair (List.mem_filterMap.mpr ⟨line, ?_, hstores⟩)
        exact List.mem_append.mpr ((List.mem_append.mp hline).imp_left mem_of_mem_intact)
      rw [settled, settled, hlast, hnone]

/-- **Insignificant text changes nothing** exactly where it is harmless: a comment line between two
lines, a comment after a plain scalar, and ends of lines with a carriage return. -/
theorem insignificant_iff (c : ConfigManager) :
    (∀ (before : List Bytes) (comment after : Bytes), (∀ line ∈ before, 10 ∉ line) →
      IsComment comment →
        (c.parseYaml (endLines before ++ (comment ++ 10 :: after))
            = c.parseYaml (endLines before ++ after)
          ↔ CommentHarmless c before comment (getlines after)))
    ∧ (∀ (before : List Bytes) (line key value comment after : Bytes),
      (∀ l ∈ before, 10 ∉ l) → 10 ∉ line → parseLine line = some (key, value) →
      PlainScalar value → 10 ∉ comment →
        (c.parseYaml (endLines before ++ (withComment line comment ++ 10 :: after))
            = c.parseYaml (endLines before ++ (line ++ 10 :: after))
          ↔ TrailingHarmless c before line comment key (getlines after))
        ∧ (c.parseYaml (endLines before ++ withComment line comment)
            = c.parseYaml (endLines before ++ line)
          ↔ TrailingHarmless c before line comment key []))
    ∧ ∀ (lines : List (Bytes × Bool)) (after : Bytes), (∀ line ∈ lines, 10 ∉ line.1) →
        (c.parseYaml (endLines (lines.map withCarriageReturn) ++ after)
            = c.parseYaml (endLines (lines.map Prod.fst) ++ after)
          ↔ CarriageReturnsHarmless c lines (getlines after)) := by
  refine ⟨?_, ?_, ?_⟩
  · intro before comment after hbefore hcomment
    exact parseYaml_commentLine_iff c hbefore hcomment.2 after
  · intro before line key value comment after hbefore hend hline hplain hcomment
    exact parseYaml_withComment_iff c hbefore hend hline hplain hcomment after
  · intro lines after hlines
    exact parseYaml_carriageReturns_iff c hlines after

/-- The shipped configuration has a comment after a number. -/
theorem not_forall_insignificant :
    ¬ ∀ (c : ConfigManager) (before : List Bytes) (line key value comment after : Bytes),
      (∀ l ∈ before, 10 ∉ l) → 10 ∉ line → parseLine line = some (key, value) →
      PlainScalar value → 10 ∉ comment →
        c.parseYaml (endLines before ++ (withComment line comment ++ 10 :: after))
          = c.parseYaml (endLines before ++ (line ++ 10 :: after)) := by
  intro h
  have hsame := h create [] (ascii "metric_retention_seconds: 86400")
    (ascii "metric_retention_seconds") (ascii "86400") (ascii " 24 hours") [] (by simp)
    (by decide +kernel) (by decide +kernel) (by decide +kernel) (by decide +kernel)
  have hget := congrArg (fun r => r.2.get .int64 (ascii "metric_retention_seconds")) hsame
  revert hget
  decide +kernel

end NetSentry.ConfigManager
