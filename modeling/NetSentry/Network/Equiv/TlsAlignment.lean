import NetSentry.Network.Equiv.TlsBounds

/-!
# Where the extension walk reads its headers

The walk adds the length of an extension to wherever it has got to inside the extension.  After a
server name extension that it has entered and not taken a name from, it reads the next header two
or five bytes too late, and a name is only compared with the end of the whole block.

* `tracedLoop`: the loop with the positions of its headers and the range that it copies.
* `ExtensionAt`: the positions where extensions begin.
* `Regular`: the walk meets nothing that leads it astray.
* `namesFromExtension_iff`: every header is read where an extension begins, and the name lies in a
  server name extension, exactly for regular blocks.
-/

namespace NetSentry.TlsParser

open Bytes Checked

/-! ### The positions of the headers -/

/-- The loop of `extractServerName` with what it has looked at: the positions at which it has read
an extension header, and the first and the last position of the name that it copies. -/
def tracedLoop (data : Bytes) (endOffset pos : ℕ) : Checked (List ℕ × Option (ℕ × ℕ)) :=
  if pos + 4 ≤ endOffset then do
    let extensionType ← readWord data pos
    let extensionLength ← readWord data (pos + 2)
    if extensionType = 0 ∧ pos + 4 + extensionLength.toNat ≤ endOffset ∧
        2 < extensionLength.toNat then do
      let listLength ← readWord data (pos + 4)
      if 3 < listLength.toNat ∧ pos + 4 + 2 + listLength.toNat ≤ endOffset then do
        let nameType ← readAt data (pos + 4 + 2)
        let nameLength ← readWord data (pos + 4 + 2 + 1)
        if nameType = 0 ∧ pos + 4 + 2 + 3 + nameLength.toNat ≤ endOffset then do
          let first := pos + 4 + 2 + 3
          let last := pos + 4 + 2 + 3 + nameLength.toNat
          let _ ← rangeAt data first last
          pure ([pos], some (first, last))
        else do
          let (headers, name) ← tracedLoop data endOffset
            (pos + 4 + 2 + 3 + extensionLength.toNat)
          pure (pos :: headers, name)
      else do
        let (headers, name) ← tracedLoop data endOffset (pos + 4 + 2 + extensionLength.toNat)
        pure (pos :: headers, name)
    else do
      let (headers, name) ← tracedLoop data endOffset (pos + 4 + extensionLength.toNat)
      pure (pos :: headers, name)
  else pure ([], none)
termination_by endOffset - pos

/-- The bytes of a range. -/
def slice (data : Bytes) (range : ℕ × ℕ) : Bytes := (data.drop range.1).take (range.2 - range.1)

/-- What one pass adds to the trace of the rest. -/
def addHeader (q : ℕ) (trace : List ℕ × Option (ℕ × ℕ)) : List ℕ × Option (ℕ × ℕ) :=
  (q :: trace.1, trace.2)

variable {data : Bytes} {offset endOffset q : ℕ}

/-- **One pass of the traced loop** in a block that is captured. -/
theorem tracedLoop_step (hend : endOffset ≤ data.length) (hq : q + 4 ≤ endOffset) :
    tracedLoop data endOffset q
      = if FindsName data endOffset q
        then .ok ([q], some (q + 9, q + 9 + wordAt data (q + 7)))
        else addHeader q <$> tracedLoop data endOffset (next data endOffset q) := by
  obtain ⟨type, htypeAt, htype⟩ := readWord_eq_wordAt data q (by omega)
  obtain ⟨len, hlenAt, hlen⟩ := readWord_eq_wordAt data (q + 2) (by omega)
  have htype0 : type = 0 ↔ wordAt data q = 0 := by
    rw [← htype, ← UInt16.toNat_inj]
    rfl
  have henters : (wordAt data q = 0 ∧ q + 4 + wordAt data (q + 2) ≤ endOffset ∧
      2 < wordAt data (q + 2)) ↔ EntersList data endOffset q := Iff.rfl
  rw [tracedLoop, if_pos hq, htypeAt, hlenAt]
  simp only [bind_ok, htype0, hlen, henters]
  by_cases hlist : EntersList data endOffset q
  · have hbody := hlist.2
    obtain ⟨listLen, hlistAt, hlistLen⟩ := readWord_eq_wordAt data (q + 4) (by omega)
    rw [if_pos hlist, hlistAt]
    simp only [bind_ok, hlistLen]
    by_cases hname : EntersName data endOffset q
    · have hname' := hname.2
      obtain ⟨nameLen, hnameAt, hnameLen⟩ := readWord_eq_wordAt data (q + 7) (by omega)
      rw [if_pos ⟨hname'.1, by omega⟩, readAt_eq_getD (show q + 6 < data.length by omega), hnameAt]
      simp only [bind_ok, hnameLen]
      by_cases hfind : FindsName data endOffset q
      · have hrange := hfind.2.2
        rw [if_pos ⟨hfind.2.1, by omega⟩, if_pos hfind, rangeAt_of_le (by omega) (by omega)]
        rfl
      · rw [if_neg fun h => hfind ⟨hname, h.1, by omega⟩, if_neg hfind, next_of_entersName hname]
        rfl
    · rw [if_neg fun h => hname ⟨hlist, h.1, by omega⟩, if_neg fun h => hname h.1,
        next_of_entersList hlist hname]
      rfl
  · rw [if_neg hlist, if_neg fun h => hlist h.1.1, next_of_not_entersList hlist]
    rfl

theorem tracedLoop_of_lt (h : endOffset < q + 4) :
    tracedLoop data endOffset q = .ok ([], none) := by
  rw [tracedLoop, if_neg (by omega)]
  rfl

/-- **The traced loop is the loop**: its name is the range that it copies. -/
theorem extensionLoop_eq (hend : endOffset ≤ data.length) :
    extensionLoop data endOffset q
      = (fun trace => trace.2.map (slice data)) <$> tracedLoop data endOffset q := by
  induction hm : endOffset - q using Nat.strong_induction_on generalizing q with
  | _ m ih =>
    by_cases hq : q + 4 ≤ endOffset
    · have hlt := lt_next data endOffset q
      rw [extensionLoop_step hq ((needed_le hq).trans hend), tracedLoop_step hend hq,
        ih _ (by omega) rfl]
      by_cases hfind : FindsName data endOffset q
      · rw [if_pos hfind, if_pos hfind]
        simp [slice]
      · rw [if_neg hfind, if_neg hfind, ← comp_map]
        rfl
    · rw [extensionLoop, if_neg hq, tracedLoop_of_lt (Nat.lt_of_not_le hq)]
      rfl

/-- A header that lies in the block is read. -/
theorem mem_headers {trace : List ℕ × Option (ℕ × ℕ)} (hend : endOffset ≤ data.length)
    (hq : q + 4 ≤ endOffset) (h : tracedLoop data endOffset q = .ok trace) : q ∈ trace.1 := by
  rw [tracedLoop_step hend hq] at h
  split_ifs at h
  · obtain rfl := Except.ok.inj h
    exact List.mem_singleton_self q
  · cases hrest : tracedLoop data endOffset (next data endOffset q) with
    | error fault =>
      rw [hrest] at h
      cases h
    | ok rest =>
      rw [hrest] at h
      obtain rfl := Except.ok.inj h
      exact List.mem_cons_self

/-! ### The positions of the extensions -/

/-- One extension: a header that begins in the block, and its body. -/
def Follows (data : Bytes) (endOffset q q' : ℕ) : Prop :=
  q + 4 ≤ endOffset ∧ q' = q + 4 + wordAt data (q + 2)

/-- An extension begins at `q`, after others that begin at `offset`. -/
def ExtensionAt (data : Bytes) (endOffset offset q : ℕ) : Prop :=
  Relation.ReflTransGen (Follows data endOffset) offset q

theorem ExtensionAt.step (h : ExtensionAt data endOffset offset q) (hq : q + 4 ≤ endOffset) :
    ExtensionAt data endOffset offset (q + 4 + wordAt data (q + 2)) :=
  h.tail ⟨hq, rfl⟩

theorem ExtensionAt.le (h : ExtensionAt data endOffset offset q) : offset ≤ q := by
  induction h with
  | refl => exact le_rfl
  | tail _ hlast ih =>
    obtain ⟨_, rfl⟩ := hlast
    omega

theorem eq_or_le_of_extensionAt {p : ℕ} (h : ExtensionAt data endOffset p q) :
    p = q ∨ (p + 4 ≤ endOffset ∧ p + 4 + wordAt data (p + 2) ≤ q) := by
  rcases h.cases_head with rfl | ⟨p', ⟨hp, rfl⟩, hrest⟩
  · exact .inl rfl
  · exact .inr ⟨hp, ExtensionAt.le hrest⟩

/-- **Extensions do not overlap.** -/
theorem ExtensionAt.apart {p : ℕ} (hp : ExtensionAt data endOffset offset p)
    (hq : ExtensionAt data endOffset offset q) :
    p = q ∨ (p + 4 ≤ endOffset ∧ p + 4 + wordAt data (p + 2) ≤ q) ∨
      (q + 4 ≤ endOffset ∧ q + 4 + wordAt data (q + 2) ≤ p) := by
  have hunique : Relator.RightUnique (Follows data endOffset) := by
    rintro a b c ⟨_, rfl⟩ ⟨_, rfl⟩
    rfl
  rcases hp.total_of_right_unique hunique hq with hpq | hqp
  · rcases eq_or_le_of_extensionAt hpq with h | h
    · exact .inl h
    · exact .inr (.inl h)
  · rcases eq_or_le_of_extensionAt hqp with h | h
    · exact .inl h.symm
    · exact .inr (.inr h)

/-- The range lies in the body of a server name extension, in the name list that it declares, and
in the block. -/
def InServerName (data : Bytes) (offset endOffset : ℕ) (range : ℕ × ℕ) : Prop :=
  ∃ q, ExtensionAt data endOffset offset q ∧ wordAt data q = 0 ∧
    q + 6 ≤ range.1 ∧ range.1 ≤ range.2 ∧ range.2 ≤ q + 4 + wordAt data (q + 2) ∧
    range.2 ≤ q + 6 + wordAt data (q + 4) ∧ range.2 ≤ endOffset

/-- Every header is read where an extension begins, and the name lies in a server name
extension. -/
def Aligned (data : Bytes) (offset endOffset : ℕ) (trace : List ℕ × Option (ℕ × ℕ)) : Prop :=
  (∀ p ∈ trace.1, ExtensionAt data endOffset offset p) ∧
    ∀ range ∈ trace.2, InServerName data offset endOffset range

/-! ### Regular blocks -/

/-- From an extension at `q` on the walk meets nothing that leads it astray.  It steps over what it
does not take for a server name list; a host name that it finds fits into its list and into its
extension; and where it has entered a list without finding one, it is over after the two or five
bytes that it goes too far, or it goes just over an extension with a body of one byte. -/
inductive Regular (data : Bytes) (endOffset : ℕ) : ℕ → Prop
  | done {q : ℕ} (h : endOffset < q + 4) : Regular data endOffset q
  | skip {q : ℕ} (hq : q + 4 ≤ endOffset) (h : ¬ EntersList data endOffset q)
    (rest : Regular data endOffset (q + 4 + wordAt data (q + 2))) : Regular data endOffset q
  | name {q : ℕ} (h : FindsName data endOffset q)
    (hlist : 3 + wordAt data (q + 7) ≤ wordAt data (q + 4))
    (hbody : 5 + wordAt data (q + 7) ≤ wordAt data (q + 2)) : Regular data endOffset q
  | last {q : ℕ} (h : EntersList data endOffset q) (hno : ¬ FindsName data endOffset q)
    (hend : endOffset < next data endOffset q + 4) : Regular data endOffset q
  | again {q : ℕ} (h : EntersName data endOffset q) (hno : ¬ FindsName data endOffset q)
    (hone : wordAt data (q + 4 + wordAt data (q + 2) + 2) = 1)
    (hbegins : q + 4 + wordAt data (q + 2) + 4 ≤ endOffset)
    (rest : Regular data endOffset (next data endOffset q)) : Regular data endOffset q

/-! ### Alignment is regularity -/

/-- A host name in a server name extension lies in the one in which it was found. -/
theorem fits_of_inServerName (hq : ExtensionAt data endOffset offset q)
    (hfind : FindsName data endOffset q)
    (h : InServerName data offset endOffset (q + 9, q + 9 + wordAt data (q + 7))) :
    3 + wordAt data (q + 7) ≤ wordAt data (q + 4) ∧
      5 + wordAt data (q + 7) ≤ wordAt data (q + 2) := by
  obtain ⟨p, hp, -, hfirst, -, hbody, hlist, -⟩ := h
  have hlen := hfind.1.1.2.2
  simp only at hfirst hbody hlist
  -- the extension that the name lies in overlaps the one in which it was found
  obtain rfl : p = q := by
    rcases hp.apart hq with h | h | h <;> omega
  omega

/-- After a list that was entered without finding a name, the walk comes to an extension only if it
has entered a name, and the extension that it skips has a body of one byte. -/
theorem next_of_extensionAt (hq : ExtensionAt data endOffset offset q)
    (hlist : EntersList data endOffset q)
    (hnext : ExtensionAt data endOffset offset (next data endOffset q)) :
    EntersName data endOffset q ∧ wordAt data (q + 4 + wordAt data (q + 2) + 2) = 1 ∧
      q + 4 + wordAt data (q + 2) + 4 ≤ endOffset := by
  have hbody := hlist.2.1
  have hskipped := hq.step (show q + 4 ≤ endOffset by omega)
  have hapart := hnext.apart hskipped
  by_cases hname : EntersName data endOffset q
  · rw [next_of_entersName hname] at hapart hnext
    refine ⟨hname, ?_, by omega⟩
    by_contra hone
    -- without a body the skipped extension would be followed by one a byte before the walk
    have hempty : wordAt data (q + 4 + wordAt data (q + 2) + 2) = 0 := by omega
    have hfollowing := hskipped.step (by omega)
    rw [hempty] at hfollowing
    have := hnext.apart hfollowing
    omega
  · -- the walk is two bytes into the header of the next extension
    rw [next_of_entersList hlist hname] at hapart
    omega

/-- An aligned walk from an extension is regular. -/
theorem regular_of_aligned (hend : endOffset ≤ data.length)
    (hq : ExtensionAt data endOffset offset q) {trace : List ℕ × Option (ℕ × ℕ)}
    (htrace : tracedLoop data endOffset q = .ok trace)
    (haligned : Aligned data offset endOffset trace) : Regular data endOffset q := by
  induction hm : endOffset - q using Nat.strong_induction_on generalizing q trace with
  | _ m ih =>
    by_cases hlt : endOffset < q + 4
    · exact .done hlt
    have hq4 : q + 4 ≤ endOffset := Nat.le_of_not_lt hlt
    rw [tracedLoop_step hend hq4] at htrace
    by_cases hfind : FindsName data endOffset q
    · rw [if_pos hfind] at htrace
      obtain rfl := Except.ok.inj htrace
      have hfits := fits_of_inServerName hq hfind (haligned.2 _ rfl)
      exact .name hfind hfits.1 hfits.2
    · rw [if_neg hfind] at htrace
      cases hrest : tracedLoop data endOffset (next data endOffset q) with
      | error fault =>
        rw [hrest] at htrace
        cases htrace
      | ok rest =>
        rw [hrest] at htrace
        obtain rfl := Except.ok.inj htrace
        have hrestAligned : Aligned data offset endOffset rest :=
          ⟨fun p hp => haligned.1 p (List.mem_cons_of_mem q hp), haligned.2⟩
        have hnextLt := lt_next data endOffset q
        by_cases hlist : EntersList data endOffset q
        · -- a list without a name: the walk is over, or has skipped the next extension
          by_cases hover : endOffset < next data endOffset q + 4
          · exact .last hlist hfind hover
          · have hnext : ExtensionAt data endOffset offset (next data endOffset q) :=
              hrestAligned.1 _ (mem_headers hend (by omega) hrest)
            obtain ⟨hname, hone, hbegins⟩ := next_of_extensionAt hq hlist hnext
            exact .again hname hfind hone hbegins (ih _ (by omega) hnext hrest hrestAligned rfl)
        · -- the pass steps over the extension, and the walk goes on at the next one
          rw [next_of_not_entersList hlist] at hrest hnextLt
          exact .skip hq4 hlist (ih _ (by omega) (hq.step hq4) hrest hrestAligned rfl)

theorem Aligned.addHeader {trace : List ℕ × Option (ℕ × ℕ)}
    (hq : ExtensionAt data endOffset offset q) (h : Aligned data offset endOffset trace) :
    Aligned data offset endOffset (addHeader q trace) := by
  refine ⟨fun p hp => ?_, h.2⟩
  rcases List.mem_cons.mp hp with rfl | hp
  · exact hq
  · exact h.1 p hp

/-- An aligned rest and a header at an extension make an aligned walk. -/
theorem aligned_of_next (hend : endOffset ≤ data.length) (hq4 : q + 4 ≤ endOffset)
    (hq : ExtensionAt data endOffset offset q) (hfind : ¬ FindsName data endOffset q)
    (h : ∃ trace, tracedLoop data endOffset (next data endOffset q) = .ok trace ∧
      Aligned data offset endOffset trace) :
    ∃ trace, tracedLoop data endOffset q = .ok trace ∧ Aligned data offset endOffset trace := by
  obtain ⟨trace, htrace, haligned⟩ := h
  refine ⟨addHeader q trace, ?_, haligned.addHeader hq⟩
  rw [tracedLoop_step hend hq4, if_neg hfind, htrace]
  rfl

/-- A regular walk from an extension is aligned. -/
theorem aligned_of_regular (hend : endOffset ≤ data.length)
    (hq : ExtensionAt data endOffset offset q) (h : Regular data endOffset q) :
    ∃ trace, tracedLoop data endOffset q = .ok trace ∧ Aligned data offset endOffset trace := by
  induction h with
  | done hlt => exact ⟨([], none), tracedLoop_of_lt hlt, by simp [Aligned]⟩
  | @skip q hq4 hlist _ ih =>
    apply aligned_of_next hend hq4 hq fun h => hlist h.1.1
    rw [next_of_not_entersList hlist]
    exact ih (hq.step hq4)
  | @name q hfind hlist hbody =>
    have hq4 : q + 4 ≤ endOffset := by
      have := hfind.1.1.2
      omega
    refine ⟨([q], some (q + 9, q + 9 + wordAt data (q + 7))), ?_, by simpa using hq, ?_⟩
    · rw [tracedLoop_step hend hq4, if_pos hfind]
    · rintro range ⟨rfl⟩
      exact ⟨q, hq, hfind.1.1.1, by omega, by omega, by simp only; omega, by simp only; omega,
        hfind.2.2⟩
  | @last q hlist hfind hover =>
    have hbody := hlist.2.1
    apply aligned_of_next hend (by omega) hq hfind
    exact ⟨([], none), tracedLoop_of_lt hover, by simp [Aligned]⟩
  | @again q hname hfind hone hbegins _ ih =>
    have hbody := hname.1.2.1
    have hskipped := hq.step (show q + 4 ≤ endOffset by omega)
    have hnext : next data endOffset q
        = q + 4 + wordAt data (q + 2) + 4 + wordAt data (q + 4 + wordAt data (q + 2) + 2) := by
      rw [next_of_entersName hname, hone]
      omega
    apply aligned_of_next hend (by omega) hq hfind
    apply ih
    rw [hnext]
    exact hskipped.step hbegins

/-! ### The walk of a block -/

/-- Every header of the walk over a block is read where an extension of the block begins, and a name
that it returns is a range of bytes in a server name extension: in the body of the extension, in the
name list that it declares, and in the block. -/
def NamesFromExtension (data : Bytes) (offset length : ℕ) : Prop :=
  ∃ headers range, tracedLoop data (offset + length) offset = .ok (headers, range) ∧
    extractServerName data offset length = .ok (range.map (slice data)) ∧
    (∀ p ∈ headers, ExtensionAt data (offset + length) offset p) ∧
    ∀ ends ∈ range, InServerName data offset (offset + length) ends

/-- **A server name comes only from its extension, exactly in regular blocks**, for every block that
is captured. -/
theorem namesFromExtension_iff (data : Bytes) (offset length : ℕ)
    (hlength : offset + length ≤ data.length) :
    NamesFromExtension data offset length ↔ Regular data (offset + length) offset := by
  constructor
  · rintro ⟨headers, range, htrace, -, haligned⟩
    exact regular_of_aligned hlength Relation.ReflTransGen.refl htrace haligned
  · intro hregular
    obtain ⟨⟨headers, range⟩, htrace, haligned⟩ :=
      aligned_of_regular hlength Relation.ReflTransGen.refl hregular
    refine ⟨headers, range, htrace, ?_, haligned⟩
    rw [extractServerName, extensionLoop_eq hlength, htrace]
    rfl

/-- The extension block with the single host name `a` is read as it should be. -/
theorem namesFromExtension_a :
    NamesFromExtension [0, 0, 0, 6, 0, 4, 0, 0, 1, 0x61] 0 10 :=
  (namesFromExtension_iff _ 0 10 (by decide)).mpr
    (.name (by decide) (by decide) (by decide))

/-- A server name extension with an empty name list, one without a body and one of type 16: there is
no host name, and yet the walk finds `a` in the body of the last one. -/
def misreadBlock : Bytes :=
  [0, 0, 0, 3, 0, 0, 0,
    0, 0x15, 0, 0,
    0, 16, 0, 14, 0, 0, 1, 0x61, 0, 0, 0, 0, 0, 0, 0, 0, 0, 0]

theorem not_namesFromExtension_misreadBlock :
    extractServerName misreadBlock 0 29 = .ok (some [0x61]) ∧
      ¬ NamesFromExtension misreadBlock 0 29 := by
  constructor
  · rw [extractServerName, extensionLoop_step (by decide) (by decide), if_neg (by decide),
      show next misreadBlock 29 0 = 9 by decide, extensionLoop_step (by decide) (by decide),
      if_pos (by decide)]
    rfl
  · rintro ⟨headers, range, htrace, -, haligned⟩
    have hregular : Regular misreadBlock 29 0 :=
      regular_of_aligned (by decide) Relation.ReflTransGen.refl htrace haligned
    cases hregular with
    | done h => exact absurd h (by decide)
    | skip _ h _ => exact absurd h (by decide)
    | name h _ _ => exact absurd h (by decide)
    | last _ _ h => exact absurd h (by decide)
    | again h _ _ _ _ => exact absurd h (by decide)

end NetSentry.TlsParser
