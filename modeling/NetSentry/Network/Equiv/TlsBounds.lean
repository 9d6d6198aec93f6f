import Mathlib.Logic.Relation
import NetSentry.Network.Equiv.TlsParser

/-!
# Which packets the TLS parser reads out of bounds

The extension walk compares its position with the declared end of the extension block, which is
read from the packet, and not with the number of bytes captured.  Everything before the walk stays
inside the packet.

* `extensionLoop_step`, `not_defined_of_needed`: one pass of the loop reads up to `needed`, and goes
  on at `next` unless it finds a name.
* `extensionLoop_defined_iff`: the walk stays inside exactly when the extensions it hops over are
  captured and it comes to a position where it halts.
* `parse_defined_iff`: the same for the whole parser.
* `parse_defined_of_block_le`: a packet whose declared extension block ends inside it is safe.
-/

namespace NetSentry.TlsParser

open Bytes Checked

/-! ### What one pass of the loop looks at

The fields are read as numbers from the bytes of the packet; a byte that is not there counts as
zero, which matters only where the pass has already gone wrong. -/

variable (data : Bytes) (endOffset q : ℕ)

/-- The pass at `q` takes the extension for a server name list: type 0, a body of more than two
bytes, inside the declared block. -/
def EntersList : Prop :=
  wordAt data q = 0 ∧ q + 4 + wordAt data (q + 2) ≤ endOffset ∧ 2 < wordAt data (q + 2)

/-- It goes on to the first entry of the list: a list of more than three bytes, inside the block. -/
def EntersName : Prop :=
  EntersList data endOffset q ∧ 3 < wordAt data (q + 4) ∧
    q + 6 + wordAt data (q + 4) ≤ endOffset

/-- It takes that entry for a host name inside the block, which ends the walk. -/
def FindsName : Prop :=
  EntersName data endOffset q ∧ data.getD (q + 6) 0 = 0 ∧ q + 9 + wordAt data (q + 7) ≤ endOffset

instance : Decidable (EntersList data endOffset q) := inferInstanceAs (Decidable (_ ∧ _ ∧ _))
instance : Decidable (EntersName data endOffset q) := inferInstanceAs (Decidable (_ ∧ _ ∧ _))
instance : Decidable (FindsName data endOffset q) := inferInstanceAs (Decidable (_ ∧ _ ∧ _))

/-- The number of bytes a packet must have for the pass at `q` to stay inside it. -/
def needed : ℕ :=
  if FindsName data endOffset q then q + 9 + wordAt data (q + 7)
  else if EntersName data endOffset q then q + 9
  else if EntersList data endOffset q then q + 6
  else q + 4

/-- Where the next pass begins: the length of the extension is added to wherever the pass has got
to. -/
def next : ℕ :=
  wordAt data (q + 2) +
    (if EntersName data endOffset q then q + 9
    else if EntersList data endOffset q then q + 6
    else q + 4)

/-- The walk steps from `q` over a captured extension to `q'`. -/
def Hop (q q' : ℕ) : Prop :=
  q + 4 ≤ endOffset ∧ needed data endOffset q ≤ data.length ∧ ¬ FindsName data endOffset q ∧
    q' = next data endOffset q

/-- The walk ends at `q`: fewer than four bytes of the block are left, or a captured host name is
found. -/
def Halts (q : ℕ) : Prop :=
  endOffset < q + 4 ∨ (needed data endOffset q ≤ data.length ∧ FindsName data endOffset q)

theorem lt_next : q < next data endOffset q := by
  unfold next
  split_ifs <;> omega

variable {data endOffset q}

theorem next_of_entersName (h : EntersName data endOffset q) :
    next data endOffset q = q + 9 + wordAt data (q + 2) := by
  rw [next, if_pos h, Nat.add_comm]

theorem next_of_entersList (hlist : EntersList data endOffset q)
    (hname : ¬ EntersName data endOffset q) :
    next data endOffset q = q + 6 + wordAt data (q + 2) := by
  rw [next, if_neg hname, if_pos hlist, Nat.add_comm]

theorem next_of_not_entersList (h : ¬ EntersList data endOffset q) :
    next data endOffset q = q + 4 + wordAt data (q + 2) := by
  rw [next, if_neg fun hname => h hname.1, if_neg h, Nat.add_comm]

theorem le_needed : q + 4 ≤ needed data endOffset q := by
  unfold needed
  split_ifs <;> omega

theorem le_needed_of_entersList (h : EntersList data endOffset q) :
    q + 6 ≤ needed data endOffset q := by
  unfold needed
  split_ifs <;> omega

theorem le_needed_of_entersName (h : EntersName data endOffset q) :
    q + 9 ≤ needed data endOffset q := by
  unfold needed
  split_ifs <;> omega

/-! ### One pass -/

variable (data endOffset q)

/-- The rest of a pass that has entered the name list and its first entry. -/
def namePass : Checked (Option Bytes) := do
  let nameType ← readAt data (q + 6)
  let nameLength ← readWord data (q + 7)
  if nameType = 0 ∧ q + 9 + nameLength.toNat ≤ endOffset then do
    let name ← rangeAt data (q + 9) (q + 9 + nameLength.toNat)
    pure (some name)
  else extensionLoop data endOffset (q + 9 + wordAt data (q + 2))

/-- The rest of a pass that has entered the name list. -/
def listPass : Checked (Option Bytes) := do
  let listLength ← readWord data (q + 4)
  if 3 < listLength.toNat ∧ q + 6 + listLength.toNat ≤ endOffset then namePass data endOffset q
  else extensionLoop data endOffset (q + 6 + wordAt data (q + 2))

variable {data endOffset q}

theorem extensionLoop_fields (hq : q + 4 ≤ endOffset) (h4 : q + 4 ≤ data.length) :
    extensionLoop data endOffset q
      = if EntersList data endOffset q then listPass data endOffset q
        else extensionLoop data endOffset (q + 4 + wordAt data (q + 2)) := by
  obtain ⟨type, htypeAt, htype⟩ := readWord_eq_wordAt data q (by omega)
  obtain ⟨len, hlenAt, hlen⟩ := readWord_eq_wordAt data (q + 2) (by omega)
  have htype0 : type = 0 ↔ wordAt data q = 0 := by
    rw [← htype, ← UInt16.toNat_inj]
    rfl
  conv_lhs => rw [extensionLoop]
  rw [if_pos hq, htypeAt, hlenAt]
  simp only [bind_ok, htype0, hlen]
  rfl

theorem listPass_fields (hlist : EntersList data endOffset q) (h6 : q + 6 ≤ data.length) :
    listPass data endOffset q
      = if EntersName data endOffset q then namePass data endOffset q
        else extensionLoop data endOffset (q + 6 + wordAt data (q + 2)) := by
  obtain ⟨len, hlenAt, hlen⟩ := readWord_eq_wordAt data (q + 4) (by omega)
  rw [listPass, hlenAt]
  simp only [bind_ok, hlen]
  exact if_congr ⟨fun h => ⟨hlist, h⟩, fun h => h.2⟩ rfl rfl

theorem namePass_fields (hname : EntersName data endOffset q) (h9 : q + 9 ≤ data.length) :
    namePass data endOffset q
      = if FindsName data endOffset q
        then rangeAt data (q + 9) (q + 9 + wordAt data (q + 7)) >>= fun name => pure (some name)
        else extensionLoop data endOffset (q + 9 + wordAt data (q + 2)) := by
  obtain ⟨len, hlenAt, hlen⟩ := readWord_eq_wordAt data (q + 7) (by omega)
  rw [namePass, readAt_eq_getD (show q + 6 < data.length by omega), hlenAt]
  simp only [bind_ok, hlen]
  exact if_congr ⟨fun h => ⟨hname, h⟩, fun h => h.2⟩ rfl rfl

/-- **One pass over captured bytes** ends the walk with a name or goes on at `next`. -/
theorem extensionLoop_step (hq : q + 4 ≤ endOffset)
    (hneeded : needed data endOffset q ≤ data.length) :
    extensionLoop data endOffset q
      = if FindsName data endOffset q
        then .ok (some ((data.drop (q + 9)).take (wordAt data (q + 7))))
        else extensionLoop data endOffset (next data endOffset q) := by
  have h4 : q + 4 ≤ data.length := le_needed.trans hneeded
  rw [extensionLoop_fields hq h4]
  by_cases hlist : EntersList data endOffset q
  · have h6 : q + 6 ≤ data.length := (le_needed_of_entersList hlist).trans hneeded
    rw [if_pos hlist, listPass_fields hlist h6]
    by_cases hname : EntersName data endOffset q
    · have h9 : q + 9 ≤ data.length := (le_needed_of_entersName hname).trans hneeded
      rw [if_pos hname, namePass_fields hname h9]
      by_cases hfind : FindsName data endOffset q
      · have hend : q + 9 + wordAt data (q + 7) ≤ data.length := by
          rwa [needed, if_pos hfind] at hneeded
        rw [if_pos hfind, if_pos hfind, rangeAt_of_le (by omega) (by omega),
          Nat.add_sub_cancel_left]
        rfl
      · rw [if_neg hfind, if_neg hfind, next_of_entersName hname]
    · rw [if_neg hname, if_neg (fun h => hname h.1), next_of_entersList hlist hname]
  · rw [if_neg hlist, if_neg (fun h => hlist h.1.1), next_of_not_entersList hlist]

/-- **One pass over bytes that were not captured** leaves the packet. -/
theorem not_defined_of_needed (hq : q + 4 ≤ endOffset)
    (hneeded : data.length < needed data endOffset q) :
    ¬ Defined (extensionLoop data endOffset q) := by
  by_cases h4 : q + 4 ≤ data.length
  · rw [extensionLoop_fields hq h4]
    by_cases hlist : EntersList data endOffset q
    · rw [if_pos hlist]
      by_cases h6 : q + 6 ≤ data.length
      · rw [listPass_fields hlist h6]
        by_cases hname : EntersName data endOffset q
        · rw [if_pos hname]
          by_cases h9 : q + 9 ≤ data.length
          · rw [namePass_fields hname h9]
            by_cases hfind : FindsName data endOffset q
            · -- the whole name is copied, and it ends past the packet
              rw [if_pos hfind]
              refine not_defined_of_bind fun h => ?_
              have hrange := (defined_rangeAt.mp h).2
              rw [needed, if_pos hfind] at hneeded
              omega
            · rw [needed, if_neg hfind, if_pos hname] at hneeded
              omega
          · -- the name type or the name length is past the packet
            intro h
            obtain ⟨_, htypeAt, h⟩ := defined_bind.mp h
            obtain ⟨_, hlenAt, _⟩ := defined_bind.mp h
            have := defined_readAt.mp ⟨_, htypeAt⟩
            have := defined_readWord.mp ⟨_, hlenAt⟩
            omega
        · rw [needed, if_neg (fun h => hname h.1), if_neg hname, if_pos hlist] at hneeded
          omega
      · -- the list length is past the packet
        refine not_defined_of_bind fun h => ?_
        have := defined_readWord.mp h
        omega
    · rw [needed, if_neg (fun h => hlist h.1.1), if_neg (fun h => hlist h.1), if_neg hlist]
        at hneeded
      omega
  · -- the header is past the packet
    rw [extensionLoop, if_pos hq]
    intro h
    obtain ⟨_, htypeAt, h⟩ := defined_bind.mp h
    obtain ⟨_, hlenAt, _⟩ := defined_bind.mp h
    have := defined_readWord.mp ⟨_, hlenAt⟩
    omega

/-! ### The whole walk -/

/-- **The walk stays inside the packet** exactly when it hops over captured extensions to a position
where it halts. -/
theorem extensionLoop_defined_iff :
    Defined (extensionLoop data endOffset q)
      ↔ ∃ q', Relation.ReflTransGen (Hop data endOffset) q q' ∧ Halts data endOffset q' := by
  -- by induction on what is left of the block: a pass ends the walk or moves on to `next`
  induction hm : endOffset - q using Nat.strong_induction_on generalizing q with
  | _ m ih =>
    by_cases hq : q + 4 ≤ endOffset
    · by_cases hneeded : needed data endOffset q ≤ data.length
      · rw [extensionLoop_step hq hneeded]
        by_cases hfind : FindsName data endOffset q
        · rw [if_pos hfind]
          exact ⟨fun _ => ⟨q, .refl, .inr ⟨hneeded, hfind⟩⟩, fun _ => defined_ok _⟩
        · have hlt := lt_next data endOffset q
          rw [if_neg hfind, ih _ (by omega) rfl]
          constructor
          · rintro ⟨q', hwalk, hhalts⟩
            exact ⟨q', .head ⟨hq, hneeded, hfind, rfl⟩ hwalk, hhalts⟩
          · rintro ⟨q', hwalk, hhalts⟩
            rcases hwalk.cases_head with rfl | ⟨q₁, ⟨_, _, _, rfl⟩, hrest⟩
            · rcases hhalts with hhalts | hhalts
              · omega
              · exact absurd hhalts.2 hfind
            · exact ⟨q', hrest, hhalts⟩
      · -- the pass leaves the packet, and no walk starts at such a position
        constructor
        · intro h
          exact absurd h (not_defined_of_needed hq (Nat.lt_of_not_le hneeded))
        · rintro ⟨q', hwalk, hhalts⟩
          rcases hwalk.cases_head with rfl | ⟨q₁, hhop, _⟩
          · rcases hhalts with hhalts | hhalts
            · omega
            · exact absurd hhalts.1 hneeded
          · exact absurd hhop.2.1 hneeded
    · rw [extensionLoop, if_neg hq]
      exact ⟨fun _ => ⟨q, .refl, .inl (Nat.lt_of_not_le hq)⟩, fun _ => defined_pure _⟩

/-- A pass never needs more than the declared block. -/
theorem needed_le (hq : q + 4 ≤ endOffset) : needed data endOffset q ≤ endOffset := by
  unfold needed
  split_ifs with hfind hname hlist
  · exact hfind.2.2
  · have := hname.2
    omega
  · have := hlist.2
    omega
  · exact hq

/-- A declared block that ends inside the packet is walked safely. -/
theorem extensionLoop_defined_of_le (h : endOffset ≤ data.length) :
    Defined (extensionLoop data endOffset q) := by
  induction hm : endOffset - q using Nat.strong_induction_on generalizing q with
  | _ m ih =>
    by_cases hq : q + 4 ≤ endOffset
    · have hlt := lt_next data endOffset q
      rw [extensionLoop_step hq ((needed_le hq).trans h)]
      split_ifs
      · exact defined_ok _
      · exact ih _ (by omega) rfl
    · rw [extensionLoop, if_neg hq]
      exact defined_pure _

/-! ### The packet -/

variable (data) in
/-- Where the length of the extension block is looked for: after the session id, the cipher suites
and the compression methods of a client hello. -/
def blockLengthOffset : ℕ :=
  let cipherSuites := 44 + (data.getD 43 0).toNat
  let compressionMethods := cipherSuites + (2 + wordAt data cipherSuites)
  compressionMethods + (1 + (data.getD compressionMethods 0).toNat)

variable (data) in
/-- The fields before the extension block are captured, and so is something after its length. -/
def ReachesBlock : Prop :=
  let cipherSuites := 44 + (data.getD 43 0).toNat
  let compressionMethods := cipherSuites + (2 + wordAt data cipherSuites)
  cipherSuites + 2 < data.length ∧ compressionMethods + 1 < data.length ∧
    blockLengthOffset data + 2 < data.length

theorem clientHelloServerName_eq (h : 43 < data.length) :
    (ReachesBlock data → clientHelloServerName data
        = extractServerName data (blockLengthOffset data + 2)
            (wordAt data (blockLengthOffset data)))
      ∧ (¬ ReachesBlock data → clientHelloServerName data = .ok none) := by
  unfold clientHelloServerName ReachesBlock blockLengthOffset
  rw [readAt_eq_getD h]
  simp only [bind_ok]
  set cipherSuites := 44 + (data.getD 43 0).toNat
  by_cases h1 : cipherSuites + 2 < data.length
  · obtain ⟨suites, hsuitesAt, hsuites⟩ :=
      readWord_eq_wordAt data cipherSuites (by omega)
    rw [if_pos h1, hsuitesAt]
    simp only [bind_ok, hsuites]
    set compressionMethods := cipherSuites + (2 + wordAt data cipherSuites)
    by_cases h2 : compressionMethods + 1 < data.length
    · rw [if_pos h2, readAt_eq_getD (show compressionMethods < data.length by omega)]
      simp only [bind_ok]
      set lengthOffset := compressionMethods + (1 + (data.getD compressionMethods 0).toNat)
      by_cases h3 : lengthOffset + 2 < data.length
      · obtain ⟨length, hlengthAt, hlength⟩ :=
          readWord_eq_wordAt data lengthOffset (by omega)
        rw [if_pos h3, hlengthAt]
        simp only [bind_ok, hlength]
        exact ⟨fun _ => trivial, fun hno => absurd ⟨h1, h2, h3⟩ hno⟩
      · rw [if_neg h3]
        exact ⟨fun hyes => absurd hyes.2.2 h3, fun _ => rfl⟩
    · rw [if_neg h2]
      exact ⟨fun hyes => absurd hyes.2.1 h2, fun _ => rfl⟩
  · rw [if_neg h1]
    exact ⟨fun hyes => absurd hyes.1 h1, fun _ => rfl⟩

/-- The packet is taken for a TLS client hello whose extension block is declared at `offset`, inside
the packet, with `length` bytes. -/
def DeclaresBlock (packet : PacketInfo) (offset length : ℕ) : Prop :=
  Accepts packet ∧ IsClientHello packet.data ∧ ReachesBlock packet.data ∧
    offset = blockLengthOffset packet.data + 2 ∧
    length = wordAt packet.data (blockLengthOffset packet.data)

theorem defined_parse {packet : PacketInfo} :
    Defined (parse packet) ↔ ∀ offset length, DeclaresBlock packet offset length →
      Defined (extensionLoop packet.data (offset + length) offset) := by
  rw [parse_eq]
  by_cases haccepts : Accepts packet
  · by_cases hhello : IsClientHello packet.data
    · rw [if_pos haccepts, if_pos hhello]
      obtain ⟨hreach, hnoreach⟩ := clientHelloServerName_eq hhello.2.2
      by_cases hblock : ReachesBlock packet.data
      · rw [hreach hblock, defined_bind]
        constructor
        · rintro ⟨name, hname, _⟩ offset length ⟨_, _, _, rfl, rfl⟩
          exact ⟨name, hname⟩
        · intro h
          obtain ⟨name, hname⟩ := h _ _ ⟨haccepts, hhello, hblock, rfl, rfl⟩
          exact ⟨name, hname, defined_pure _⟩
      · rw [hnoreach hblock]
        exact ⟨fun _ _ _ h => absurd h.2.2.1 hblock, fun _ => defined_ok _⟩
    · rw [if_pos haccepts, if_neg hhello]
      exact ⟨fun _ _ _ h => absurd h.2.1 hhello, fun _ => defined_pure _⟩
  · rw [if_neg haccepts]
    exact ⟨fun _ _ _ h => absurd h.1 haccepts, fun _ => defined_pure _⟩

/-- **Which packets are read inside their bounds**: those whose extension block, if they declare
one, leads over captured extensions to the end of the block or to a captured host name. -/
theorem parse_defined_iff (packet : PacketInfo) :
    Defined (parse packet) ↔ ∀ offset length, DeclaresBlock packet offset length →
      ∃ q, Relation.ReflTransGen (Hop packet.data (offset + length)) offset q ∧
        Halts packet.data (offset + length) q := by
  simp only [defined_parse, extensionLoop_defined_iff]

/-- A client hello cut off one byte into its extension block, which declares 32 bytes. -/
def truncatedClientHello : PacketInfo where
  data := [22, 3, 1, 0, 80, 1, 0, 0, 76, 3, 3] ++ List.replicate 32 0
    ++ [0, 0, 2, 19, 1, 1, 0, 0, 32, 0]
  size := 107
  sourceIp := ascii "10.0.0.2"
  destIp := ascii "10.0.0.1"
  sourcePort := 50000
  destPort := 443
  protocol := IPPROTO_TCP
  timestamp := 0

theorem parse_truncatedClientHello :
    parse truncatedClientHello = .error (.outOfBounds 53 53) := by decide +kernel

theorem not_forall_parse_defined : ¬ ∀ packet, Defined (parse packet) := by
  intro h
  have hdef := h truncatedClientHello
  rw [parse_truncatedClientHello] at hdef
  exact not_defined_error _ hdef

/-- A packet whose declared extension block ends inside it is read inside its bounds. -/
theorem parse_defined_of_block_le (packet : PacketInfo)
    (h : ∀ offset length, DeclaresBlock packet offset length →
      offset + length ≤ packet.data.length) : Defined (parse packet) := by
  apply defined_parse.mpr
  intro offset length hblock
  exact extensionLoop_defined_of_le (h offset length hblock)

end NetSentry.TlsParser
