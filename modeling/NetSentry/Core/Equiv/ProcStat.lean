import Mathlib.Data.List.FinRange
import NetSentry.Core.Equiv.CpuCores
import NetSentry.Core.Equiv.CpuUsage

/-!
# What the kernel counts is what is published

A snapshot is what `/proc/stat` says of a machine with `n` processors: the counters of all of them
and of each one, in their lines, with other lines behind them.

* `readCpuStats_text`: the counters of a snapshot are read back from its text.
* `calculateCpuUsage_of_forward`: where no time has been taken back, the usage is the share of the
  time that the processor was busy.
* `updates_of_snapshots`: in every run whose readings are snapshots of a machine that goes on, each
  collection publishes these shares, for all processors together and for each one.
-/

namespace NetSentry.CpuCollector

open Bytes Checked

/-! ### The text of a snapshot -/

/-- A counter in a line, with a blank before it. -/
def counterText (value : UInt64) : Bytes := 32 :: decimal value.toNat

/-- The line of a processor, with `gap` more blanks behind its label. -/
def statLine (label : Bytes) (gap : ℕ) (stats : CpuStats) : Bytes :=
  label ++ (List.replicate gap 32 ++ (counterText stats.user ++ (counterText stats.nice ++
    (counterText stats.system ++ (counterText stats.idle ++ (counterText stats.iowait ++
      (counterText stats.irq ++ (counterText stats.softirq ++ (counterText stats.steal ++
        (counterText stats.guest ++ counterText stats.guestNice))))))))))

/-- What `/proc/stat` says of `n` processors. -/
structure Snapshot (n : ℕ) where
  all : CpuStats
  cores : Fin n → CpuStats
  /-- The lines behind those of the processors. -/
  others : Bytes
  others_head : ∀ line ∈ (getlines others).head?, line.take 3 ≠ ascii "cpu"

variable {n : ℕ}

/-- The lines of the processors. -/
def Snapshot.lines (s : Snapshot n) : List Bytes :=
  statLine (ascii "cpu") 1 s.all ::
    (List.finRange n).map fun i : Fin n => statLine (coreLabel i) 0 (s.cores i)

/-- The text of `/proc/stat`. -/
def Snapshot.text (s : Snapshot n) : Bytes := endLines s.lines ++ s.others

/-! ### Reading it back -/

/-- A label is a word. -/
structure IsLabel (label : Bytes) : Prop where
  ne_nil : label ≠ []
  not_space : ∀ c ∈ label, isSpace c = false

theorem isLabel_coreLabel (i : ℕ) : IsLabel (coreLabel i) where
  ne_nil := by simp [coreLabel, ascii]
  not_space := by
    intro c hc
    rcases List.mem_append.mp hc with hc | hc
    · have hcpu : ∀ c ∈ ascii "cpu", isSpace c = false := by decide +kernel
      exact hcpu c hc
    · exact not_isSpace_of_isDigit (forall_isDigit_decimal i c hc)

/-- A counter ends where the next one begins. -/
theorem not_isDigit_head_counterText (value : UInt64) (rest : Bytes) :
    ∀ c ∈ (counterText value ++ rest).head?, isDigit c = false := by
  rintro c ⟨⟩
  rfl

theorem not_isDigit_head (value : UInt64) :
    ∀ c ∈ (counterText value).head?, isDigit c = false := by
  rintro c ⟨⟩
  rfl

/-- **A counter in a line** is read. -/
theorem uint64_counterText (blanks : Bytes) {rest : Bytes} (value : UInt64)
    (hblanks : ∀ c ∈ blanks, isSpace c = true) (hrest : ∀ c ∈ rest.head?, isDigit c = false) :
    IStream.uint64 { rest := blanks ++ (counterText value ++ rest) } 0
      = (value, { rest := rest }) := by
  have hbefore : ∀ c ∈ blanks ++ [32], isSpace c = true := by
    intro c hc
    rcases List.mem_append.mp hc with hc | hc
    · exact hblanks c hc
    · rw [List.mem_singleton.mp hc]
      rfl
  have hnumber := IStream.uint64_decimal value 0 hbefore hrest
  rwa [List.append_assoc, List.singleton_append] at hnumber

/-- **The line of a processor** is read back. -/
theorem parseCpuLine_statLine {label : Bytes} (h : IsLabel label) (gap : ℕ) (stats : CpuStats) :
    parseCpuLine (statLine label gap stats) = stats := by
  have hblanks : ∀ c ∈ List.replicate gap (32 : UInt8), isSpace c = true := by
    intro c hc
    rw [List.eq_of_mem_replicate hc]
    rfl
  have hlabel : ∀ rest, (∀ c ∈ rest.head?, isSpace c = true) →
      IStream.word { rest := label ++ rest } = (label, { rest := rest }) := by
    intro rest hrest
    exact IStream.word_append [] nofun h.ne_nil h.not_space hrest
  have hnext : ∀ value rest, (∀ c ∈ rest.head?, isDigit c = false) →
      IStream.uint64 { rest := counterText value ++ rest } 0 = (value, { rest := rest }) := by
    intro value rest hrest
    exact uint64_counterText [] value nofun hrest
  have hlast : ∀ value,
      IStream.uint64 { rest := counterText value } 0 = (value, { rest := [] }) := by
    intro value
    have hend := hnext value [] nofun
    rwa [List.append_nil] at hend
  -- the label ends at a blank, be it one of the gap or that of the first counter
  have hgap : ∀ value rest, ∀ c ∈ (List.replicate gap 32 ++ (counterText value ++ rest)).head?,
      isSpace c = true := by
    intro value rest c hc
    cases gap with
    | zero =>
      obtain rfl := Option.some.inj hc
      rfl
    | succ gap =>
      obtain rfl := Option.some.inj hc
      rfl
  unfold parseCpuLine statLine
  simp only [hlabel _ (hgap _ _), uint64_counterText _ _ hblanks (not_isDigit_head_counterText _ _),
    hnext _ _ (not_isDigit_head_counterText _ _), hnext _ _ (not_isDigit_head _), hlast]

/-- No line of a processor has a line feed in it. -/
theorem oneLine_statLine {label : Bytes} (h : IsLabel label) (gap : ℕ) (stats : CpuStats) :
    10 ∉ statLine label gap stats := by
  have hcounter : ∀ value, 10 ∉ counterText value := by
    intro value hmem
    rcases List.mem_cons.mp hmem with heq | hdigit
    · cases heq
    · cases forall_isDigit_decimal _ _ hdigit
  have hlabel : 10 ∉ label := by
    intro hmem
    cases h.not_space 10 hmem
  simp [statLine, hlabel, hcounter]

theorem take_three_statLine (label : Bytes) (gap : ℕ) (stats : CpuStats) :
    (statLine (ascii "cpu" ++ label) gap stats).take 3 = ascii "cpu" := by
  rw [statLine, List.append_assoc]
  rfl

/-- The line of all processors. -/
theorem isLabel_cpu : IsLabel (ascii "cpu") where
  ne_nil := by decide
  not_space := by decide +kernel

/-- What the lines of a snapshot are. -/
theorem Snapshot.forall_lines (s : Snapshot n) {property : Bytes → Prop}
    (hall : property (statLine (ascii "cpu") 1 s.all))
    (hcores : ∀ i : Fin n, property (statLine (coreLabel i) 0 (s.cores i))) :
    ∀ line ∈ s.lines, property line := by
  refine List.forall_mem_cons.mpr ⟨hall, ?_⟩
  intro line hline
  obtain ⟨i, -, rfl⟩ := List.mem_map.mp hline
  exact hcores i

/-- **A snapshot is read back** from its text. -/
theorem readCpuStats_text (s : Snapshot n) :
    readCpuStats (some s.text) = s.all :: (List.finRange n).map s.cores := by
  have honeLine : ∀ line ∈ s.lines, 10 ∉ line :=
    s.forall_lines (oneLine_statLine isLabel_cpu 1 s.all) fun i =>
      oneLine_statLine (isLabel_coreLabel i) 0 (s.cores i)
  have hcpu : ∀ line ∈ s.lines, line.take 3 = ascii "cpu" :=
    s.forall_lines (take_three_statLine [] 1 s.all) fun i => take_three_statLine (decimal i) 0 _
  -- the loop ends at the first line that is not one of a processor
  have hothers : (getlines s.others).takeWhile (fun line => line.take 3 = ascii "cpu") = [] := by
    have hhead := s.others_head
    cases hlines : getlines s.others with
    | nil => rfl
    | cons line lines =>
      rw [hlines] at hhead
      exact List.takeWhile_cons_of_neg (by simpa using hhead line rfl)
  have hlines : readCpuLines (getlines s.text) = s.all :: (List.finRange n).map s.cores := by
    rw [readCpuLines_eq, Snapshot.text, getlines_endLines honeLine,
      List.takeWhile_append_of_pos (by simpa using hcpu), hothers, List.append_nil, Snapshot.lines,
      List.map_cons, List.map_map, parseCpuLine_statLine isLabel_cpu]
    congr 1
    exact List.map_congr_left fun i _ => parseCpuLine_statLine (isLabel_coreLabel i) 0 (s.cores i)
  unfold readCpuStats
  dsimp only
  rw [Option.elim_some, hlines, if_neg (List.cons_ne_nil _ _)]

/-! ### One collection -/

/-- No time has been taken back, and not too much has gone by. -/
structure Forward (prev curr : CpuStats) : Prop where
  idle : 0 ≤ idleChange prev curr
  busy : 0 ≤ busyChange prev curr
  lt : idleChange prev curr + busyChange prev curr < 2 ^ 64

instance (prev curr : CpuStats) : Decidable (Forward prev curr) :=
  decidable_of_iff (0 ≤ idleChange prev curr ∧ 0 ≤ busyChange prev curr ∧
      idleChange prev curr + busyChange prev curr < 2 ^ 64)
    ⟨fun h => ⟨h.1, h.2.1, h.2.2⟩, fun h => ⟨h.idle, h.busy, h.lt⟩⟩

/-- The share of the time that the processor was busy, in percent. -/
def busyShare (prev curr : CpuStats) : ℚ :=
  100 * busyChange prev curr / (idleChange prev curr + busyChange prev curr)

/-- **The usage is the share of the time** that the processor was busy. -/
theorem calculateCpuUsage_of_forward {prev curr : CpuStats} (h : Forward prev curr) :
    calculateCpuUsage prev curr = busyShare prev curr := by
  obtain ⟨hidle, hbusy, hlt⟩ := h
  have hidleDelta : ((curr.idleTotal - prev.idleTotal).toNat : ℤ) = idleChange prev curr := by
    rw [toNat_idleDelta, Int.emod_eq_of_lt hidle (by omega)]
  have htotalDelta : ((curr.total - prev.total).toNat : ℤ)
      = idleChange prev curr + busyChange prev curr := by
    rw [toNat_totalDelta, Int.emod_eq_of_lt (by omega) hlt]
  have hidleRat : ((curr.idleTotal - prev.idleTotal).toNat : ℚ) = idleChange prev curr := by
    exact_mod_cast hidleDelta
  have htotalRat : ((curr.total - prev.total).toNat : ℚ)
      = idleChange prev curr + busyChange prev curr := by
    exact_mod_cast htotalDelta
  unfold calculateCpuUsage busyShare
  dsimp only
  rw [hidleRat, htotalRat]
  split_ifs with hsame
  · -- no time has gone by
    rw [hsame] at htotalRat
    rw [← htotalRat]
    simp
  · have hne : ((idleChange prev curr : ℚ) + busyChange prev curr) ≠ 0 := by
      rw [← htotalRat]
      intro hzero
      exact hsame (UInt64.toNat_inj.mp (by exact_mod_cast hzero))
    rw [one_sub_div hne, add_sub_cancel_left, mul_div_assoc]

theorem busyShare_mem {prev curr : CpuStats} (h : Forward prev curr) :
    0 ≤ busyShare prev curr ∧ busyShare prev curr ≤ 100 := by
  rw [← calculateCpuUsage_of_forward h, calculateCpuUsage_mem_iff,
    Int.emod_eq_of_lt h.idle (by have := h.busy; have := h.lt; omega),
    Int.emod_eq_of_lt h.busy (by have := h.idle; have := h.lt; omega)]
  exact h.lt.le

/-- A snapshot that comes after another one of the same machine. -/
structure Snapshot.GoesOn (prev curr : Snapshot n) : Prop where
  all : Forward prev.all curr.all
  cores : ∀ i, Forward (prev.cores i) (curr.cores i)

/-- The shares of the time between two snapshots, for the metrics. -/
def shares (prev curr : Snapshot n) : List (CpuMetric × ℚ) :=
  (.usage, busyShare prev.all curr.all) ::
    (List.finRange n).map fun i : Fin n =>
      (.coreUsage i, busyShare (prev.cores i) (curr.cores i))

/-- The loop over the core metrics. -/
theorem collectCores_text {prev curr : Snapshot n} (h : prev.GoesOn curr) (is : List (Fin n)) :
    collectCores (readCpuStats (some prev.text)) (readCpuStats (some curr.text))
        (is.map Fin.val)
      = .ok (is.map fun i : Fin n => (.coreUsage i, busyShare (prev.cores i) (curr.cores i))) := by
  have hread : ∀ (s : Snapshot n) (i : Fin n),
      readAt (readCpuStats (some s.text)) (i + 1) = .ok (s.cores i) := by
    intro s i
    apply readAt_of_getElem?
    rw [readCpuStats_text, List.getElem?_cons_succ, List.getElem?_map]
    simp
  induction is with
  | nil => rfl
  | cons i is ih =>
    rw [List.map_cons, collectCores, hread, hread, ih, List.map_cons,
      ← calculateCpuUsage_of_forward (h.cores i)]
    rfl

/-- **One collection** publishes the shares. -/
theorem collect_text {prev curr : Snapshot n} (h : prev.GoesOn curr) :
    collect ⟨n, readCpuStats (some prev.text)⟩ (some curr.text)
      = .ok (⟨n, readCpuStats (some curr.text)⟩, shares prev curr) := by
  have hlength : ∀ s : Snapshot n, (readCpuStats (some s.text)).length = n + 1 := by
    intro s
    rw [readCpuStats_text, List.length_cons, List.length_map, List.length_finRange]
  have hfirst : ∀ s : Snapshot n, readAt (readCpuStats (some s.text)) 0 = .ok s.all := by
    intro s
    rw [readCpuStats_text]
    rfl
  have hrange : List.range n = (List.finRange n).map Fin.val := by
    apply List.ext_getElem <;> simp
  unfold collect
  dsimp only
  rw [hlength, hlength, if_neg (not_not_intro rfl), hfirst, hfirst, hrange,
    collectCores_text h, shares, ← calculateCpuUsage_of_forward h.all]
  rfl

/-! ### Runs -/

/-- The shares between each two snapshots in a row. -/
def sharesAfter (prev : Snapshot n) : List (Snapshot n) → List (List (CpuMetric × ℚ))
  | [] => []
  | curr :: snapshots => shares prev curr :: sharesAfter curr snapshots

theorem collectLog_text {prev : Snapshot n} {snapshots : List (Snapshot n)}
    (h : List.IsChain Snapshot.GoesOn (prev :: snapshots)) :
    ∃ log, collectLog ⟨n, readCpuStats (some prev.text)⟩ (some prev.text)
        (snapshots.map fun s => some s.text) = .ok log ∧
      log.map Collection.updates = sharesAfter prev snapshots := by
  induction snapshots generalizing prev with
  | nil => exact ⟨[], rfl, rfl⟩
  | cons curr snapshots ih =>
    obtain ⟨hnext, hrest⟩ := List.isChain_cons_cons.mp h
    obtain ⟨log, hlog, hupdates⟩ := ih hrest
    refine ⟨⟨some prev.text, some curr.text, shares prev curr⟩ :: log, ?_, ?_⟩
    · rw [List.map_cons, collectLog, collect_text hnext]
      simp only [bind_ok, hlog]
      rfl
    · rw [List.map_cons, hupdates]
      rfl

/-- What is published between two snapshots of a run. -/
theorem mem_sharesAfter {prev : Snapshot n} {snapshots : List (Snapshot n)}
    (h : List.IsChain Snapshot.GoesOn (prev :: snapshots)) {updates : List (CpuMetric × ℚ)}
    (hupdates : updates ∈ sharesAfter prev snapshots) :
    ∃ before after : Snapshot n, before.GoesOn after ∧ updates = shares before after := by
  induction snapshots generalizing prev with
  | nil => cases hupdates
  | cons curr snapshots ih =>
    obtain ⟨hnext, hrest⟩ := List.isChain_cons_cons.mp h
    rcases List.mem_cons.mp hupdates with rfl | hlater
    · exact ⟨prev, curr, hnext, rfl⟩
    · exact ih hrest hlater

/-- **What the kernel counts is what is published.**  In every run whose readings are the texts of
snapshots of a machine that goes on, each collection publishes the share of the time that all
processors together, and each one of them, were busy since the reading before; and each is a
percentage. -/
theorem updates_of_snapshots {first : Snapshot n} {snapshots : List (Snapshot n)}
    (h : List.IsChain Snapshot.GoesOn (first :: snapshots)) :
    ∃ log, collectLog (create (some first.text)) (some first.text)
        (snapshots.map fun s => some s.text) = .ok log ∧
      log.map Collection.updates = sharesAfter first snapshots ∧
      ∀ collection ∈ log, ∀ update ∈ collection.updates, 0 ≤ update.2 ∧ update.2 ≤ 100 := by
  have hcreate : create (some first.text) = ⟨n, readCpuStats (some first.text)⟩ := by
    unfold create
    rw [readCpuStats_text, List.length_cons, List.length_map, List.length_finRange,
      Nat.add_sub_cancel]
  obtain ⟨log, hlog, hupdates⟩ := collectLog_text h
  refine ⟨log, by rw [hcreate, hlog], hupdates, ?_⟩
  intro collection hcollection update hupdate
  have hmem := List.mem_map_of_mem (f := Collection.updates) hcollection
  rw [hupdates] at hmem
  obtain ⟨before, after, hgoesOn, hshares⟩ := mem_sharesAfter h hmem
  rw [hshares] at hupdate
  rcases List.mem_cons.mp hupdate with rfl | hcore
  · exact busyShare_mem hgoesOn.all
  · obtain ⟨i, -, rfl⟩ := List.mem_map.mp hcore
    exact busyShare_mem (hgoesOn.cores i)

/-- A machine with two processors, of which the second one is idle. -/
def snapshotAt (ticks : UInt64) : Snapshot 2 where
  all := { user := 100 + ticks, idle := 900 + ticks }
  cores := fun i => if i.val = 0 then { user := 100 + ticks } else { idle := 900 + ticks }
  others := ascii "intr 17 0\nctxt 23\n"
  others_head := by decide

theorem updates_of_snapshots_halfIdle :
    ∃ log, collectLog (create (some (snapshotAt 0).text)) (some (snapshotAt 0).text)
        [some (snapshotAt 4).text, some (snapshotAt 9).text] = .ok log ∧
      log.map Collection.updates
        = sharesAfter (snapshotAt 0) [snapshotAt 4, snapshotAt 9] ∧
      ∀ collection ∈ log, ∀ update ∈ collection.updates, 0 ≤ update.2 ∧ update.2 ≤ 100 := by
  have hfirst : (snapshotAt 0).GoesOn (snapshotAt 4) := ⟨by decide, by decide⟩
  have hsecond : (snapshotAt 4).GoesOn (snapshotAt 9) := ⟨by decide, by decide⟩
  exact updates_of_snapshots
    (List.isChain_cons_cons.mpr ⟨hfirst, List.isChain_cons_cons.mpr ⟨hsecond, .singleton _⟩⟩)

end NetSentry.CpuCollector
