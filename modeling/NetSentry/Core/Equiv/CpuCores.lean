import NetSentry.Core.Equiv.CpuCollector

/-!
# Which processor a core metric is about

`readCpuStats` drops the label of a line, and `collect` matches the lines of two readings by their
position.  The value of `cpu.core.i.usage` comes from the two lines that stand behind `i` others and
the line of all processors, whatever their labels are.

* `collectLog`: the collections of a run, with the readings that each one compares.
* `collectLog_ofCore`: in a run whose readings, wherever two in a row have the same number of lines,
  list the processors from `cpu0` on without a gap, every value stored for a core is computed from
  the lines of that core.
* `not_forall_ofCore`: a processor that is offline from the beginning.
-/

namespace NetSentry.CpuCollector

open Bytes Checked

/-! ### Lines and labels -/

/-- The lines that `readCpuStats` reads the counters from. -/
def cpuLines (procStat : Option Bytes) : List Bytes :=
  (procStat.elim [] getlines).takeWhile fun line => line.take 3 = ascii "cpu"

/-- The first word of a line. -/
def cpuLabel (line : Bytes) : Bytes := (IStream.word { rest := line }).1

/-- The label of a core: `cpu0`, `cpu1` and so on. -/
def coreLabel (i : ℕ) : Bytes := ascii "cpu" ++ decimal i

theorem readCpuLines_eq (lines : List Bytes) :
    readCpuLines lines
      = (lines.takeWhile fun line => line.take 3 = ascii "cpu").map parseCpuLine := by
  induction lines with
  | nil => rfl
  | cons line lines ih =>
    rw [readCpuLines, ih, List.takeWhile_cons]
    by_cases hcpu : line.take 3 = ascii "cpu"
    · rw [if_neg (not_not_intro hcpu), if_pos (by simpa using hcpu), List.map_cons]
    · rw [if_pos hcpu, if_neg (by simpa using hcpu), List.map_nil]

/-- The counters of a line are at its position. -/
theorem readAt_readCpuStats {procStat : Option Bytes} {j : ℕ} {line : Bytes}
    (h : (cpuLines procStat)[j]? = some line) :
    readAt (readCpuStats procStat) j = .ok (parseCpuLine line) := by
  have hstats : readCpuLines (procStat.elim [] getlines) = (cpuLines procStat).map parseCpuLine :=
    readCpuLines_eq _
  apply readAt_of_getElem?
  unfold readCpuStats
  dsimp only
  rw [hstats, if_neg ?_, List.getElem?_map, h, Option.map_some]
  intro hnil
  rw [List.map_eq_nil_iff.mp hnil] at h
  cases h

/-! ### One collection -/

/-- A value is the usage of core `i` between two readings of the line with its label. -/
def OfCore (prev curr : Option Bytes) (i : ℕ) (value : ℚ) : Prop :=
  ∃ prevLine ∈ cpuLines prev, ∃ currLine ∈ cpuLines curr,
    cpuLabel prevLine = coreLabel i ∧ cpuLabel currLine = coreLabel i ∧
    value = calculateCpuUsage (parseCpuLine prevLine) (parseCpuLine currLine)

/-- Behind the line of all processors a reading lists `cpu0`, `cpu1` and so on, `k` of them at
least. -/
def InOrder (k : ℕ) (procStat : Option Bytes) : Prop :=
  ∀ i < k, (cpuLines procStat)[i + 1]?.map cpuLabel = some (coreLabel i)

/-- Two readings that `collect` compares both list the processors in order. -/
def Aligned (k : ℕ) (prev curr : Option Bytes) : Prop :=
  lineCount prev = lineCount curr → InOrder k prev ∧ InOrder k curr

theorem InOrder.exists_line {k i : ℕ} {procStat : Option Bytes} (h : InOrder k procStat)
    (hi : i < k) : ∃ line ∈ cpuLines procStat, cpuLabel line = coreLabel i ∧
      readAt (readCpuStats procStat) (i + 1) = .ok (parseCpuLine line) := by
  obtain ⟨line, hline, hlabel⟩ := Option.map_eq_some_iff.mp (h i hi)
  exact ⟨line, List.mem_of_getElem? hline, hlabel, readAt_readCpuStats hline⟩

/-- The loop over the core metrics stores values of their cores. -/
theorem collectCores_ofCore {k : ℕ} {prev curr : Option Bytes} (hprev : InOrder k prev)
    (hcurr : InOrder k curr) {is : List ℕ} (his : ∀ i ∈ is, i < k) :
    ∃ updates, collectCores (readCpuStats prev) (readCpuStats curr) is = .ok updates ∧
      ∀ i value, (CpuMetric.coreUsage i, value) ∈ updates → OfCore prev curr i value := by
  induction is with
  | nil => exact ⟨[], rfl, nofun⟩
  | cons i is ih =>
    obtain ⟨hi, hrest⟩ := List.forall_mem_cons.mp his
    obtain ⟨updates, hupdates, hof⟩ := ih hrest
    obtain ⟨prevLine, hprevMem, hprevLabel, hprevRead⟩ := hprev.exists_line hi
    obtain ⟨currLine, hcurrMem, hcurrLabel, hcurrRead⟩ := hcurr.exists_line hi
    refine ⟨_, by rw [collectCores, hprevRead, hcurrRead, hupdates]; rfl, ?_⟩
    intro j value hmem
    rcases List.mem_cons.mp hmem with heq | hmem
    · obtain ⟨hj, rfl⟩ := Prod.mk.inj heq
      obtain rfl := CpuMetric.coreUsage.inj hj
      exact ⟨prevLine, hprevMem, currLine, hcurrMem, hprevLabel, hcurrLabel, rfl⟩
    · exact hof j value hmem

/-- **One collection** after a reading `prev`. -/
theorem collect_ofCore {k : ℕ} {prev curr : Option Bytes} (h : Aligned k prev curr) :
    ∃ updates, collect ⟨k, readCpuStats prev⟩ curr = .ok (⟨k, readCpuStats curr⟩, updates) ∧
      ∀ i value, (CpuMetric.coreUsage i, value) ∈ updates → OfCore prev curr i value := by
  unfold collect
  dsimp only
  by_cases hlen : (readCpuStats curr).length = (readCpuStats prev).length
  · obtain ⟨hprev, hcurr⟩ := h hlen.symm
    have hcores : ∀ i ∈ List.range k, i < k := fun i => List.mem_range.mp
    obtain ⟨updates, hupdates, hof⟩ := collectCores_ofCore hprev hcurr hcores
    rw [if_neg (not_not_intro hlen), readAt_of_lt (lineCount_pos prev),
      readAt_of_lt (lineCount_pos curr), hupdates]
    refine ⟨_, rfl, ?_⟩
    intro i value hmem
    -- the first update is the one of `cpu.usage`
    rcases List.mem_cons.mp hmem with heq | hmem
    · cases heq
    · exact hof i value hmem
  · rw [if_pos hlen]
    exact ⟨[], rfl, nofun⟩

/-! ### Runs -/

/-- A collection: the reading before, its own reading and the updates it makes. -/
structure Collection where
  prev : Option Bytes
  curr : Option Bytes
  updates : List (CpuMetric × ℚ)
deriving DecidableEq

/-- The collections of a run, one for each reading, after a reading `prev`. -/
def collectLog (c : CpuCollector) (prev : Option Bytes) :
    List (Option Bytes) → Checked (List Collection)
  | [] => pure []
  | curr :: readings => do
    let (c, updates) ← c.collect curr
    let log ← collectLog c curr readings
    pure (⟨prev, curr, updates⟩ :: log)

theorem collectLog_ofCore_of_isChain {k : ℕ} {prev : Option Bytes} {readings : List (Option Bytes)}
    (h : List.IsChain (Aligned k) (prev :: readings)) :
    ∃ log, collectLog ⟨k, readCpuStats prev⟩ prev readings = .ok log ∧
      ∀ collection ∈ log, ∀ i value, (CpuMetric.coreUsage i, value) ∈ collection.updates →
        OfCore collection.prev collection.curr i value := by
  induction readings generalizing prev with
  | nil => exact ⟨[], rfl, nofun⟩
  | cons curr readings ih =>
    obtain ⟨haligned, hrest⟩ := List.isChain_cons_cons.mp h
    obtain ⟨updates, hcollect, hof⟩ := collect_ofCore haligned
    obtain ⟨log, hlog, hall⟩ := ih hrest
    refine ⟨_, by rw [collectLog, hcollect]; simp only [bind_ok, hlog]; rfl, ?_⟩
    exact List.forall_mem_cons.mpr ⟨hof, hall⟩

/-- **The values stored for a core are its own**, in every run in which each two readings in a row
with the same number of lines list the processors in order: every collection can be made, and a
value that it stores for core `i` is computed from the two lines with the label of that core. -/
theorem collectLog_ofCore {first : Option Bytes} {readings : List (Option Bytes)}
    (h : List.IsChain (Aligned (create first).coreUsageSize) (first :: readings)) :
    ∃ log, collectLog (create first) first readings = .ok log ∧
      ∀ collection ∈ log, ∀ i value, (CpuMetric.coreUsage i, value) ∈ collection.updates →
        OfCore collection.prev collection.curr i value :=
  collectLog_ofCore_of_isChain h

/-! ### Two runs -/

instance (k : ℕ) (procStat : Option Bytes) : Decidable (InOrder k procStat) :=
  inferInstanceAs (Decidable (∀ i < k, _ = _))

instance (k : ℕ) (prev curr : Option Bytes) : Decidable (Aligned k prev curr) :=
  inferInstanceAs (Decidable (_ = _ → _ ∧ _))

/-- The first reading with two processors online. -/
def bothOnline : Option Bytes := some (ascii "cpu 9 0 0 9\ncpu0 4 0 0 5\ncpu1 5 0 0 4\n")

/-- Both have gone on, then the second one goes offline and comes back. -/
def stopAndStart : List (Option Bytes) :=
  [some (ascii "cpu 12 0 0 9\ncpu0 6 0 0 5\ncpu1 6 0 0 4\n"),
    some (ascii "cpu 7 0 0 5\ncpu0 7 0 0 5\n"),
    some (ascii "cpu 14 0 0 10\ncpu0 8 0 0 5\ncpu1 6 0 0 5\n")]

theorem collectLog_ofCore_stopAndStart :
    ∃ log, collectLog (create bothOnline) bothOnline stopAndStart = .ok log ∧
      ∀ collection ∈ log, ∀ i value, (CpuMetric.coreUsage i, value) ∈ collection.updates →
        OfCore collection.prev collection.curr i value :=
  collectLog_ofCore (by decide +kernel)

/-- A reading without the second of three processors, which is offline from the beginning. -/
def withoutSecond (user : String) : Option Bytes :=
  some (ascii ("cpu 9 0 0 9\ncpu0 4 0 0 5\ncpu2 " ++ user ++ " 0 0 4\n"))

/-- The third processor is taken for the second one. -/
theorem not_forall_ofCore :
    ¬ ∀ (first : Option Bytes) (readings : List (Option Bytes)) (log : List Collection),
      collectLog (create first) first readings = .ok log →
      ∀ collection ∈ log, ∀ i value, (CpuMetric.coreUsage i, value) ∈ collection.updates →
        OfCore collection.prev collection.curr i value := by
  intro h
  have hlog : collectLog (create (withoutSecond "5")) (withoutSecond "5") [withoutSecond "9"]
      = .ok [⟨withoutSecond "5", withoutSecond "9",
        [(.usage, 0), (.coreUsage 0, 0), (.coreUsage 1, 100)]⟩] := by
    decide +kernel
  obtain ⟨line, hline, _, _, hlabel, _⟩ :=
    h _ _ _ hlog _ (List.mem_singleton_self _) 1 100 (by simp)
  -- no line of the reading has the label `cpu1`
  have hnone : ∀ line ∈ cpuLines (withoutSecond "5"), cpuLabel line ≠ coreLabel 1 := by
    have hlabels : (cpuLines (withoutSecond "5")).map cpuLabel
        = [ascii "cpu", coreLabel 0, coreLabel 2] := by
      decide +kernel
    intro line hline heq
    have hmem := List.mem_map_of_mem (f := cpuLabel) hline
    rw [hlabels, heq] at hmem
    revert hmem
    decide +kernel
  exact hnone line hline hlabel

end NetSentry.CpuCollector
