import NetSentry.Core.CpuCollector

/-!
# When the snapshots are long enough

The number of core metrics is fixed by the first reading, and snapshots are compared whenever two in
a row have the same length.  `collectAll_defined_iff`: every element that is read is there exactly
when no two readings in a row have the same number of lines and fewer than the first one.

* `collect_defined_iff`: the condition for one collection.
* `eq_of_collect`: whatever is done with it, the reading becomes the last snapshot.
-/

namespace NetSentry.CpuCollector

open Bytes Checked

/-- The number of processors in a reading, the line of all of them included. -/
def lineCount (procStat : Option Bytes) : ℕ := (readCpuStats procStat).length

theorem lineCount_pos (procStat : Option Bytes) : 0 < lineCount procStat := by
  rw [lineCount, readCpuStats]
  split_ifs with h
  · exact Nat.one_pos
  · exact List.length_pos_iff.mpr h

/-! ### One collection -/

theorem collectCores_defined_iff (prevStats currStats : List CpuStats) (is : List ℕ) :
    Defined (collectCores prevStats currStats is)
      ↔ ∀ i ∈ is, i + 1 < prevStats.length ∧ i + 1 < currStats.length := by
  induction is with
  | nil => simp [collectCores]
  | cons i is ih =>
    rw [collectCores, List.forall_mem_cons, ← ih]
    constructor
    · intro h
      obtain ⟨prev, hprev, h⟩ := defined_bind.mp h
      obtain ⟨curr, hcurr, h⟩ := defined_bind.mp h
      obtain ⟨updates, hupdates, _⟩ := defined_bind.mp h
      exact ⟨⟨defined_readAt.mp ⟨prev, hprev⟩, defined_readAt.mp ⟨curr, hcurr⟩⟩,
        ⟨updates, hupdates⟩⟩
    · rintro ⟨⟨hprev, hcurr⟩, updates, hupdates⟩
      rw [readAt_of_lt hprev, readAt_of_lt hcurr, hupdates]
      exact defined_pure _

/-- **One collection** compares two snapshots of the same length, which must cover the core
metrics. -/
theorem collect_defined_iff (c : CpuCollector) (procStat : Option Bytes) :
    Defined (c.collect procStat)
      ↔ (c.prevStats.length = lineCount procStat → c.coreUsageSize < lineCount procStat) := by
  have hpos := lineCount_pos procStat
  unfold collect
  dsimp only
  rw [← lineCount]
  by_cases hlen : lineCount procStat = c.prevStats.length
  · rw [if_neg (not_not_intro hlen), readAt_of_lt (show 0 < c.prevStats.length by omega),
      readAt_of_lt (show 0 < (readCpuStats procStat).length from hpos)]
    simp only [bind_ok]
    have hcores := collectCores_defined_iff c.prevStats (readCpuStats procStat)
      (List.range c.coreUsageSize)
    rw [defined_bind]
    constructor
    · rintro ⟨updates, hupdates, _⟩ _
      have hall := hcores.mp ⟨updates, hupdates⟩
      by_contra hsize
      -- the last core metric asks for an element past the end
      have hlast := (hall (c.coreUsageSize - 1) (List.mem_range.mpr (by omega))).1
      omega
    · intro h
      have hsize := h hlen.symm
      obtain ⟨updates, hupdates⟩ := hcores.mpr fun i hi => by
        have hi := List.mem_range.mp hi
        rw [lineCount] at hsize hlen
        omega
      exact ⟨updates, hupdates, defined_pure _⟩
  · rw [if_pos hlen]
    exact iff_of_true (defined_pure _) fun h => absurd h.symm hlen

/-- Whatever is done with it, a reading becomes the last snapshot. -/
theorem eq_of_collect {c c' : CpuCollector} {procStat : Option Bytes}
    {updates : List (CpuMetric × ℚ)} (h : c.collect procStat = .ok (c', updates)) :
    c' = { c with prevStats := readCpuStats procStat } := by
  unfold collect at h
  dsimp only at h
  split_ifs at h with hlen
  · cases h
    rfl
  · have hpos := lineCount_pos procStat
    rw [not_not] at hlen
    rw [readAt_of_lt (show 0 < c.prevStats.length from hlen ▸ hpos),
      readAt_of_lt (show 0 < (readCpuStats procStat).length from hpos)] at h
    simp only [bind_ok] at h
    cases hcores : collectCores c.prevStats (readCpuStats procStat)
        (List.range c.coreUsageSize) with
    | error fault =>
      rw [hcores] at h
      cases h
    | ok coreUpdates =>
      rw [hcores] at h
      cases h
      rfl

/-! ### Any number of collections -/

/-- **Any number of collections** after a reading `last`. -/
theorem collectAll_defined_iff_isChain {c : CpuCollector} (last : Option Bytes)
    (hlast : c.prevStats.length = lineCount last) (readings : List (Option Bytes)) :
    Defined (c.collectAll readings) ↔ List.IsChain
      (fun prev curr => lineCount prev = lineCount curr → c.coreUsageSize < lineCount curr)
      (last :: readings) := by
  induction readings generalizing c last with
  | nil => exact iff_of_true (defined_pure _) (.singleton _)
  | cons procStat readings ih =>
    rw [collectAll, defined_bind, List.isChain_cons_cons, ← hlast, ← collect_defined_iff]
    -- the reading is the last snapshot of the collections that follow
    have hrest := ih (c := { c with prevStats := readCpuStats procStat }) procStat rfl
    constructor
    · rintro ⟨⟨c', updates⟩, hcollect, hdef⟩
      obtain rfl := eq_of_collect hcollect
      exact ⟨⟨_, hcollect⟩, hrest.mp hdef⟩
    · rintro ⟨⟨⟨c', updates⟩, hcollect⟩, hchain⟩
      refine ⟨(c', updates), hcollect, ?_⟩
      obtain rfl := eq_of_collect hcollect
      exact hrest.mpr hchain

/-- **When every element that is read is there**: when two readings in a row with the same number of
lines have at least as many as the first reading. -/
theorem collectAll_defined_iff (first : Option Bytes) (readings : List (Option Bytes)) :
    Defined ((create first).collectAll readings) ↔ List.IsChain
      (fun prev curr => lineCount prev = lineCount curr → lineCount first ≤ lineCount curr)
      (first :: readings) := by
  have hsize : ∀ n, (create first).coreUsageSize < n ↔ lineCount first ≤ n := by
    intro n
    have hpos := lineCount_pos first
    change lineCount first - 1 < n ↔ _
    omega
  rw [collectAll_defined_iff_isChain first rfl]
  simp only [hsize]

/-- The text of `/proc/stat` with `n` processors online. -/
def procStatText (n : ℕ) : Option Bytes :=
  some ((List.replicate (n + 1) (ascii "cpu 1 2 3 4 5 6 7 8 9 10\n")).flatten ++ ascii "intr 0\n")

/-- One of two processors goes offline and stays so. -/
theorem not_forall_collectAll_defined :
    ¬ ∀ (first : Option Bytes) (readings : List (Option Bytes)),
      Defined ((create first).collectAll readings) := by
  intro h
  have hdef := h (procStatText 2) [procStatText 1, procStatText 1]
  have hfault : (create (procStatText 2)).collectAll [procStatText 1, procStatText 1]
      = .error (.outOfBounds 2 2) := by decide +kernel
  rw [hfault] at hdef
  exact not_defined_error _ hdef

end NetSentry.CpuCollector
