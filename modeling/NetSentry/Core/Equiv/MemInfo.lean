import Mathlib.Tactic.Ring
import NetSentry.Core.Equiv.MemoryStats

/-!
# What the kernel says of the memory is what is published

A line of `/proc/meminfo` is a name, blanks, a number and a unit; a text is any number of such
lines, in any order.

* `figures_text`: the figures of a text are those of its lines, whatever an uninitialised variable
  holds.
* `published_of_meminfo`: where the text names each figure at most once, and no figure is greater
  than what it is a part of, a collection publishes the figures, what is used (what is neither free
  nor in buffers or the cache), and the percentages of the totals that are not zero.  The gauge for
  a percentage of a zero total keeps what it has shown.
-/

namespace NetSentry.MemoryCollector

open Bytes KeyedFold

/-! ### The text -/

/-- A line: `name`, one blank and `gap` more, the number and what stands behind it. -/
structure MeminfoLine where
  name : Bytes
  gap : ℕ
  value : UInt64
  unit : Bytes
  name_ne_nil : name ≠ []
  name_not_space : ∀ c ∈ name, isSpace c = false
  unit_head : ∀ c ∈ unit.head?, isDigit c = false
  unit_oneLine : 10 ∉ unit

namespace MeminfoLine

/-- The text of the line. -/
def text (line : MeminfoLine) : Bytes :=
  line.name ++ (List.replicate (line.gap + 1) 32 ++ (decimal line.value.toNat ++ line.unit))

/-- What the line says. -/
def entry (line : MeminfoLine) : Bytes × UInt64 := (line.name, line.value)

/-- **A line is read back**, and the variable that was not initialised is overwritten. -/
theorem parseMemoryLine_text (line : MeminfoLine) (uninitialised : UInt64) :
    parseMemoryLine line.text uninitialised = line.entry := by
  have hblanks : ∀ c ∈ List.replicate (line.gap + 1) (32 : UInt8), isSpace c = true := by
    intro c hc
    rw [List.eq_of_mem_replicate hc]
    rfl
  have hname : ∀ rest, (∀ c ∈ rest.head?, isSpace c = true) →
      IStream.word { rest := line.name ++ rest } = (line.name, { rest := rest }) := by
    intro rest hrest
    exact IStream.word_append [] nofun line.name_ne_nil line.name_not_space hrest
  have hgap : ∀ rest, ∀ c ∈ (List.replicate (line.gap + 1) 32 ++ rest : Bytes).head?,
      isSpace c = true := by
    rintro rest c ⟨⟩
    rfl
  unfold parseMemoryLine text
  simp only [hname _ (hgap _), IStream.uint64_decimal _ _ hblanks line.unit_head]
  rfl

theorem oneLine_text (line : MeminfoLine) : 10 ∉ line.text := by
  have hname : 10 ∉ line.name := by
    intro hmem
    cases line.name_not_space 10 hmem
  have hdigits : 10 ∉ decimal line.value.toNat := by
    intro hmem
    cases forall_isDigit_decimal _ _ hmem
  simp [text, hname, hdigits, line.unit_oneLine]

end MeminfoLine

/-- The text of `/proc/meminfo`. -/
def meminfoText (lines : List MeminfoLine) : Bytes := endLines (lines.map MeminfoLine.text)

/-- **The figures of a text** are those of its lines. -/
theorem figures_text (lines : List MeminfoLine) (uninitialised : ℕ → UInt64) :
    figures ⟨some (meminfoText lines), uninitialised⟩ = lines.map MeminfoLine.entry := by
  have hlines : getlines (meminfoText lines) = lines.map MeminfoLine.text := by
    have honeLine : ∀ text ∈ lines.map MeminfoLine.text, 10 ∉ text := by
      intro text htext
      obtain ⟨line, -, rfl⟩ := List.mem_map.mp htext
      exact line.oneLine_text
    have hread := getlines_endLines honeLine []
    rwa [List.append_nil, getlines, List.append_nil] at hread
  rw [figures, Option.elim_some, hlines]
  apply List.ext_getElem
  · simp
  · intro i hi hi'
    simp [MeminfoLine.parseMemoryLine_text]

/-! ### What is published -/

/-- The figures of the memory and of the swap space, in kilobytes. -/
structure Figures where
  total : UInt64
  free : UInt64
  buffers : UInt64
  cached : UInt64
  swapTotal : UInt64
  swapFree : UInt64
  parts_le : free.toNat + buffers.toNat + cached.toNat ≤ total.toNat
  swapFree_le : swapFree.toNat ≤ swapTotal.toNat

/-- The text says the figures, and names each one once. -/
structure Says (lines : List MeminfoLine) (f : Figures) : Prop where
  nodup : (lines.map MeminfoLine.name).Nodup
  total : (ascii "MemTotal:", f.total) ∈ lines.map MeminfoLine.entry
  free : (ascii "MemFree:", f.free) ∈ lines.map MeminfoLine.entry
  buffers : (ascii "Buffers:", f.buffers) ∈ lines.map MeminfoLine.entry
  cached : (ascii "Cached:", f.cached) ∈ lines.map MeminfoLine.entry
  swapTotal : (ascii "SwapTotal:", f.swapTotal) ∈ lines.map MeminfoLine.entry
  swapFree : (ascii "SwapFree:", f.swapFree) ∈ lines.map MeminfoLine.entry

variable {lines : List MeminfoLine} {f : Figures}

/-- **What the text says is what is read**, whatever other lines there are. -/
theorem figure_of_text (h : Says lines f) (uninitialised : ℕ → UInt64) {name : String}
    {value : UInt64} (hmem : (ascii name, value) ∈ lines.map MeminfoLine.entry) :
    figure ⟨some (meminfoText lines), uninitialised⟩ name = value := by
  have hnodup : ((lines.map MeminfoLine.entry).map Prod.fst).Nodup := by
    rw [List.map_map]
    exact h.nodup
  rw [figure, figures_text, lastOf_of_nodup hnodup hmem, Option.getD_some]

/-- What is left of a total is counted without wrapping around. -/
theorem toNat_sub_parts (f : Figures) :
    ((f.total - (f.free + f.buffers + f.cached)).toNat : ℚ)
      = f.total.toNat - f.free.toNat - f.buffers.toNat - f.cached.toNat := by
  have hle := f.parts_le
  have hlt := f.total.toNat_lt
  have hsum : (f.free + f.buffers + f.cached).toNat
      = f.free.toNat + f.buffers.toNat + f.cached.toNat := by
    rw [UInt64.toNat_add, UInt64.toNat_add]
    omega
  rw [UInt64.toNat_sub_of_le _ _ (by rw [UInt64.le_iff_toNat_le, hsum]; exact hle), hsum,
    Nat.cast_sub hle]
  push_cast
  ring

/-- The percentage of a total that is zero. -/
theorem updatePercent_zero (gauge : GaugeMetric ℚ) (used : UInt64) (now : ℤ) :
    updatePercent gauge used 0 now = gauge := by
  rw [updatePercent, if_neg (by decide)]

/-- The percentage of a total that is not zero. -/
theorem getCurrentValue_updatePercent (gauge : GaugeMetric ℚ) {used total : UInt64}
    (hpos : 0 < total) (now : ℤ) :
    (updatePercent gauge used total now).getCurrentValue = 100 * used.toNat / total.toNat := by
  rw [updatePercent, if_pos hpos]
  rfl

/-- The gauges show the figures after a collection.  A percentage of a total that is zero is not
published: its gauge stays as it was before. -/
structure Shows (before after : MemoryCollector) (f : Figures) : Prop where
  total : after.memoryTotal.getCurrentValue = f.total.toNat / 1024
  free : after.memoryFree.getCurrentValue = f.free.toNat / 1024
  /-- What is neither free nor in buffers or the cache. -/
  used : after.memoryUsed.getCurrentValue
    = (f.total.toNat - f.free.toNat - f.buffers.toNat - f.cached.toNat) / 1024
  usagePercent : 0 < f.total → after.memoryUsagePercent.getCurrentValue
    = 100 * (f.total.toNat - f.free.toNat - f.buffers.toNat - f.cached.toNat) / f.total.toNat
  usagePercent_kept : f.total = 0 → after.memoryUsagePercent = before.memoryUsagePercent
  swapTotal : after.swapTotal.getCurrentValue = f.swapTotal.toNat / 1024
  swapUsed : after.swapUsed.getCurrentValue = (f.swapTotal.toNat - f.swapFree.toNat) / 1024
  swapUsagePercent : 0 < f.swapTotal → after.swapUsagePercent.getCurrentValue
    = 100 * (f.swapTotal.toNat - f.swapFree.toNat) / f.swapTotal.toNat
  swapUsagePercent_kept : f.swapTotal = 0 → after.swapUsagePercent = before.swapUsagePercent

/-- **One collection.** -/
theorem shows_collect (h : Says lines f) (uninitialised : ℕ → UInt64) (c : MemoryCollector)
    (clock : ℕ → ℤ) : Shows c (c.collect ⟨some (meminfoText lines), uninitialised⟩ clock) f := by
  let reading : Reading := ⟨some (meminfoText lines), uninitialised⟩
  have hfree : (readMemoryStats reading).free = f.free :=
    (stores_figures.2.1.figure_eq rfl reading).trans (figure_of_text h uninitialised h.free)
  obtain ⟨htotal, hused, hswapTotal, hswapUsed⟩ := readMemoryStats_eq reading
  rw [figure_of_text h uninitialised h.total] at htotal hused
  rw [figure_of_text h uninitialised h.free, figure_of_text h uninitialised h.buffers,
    figure_of_text h uninitialised h.cached] at hused
  rw [figure_of_text h uninitialised h.swapTotal] at hswapTotal hswapUsed
  rw [figure_of_text h uninitialised h.swapFree] at hswapUsed
  have hswap : ((f.swapTotal - f.swapFree).toNat : ℚ) = f.swapTotal.toNat - f.swapFree.toNat := by
    rw [UInt64.toNat_sub_of_le _ _ (UInt64.le_iff_toNat_le.mpr f.swapFree_le),
      Nat.cast_sub f.swapFree_le]
  constructor
  case total =>
    show megabytes (readMemoryStats reading).total = _
    rw [htotal, megabytes]
  case free =>
    show megabytes (readMemoryStats reading).free = _
    rw [hfree, megabytes]
  case used =>
    show megabytes (readMemoryStats reading).used = _
    rw [hused, megabytes, toNat_sub_parts]
  case usagePercent =>
    intro hpos
    show (updatePercent c.memoryUsagePercent (readMemoryStats reading).used
      (readMemoryStats reading).total (clock 3)).getCurrentValue = _
    rw [htotal, getCurrentValue_updatePercent _ hpos, hused, toNat_sub_parts]
  case usagePercent_kept =>
    intro hzero
    show updatePercent c.memoryUsagePercent (readMemoryStats reading).used
      (readMemoryStats reading).total (clock 3) = _
    rw [htotal, hzero, updatePercent_zero]
  case swapTotal =>
    show megabytes (readMemoryStats reading).swapTotal = _
    rw [hswapTotal, megabytes]
  case swapUsed =>
    show megabytes (readMemoryStats reading).swapUsed = _
    rw [hswapUsed, megabytes, hswap]
  case swapUsagePercent =>
    intro hpos
    show (updatePercent c.swapUsagePercent (readMemoryStats reading).swapUsed
      (readMemoryStats reading).swapTotal (clock 6)).getCurrentValue = _
    rw [hswapTotal, getCurrentValue_updatePercent _ hpos, hswapUsed, hswap]
  case swapUsagePercent_kept =>
    intro hzero
    show updatePercent c.swapUsagePercent (readMemoryStats reading).swapUsed
      (readMemoryStats reading).swapTotal (clock 6) = _
    rw [hswapTotal, hzero, updatePercent_zero]

/-- **What the kernel says of the memory is what is published**: in every run, whatever has been
read and published before, the gauges show the figures after a collection whose text says them. -/
theorem published_of_meminfo (h : Says lines f) (uninitialised : ℕ → UInt64) (now : ℤ)
    (before : List (Reading × (ℕ → ℤ))) (clock : ℕ → ℤ) :
    Shows ((create now).collectAll before)
      ((create now).collectAll
        (before ++ [(⟨some (meminfoText lines), uninitialised⟩, clock)])) f := by
  have happend : (create now).collectAll
        (before ++ [(⟨some (meminfoText lines), uninitialised⟩, clock)])
      = ((create now).collectAll before).collect ⟨some (meminfoText lines), uninitialised⟩
        clock :=
    List.foldl_append
  rw [happend]
  exact shows_collect h uninitialised _ clock

theorem unit_head_kilobytes : ∀ c ∈ (ascii " kB").head?, isDigit c = false := by
  rintro c ⟨⟩
  rfl

/-- A name that has no blank in it, and a number of kilobytes. -/
def kilobytes (name : Bytes) (value : UInt64)
    (h : name ≠ [] ∧ (name.all fun c => !isSpace c) = true) : MeminfoLine where
  name := name
  gap := 7
  value := value
  unit := ascii " kB"
  name_ne_nil := h.1
  name_not_space := by simpa using h.2
  unit_head := unit_head_kilobytes
  unit_oneLine := by decide

/-- The figures of a machine of which a quarter of the swap space is in use. -/
def swapFigures : Figures := ⟨1024, 256, 64, 192, 2048, 1536, by decide, by decide⟩

/-- The same, when the swap space has been turned off. -/
def noSwapFigures : Figures := ⟨1024, 256, 64, 192, 0, 0, by decide, by decide⟩

/-- What it says of some swap space, with a line that is of no importance. -/
def swapLines (swapTotal swapFree : UInt64) : List MeminfoLine :=
  [kilobytes (ascii "Cached:") 192 (by decide), kilobytes (ascii "MemTotal:") 1024 (by decide),
    kilobytes (ascii "Shmem:") 8 (by decide), kilobytes (ascii "MemFree:") 256 (by decide),
    kilobytes (ascii "Buffers:") 64 (by decide),
    kilobytes (ascii "SwapTotal:") swapTotal (by decide),
    kilobytes (ascii "SwapFree:") swapFree (by decide)]

/-- The reading of a text, in which `value` stands for what is uninitialised. -/
def readingOf (lines : List MeminfoLine) (value : UInt64) : Reading :=
  ⟨some (meminfoText lines), fun _ => value⟩

/-- After the swap space has been turned off, the gauge still shows the quarter. -/
theorem published_of_meminfo_swapOff :
    let before := [(readingOf (swapLines 2048 1536) 3, fun _ => 1)]
    let after := before ++ [(readingOf (swapLines 0 0) 5, fun _ => 2)]
    Shows ((create 0).collectAll before) ((create 0).collectAll after) noSwapFigures ∧
      ((create 0).collectAll after).swapTotal.getCurrentValue = 0 ∧
      ((create 0).collectAll after).swapUsagePercent.getCurrentValue = 25 := by
  have hsays : Says (swapLines 2048 1536) swapFigures :=
    ⟨by decide, by decide, by decide, by decide, by decide, by decide, by decide⟩
  have hsays' : Says (swapLines 0 0) noSwapFigures :=
    ⟨by decide, by decide, by decide, by decide, by decide, by decide, by decide⟩
  have hbefore := published_of_meminfo hsays (fun _ => 3) 0 [] (fun _ => 1)
  have hafter := published_of_meminfo hsays' (fun _ => 5) 0
    [(readingOf (swapLines 2048 1536) 3, fun _ => 1)] (fun _ => 2)
  refine ⟨hafter, hafter.swapTotal.trans (by norm_num [noSwapFigures]), ?_⟩
  have hquarter : (100 * ((2048 : ℕ) - (1536 : ℕ)) / (2048 : ℕ) : ℚ) = 25 := by norm_num
  exact (congrArg GaugeMetric.getCurrentValue (hafter.swapUsagePercent_kept rfl)).trans
    ((hbefore.swapUsagePercent (by decide)).trans hquarter)

end NetSentry.MemoryCollector
