import NetSentry.Core.Equiv.ConfigManager
import NetSentry.Main.Cleanup

/-!
# For how long records are kept

The number of days is multiplied by the seconds of a day in 32 bits, and only the product is
converted to 64.

* `retains_iff`: exactly the records that are older than the days stored for a table are deleted
  where these have fewer than `2 ^ 32` seconds.
* `not_forall_retains`: where they have more, almost everything is deleted.
-/

namespace NetSentry.Cleanup

open Bytes ConfigManager

/-- The records of a table are deleted when they are more than so many days old: the time before
which it is pruned is so many days back, and a record from before that time is older. -/
def Retains (config : ConfigManager) (table : Table) (days : UInt32) (now : Int64) : Prop :=
  ∀ cutoff, (table, cutoff) ∈ databaseCleanup config now →
    cutoff.toInt = now.toInt - 86400 * days.toNat ∧
    ∀ timestamp : Int64, timestamp < cutoff → 86400 * days.toNat < now.toInt - timestamp.toInt

theorem mem_databaseCleanup_iff (config : ConfigManager) (now : Int64) (table : Table)
    (cutoff : Int64) :
    (table, cutoff) ∈ databaseCleanup config now ↔ cutoff = now - maxAge config table := by
  unfold databaseCleanup
  cases table <;> simp

theorem getOrDefault_of_lookup {config : ConfigManager} {T : ConfigType} {key : Bytes}
    {value : T.Value} (h : config.values.lookup key = some ⟨T, value⟩) (default : T.Value) :
    config.getOrDefault T key default = value := by
  rw [getOrDefault, ConfigManager.get, h]
  simp only [dif_pos]

/-- A number of 32 bits keeps its value when it is converted. -/
theorem toInt_toInt64 (n : UInt32) : n.toUInt64.toInt64.toInt = n.toNat := by
  have hlt : n.toNat < 2 ^ 32 := n.toNat_lt
  show n.toUInt64.toBitVec.toInt = n.toNat
  rw [BitVec.toInt_eq_toNat_bmod, UInt64.toNat_toBitVec, UInt32.toNat_toUInt64]
  exact Int.bmod_eq_of_le (by omega) (by omega)

/-- **The age** is the product modulo `2 ^ 32`. -/
theorem toInt_maxAge {config : ConfigManager} {table : Table} {days : UInt32}
    (h : config.values.lookup table.maxAgeKey = some ⟨.uint32, days⟩) :
    (maxAge config table).toInt = (86400 * days.toNat % 2 ^ 32 : ℕ) := by
  rw [maxAge, getOrDefault_of_lookup h, toInt_toInt64, UInt32.toNat_mul, Nat.mul_comm]
  rfl

/-- A difference of times that is in range. -/
theorem toInt_sub_of_le {a b : Int64} (hb : 0 ≤ b.toInt) (hab : -2 ^ 63 ≤ a.toInt - b.toInt) :
    (a - b).toInt = a.toInt - b.toInt := by
  have ha := a.toInt_lt
  rw [Int64.toInt_sub]
  exact Int.bmod_eq_of_le (by omega) (by omega)

/-- **For how long the records of a table are kept**: exactly for the days stored for it where these
have fewer than `2 ^ 32` seconds. -/
theorem retains_iff {config : ConfigManager} {table : Table} {days : UInt32} {now : Int64}
    (hstored : config.values.lookup table.maxAgeKey = some ⟨.uint32, days⟩)
    (hnow : -2 ^ 63 ≤ now.toInt - 86400 * days.toNat) :
    Retains config table days now ↔ 86400 * days.toNat < 2 ^ 32 := by
  have hage := toInt_maxAge hstored
  have hcutoff := toInt_sub_of_le (a := now) (b := maxAge config table) (by omega) (by omega)
  constructor
  · intro h
    have hexact := (h _ ((mem_databaseCleanup_iff config now table _).mpr rfl)).1
    omega
  · intro hdays cutoff hmem
    obtain rfl := (mem_databaseCleanup_iff config now table cutoff).mp hmem
    refine ⟨by omega, ?_⟩
    intro timestamp hbefore
    have hlt := Int64.lt_iff_toInt_lt.mp hbefore
    omega

theorem retains_thirty :
    Retains (ConfigManager.create.set .uint32 Table.metrics.maxAgeKey 30) .metrics 30
      1745671930 :=
  (retains_iff (lookup_set_self _ .uint32 _ 30) (by decide)).mpr (by decide)

/-- With a setting of 49711 days, which is some 136 years, metrics are kept for 18 hours. -/
theorem not_forall_retains :
    ¬ ∀ (config : ConfigManager) (table : Table) (days : UInt32) (now : Int64),
      config.values.lookup table.maxAgeKey = some ⟨.uint32, days⟩ →
      -2 ^ 63 ≤ now.toInt - 86400 * days.toNat → Retains config table days now := by
  intro h
  have hcutoff := (h (ConfigManager.create.set .uint32 Table.metrics.maxAgeKey 49711) .metrics 49711
    1745671930 (lookup_set_self _ .uint32 _ 49711) (by decide) _
    ((mem_databaseCleanup_iff _ _ .metrics _).mpr rfl)).1
  have hage : maxAge (ConfigManager.create.set .uint32 Table.metrics.maxAgeKey 49711) .metrics
      = 63104 := by
    rw [maxAge, getOrDefault_of_lookup (lookup_set_self _ .uint32 _ 49711)]
    decide
  rw [hage] at hcutoff
  revert hcutoff
  decide

end NetSentry.Cleanup
