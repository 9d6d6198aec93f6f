import NetSentry.Network.TopConnections

/-!
# The connections with the most traffic

`getTopConnections_topK`: `getTopConnections` gives the first connections by traffic, none of them
twice, and leaves out none with more traffic; its list of totals depends on nothing but the
connections and the limit.
-/

namespace NetSentry.PacketAnalyzer

open KeyedFold TopK

variable {a : PacketAnalyzer}

theorem compareConnectionsByTraffic_byWeight : ByWeight compareConnectionsByTraffic traffic :=
  fun _ _ => decide_eq_true_iff

/-- Cutting a list off where it is too long. -/
theorem getTopConnections_eq (a : PacketAnalyzer) (sorter : Sorter compareConnectionsByTraffic)
    (visit : VisitOrder a.connections) (limit : UInt64) :
    a.getTopConnections sorter visit limit
      = topK sorter limit.toNat (entries a.connections visit) := by
  rw [getTopConnections, topK]
  split_ifs with h
  · rfl
  · rw [List.take_of_length_le (not_lt.mp h)]

theorem length_getTopConnections (a : PacketAnalyzer) (sorter : Sorter compareConnectionsByTraffic)
    (visit : VisitOrder a.connections) (limit : UInt64) :
    (a.getTopConnections sorter visit limit).length
      = min limit.toNat a.connections.keys.card := by
  rw [getTopConnections_eq, length_topK, length_entries]

/-- What is expected of the first connections. -/
structure TopConnections (a : PacketAnalyzer) (limit : UInt64)
    (result : List (ConnectionKey × ConnectionStats)) : Prop where
  length : result.length = min limit.toNat a.connections.keys.card
  found : ∀ entry ∈ result, a.connections.lookup entry.1 = some entry.2
  nodup : (result.map Prod.fst).Nodup
  ordered : result.Pairwise fun entry next => traffic next ≤ traffic entry
  leftOut : ∀ key stats, a.connections.lookup key = some stats → (key, stats) ∉ result →
    ∀ entry ∈ result, traffic (key, stats) ≤ traffic entry

theorem topConnections_getTopConnections (a : PacketAnalyzer)
    (sorter : Sorter compareConnectionsByTraffic) (visit : VisitOrder a.connections)
    (limit : UInt64) : TopConnections a limit (a.getTopConnections sorter visit limit) := by
  have htop := getTopConnections_eq a sorter visit limit
  constructor
  · exact length_getTopConnections a sorter visit limit
  · intro entry hentry
    rw [htop] at hentry
    exact (mem_entries visit).mp (mem_of_mem_topK sorter hentry)
  · rw [htop]
    exact nodup_topK sorter (nodup_keys_entries visit)
  · rw [htop]
    exact pairwise_topK sorter compareConnectionsByTraffic_byWeight
  · intro key stats hlookup hnot entry hentry
    rw [htop] at hnot hentry
    exact le_of_notMem_topK sorter compareConnectionsByTraffic_byWeight
      ((mem_entries visit).mpr hlookup) hnot hentry

/-- **The first connections by traffic**, and the totals for a limit among those for a greater
one. -/
theorem getTopConnections_topK (a : PacketAnalyzer) :
    IsStrictWeakOrder _ (fun x y => compareConnectionsByTraffic x y = true)
    ∧ (∀ (sorter : Sorter compareConnectionsByTraffic) (visit : VisitOrder a.connections)
        (limit : UInt64), TopConnections a limit (a.getTopConnections sorter visit limit))
    ∧ ∀ (sorter sorter' : Sorter compareConnectionsByTraffic)
        (visit visit' : VisitOrder a.connections) (k l : UInt64), k ≤ l →
        (a.getTopConnections sorter visit k).map traffic
          = ((a.getTopConnections sorter' visit' l).take k.toNat).map traffic := by
  refine ⟨compareConnectionsByTraffic_byWeight.isStrictWeakOrder,
    topConnections_getTopConnections a, fun sorter sorter' visit visit' k l hkl => ?_⟩
  rw [getTopConnections_eq, getTopConnections_eq]
  exact map_weight_topK sorter compareConnectionsByTraffic_byWeight sorter'
    (perm_entries visit visit') (UInt64.le_iff_toNat_le.mp hkl)

end NetSentry.PacketAnalyzer
