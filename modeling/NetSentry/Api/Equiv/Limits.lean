import NetSentry.Api.Listings
import NetSentry.Lib.Wrapping
import NetSentry.Network.Equiv.PacketAnalyzer
import NetSentry.Network.Equiv.TopConnections

/-!
# How many connections and hosts are listed

`stoul` accepts more than the numerals that a `limit` is expected to be, and the statistics count
the connections of a listing of at most 1000.

* `listed_iff`: when a listing has as many entries as the `limit` asks for, or the default.
* `networkStats_iff`: when the number that is printed is that of the conversations.
-/

namespace NetSentry.RestApi

open Bytes KeyedFold PacketAnalyzer TopK

/-! ### The statement -/

/-- A numeral of digits for a number below `2 ^ 64`. -/
def PlainLimit (value : Bytes) : Prop :=
  value ≠ [] ∧ (∀ c ∈ value, isDigit c = true) ∧ digitsValue value < 2 ^ 64

instance (value : Bytes) : Decidable (PlainLimit value) :=
  decidable_of_iff (value ≠ [] ∧ value.all isDigit ∧ digitsValue value < 2 ^ 64)
    (by rw [List.all_eq_true, PlainLimit])

/-- The limit that a value asks for, or the default. -/
def expectedLimit (value : Bytes) : ℕ := if PlainLimit value then digitsValue value else 10

/-- The value is a plain numeral, or `stoul` reads no number from it, or it reads the default, or
what it reads and the default are both enough for all entries. -/
def LimitHarmless (value : Bytes) (entries : ℕ) : Prop :=
  PlainLimit value ∨ ∀ k ∈ stoul value, k = 10 ∨ entries ≤ min k.toNat 10

/-! ### Limits -/

/-- A plain numeral is read as its number. -/
theorem stoul_of_plainLimit {value : Bytes} (h : PlainLimit value) :
    ∃ k, stoul value = some k ∧ k.toNat = digitsValue value := by
  obtain ⟨hne, hdigits, hlt⟩ := h
  have hread := strtol_digits [] hne hdigits (by simp)
  rw [List.append_nil] at hread
  refine ⟨UInt64.ofInt (digitsValue value), ?_, ?_⟩
  · rw [stoul, hread, Option.filter_some_pos (by simpa using hlt), Option.map_some]
  · have hword := Wrapping.toNat_ofInt (digitsValue value)
    omega

/-- **The limit of a listing** with so many entries. -/
theorem min_limit_iff (value : Bytes) (entries : ℕ) :
    min ((stoul value).getD 10).toNat entries = min (expectedLimit value) entries
      ↔ LimitHarmless value entries := by
  by_cases hplain : PlainLimit value
  · obtain ⟨k, hread, hk⟩ := stoul_of_plainLimit hplain
    rw [expectedLimit, if_pos hplain, hread, Option.getD_some, hk]
    exact ⟨fun _ => Or.inl hplain, fun _ => rfl⟩
  · rw [expectedLimit, if_neg hplain, LimitHarmless, or_iff_right hplain]
    cases stoul value with
    | none => simp
    | some k =>
      have hten : k = 10 ↔ k.toNat = 10 := UInt64.toNat_inj.symm
      simp only [Option.getD_some, Option.mem_some_iff, forall_eq', hten]
      omega

/-- A request with this `limit`. -/
def limitRequest (request : HttpRequest) (value : Bytes) : HttpRequest :=
  { request with queryParams := request.queryParams.insert (ascii "limit") value }

theorem limitOf_limitRequest (request : HttpRequest) (value : Bytes) :
    limitOf (limitRequest request value) = (stoul value).getD 10 := by
  rw [limitOf, limitRequest]
  simp only [Finmap.lookup_insert]

theorem length_listedConnections (sorter : Sorter compareConnectionsByTraffic)
    (visit : ∀ a : PacketAnalyzer, VisitOrder a.connections) (a : PacketAnalyzer)
    (request : HttpRequest) :
    (listedConnections sorter visit a request).length
      = min (limitOf request).toNat a.connections.keys.card :=
  length_getTopConnections a sorter (visit a) (limitOf request)

theorem length_listedHosts (sorter : Sorter compareHosts)
    (visit : ∀ a : PacketAnalyzer, VisitOrder a.hostTrafficStats) (a : PacketAnalyzer)
    (request : HttpRequest) :
    (listedHosts sorter visit a request).length
      = min (limitOf request).toNat a.hostTrafficStats.keys.card := by
  have hlength : (sortedHosts sorter visit a).length = a.hostTrafficStats.keys.card := by
    rw [sortedHosts, (sorter.perm _).length_eq, length_entries]
  rw [listedHosts, List.length_take, hlength, min_assoc, min_self]

/-- **The limit is honoured or defaulted** exactly where what `stoul` makes of it is harmless. -/
theorem listed_iff (sorter : Sorter compareConnectionsByTraffic)
    (visit : ∀ a : PacketAnalyzer, VisitOrder a.connections) (hostSorter : Sorter compareHosts)
    (visitHosts : ∀ a : PacketAnalyzer, VisitOrder a.hostTrafficStats) (a : PacketAnalyzer)
    (request : HttpRequest) (value : Bytes) :
    ((listedConnections sorter visit a (limitRequest request value)).length
        = min (expectedLimit value) a.connections.keys.card
      ↔ LimitHarmless value a.connections.keys.card)
    ∧ ((listedHosts hostSorter visitHosts a (limitRequest request value)).length
        = min (expectedLimit value) a.hostTrafficStats.keys.card
      ↔ LimitHarmless value a.hostTrafficStats.keys.card) := by
  rw [length_listedConnections, length_listedHosts, limitOf_limitRequest]
  exact ⟨min_limit_iff value _, min_limit_iff value _⟩

/-- An analyzer with one connection. -/
def oneConnection : PacketAnalyzer := (create []).processPacket query

/-- A request without parameters. -/
def plainRequest : HttpRequest where
  method := .get
  path := ascii "/api/v1/network/connections"
  headers := ∅
  queryParams := ∅
  body := []

/-- A numeral in base 16 is read as zero, and nothing is listed. -/
theorem not_forall_listed :
    ¬ ∀ (sorter : Sorter compareConnectionsByTraffic)
      (visit : ∀ a : PacketAnalyzer, VisitOrder a.connections) (a : PacketAnalyzer)
      (request : HttpRequest) (value : Bytes),
      (listedConnections sorter visit a (limitRequest request value)).length
        = min (expectedLimit value) a.connections.keys.card := by
  intro h
  have hlisted := h (mergeSorter compareConnectionsByTraffic_byWeight)
    (fun a => someOrder a.connections) oneConnection plainRequest
    (ascii "0x10")
  have hcard : oneConnection.connections.keys.card = 1 := rfl
  have hread : stoul (ascii "0x10") = some 0 := by decide +kernel
  have hexpected : expectedLimit (ascii "0x10") = 10 := by decide +kernel
  rw [length_listedConnections, limitOf_limitRequest, hread, hexpected, hcard] at hlisted
  exact absurd hlisted (by decide)

/-! ### The number of connections -/

/-- The canonical keys of the packets since the last reset. -/
def conversations (calls : List Call) : Finset ConnectionKey :=
  ((sinceReset calls).map (createConnectionKey ·)).toFinset

theorem keys_connections (parsers : List ProtocolParser) (calls : List Call) :
    (calls.foldl call (create parsers)).connections.keys = conversations calls :=
  (counters_eq parsers (List.Perm.refl (sinceReset calls))).1

theorem networkStatsBody_inj {n m : ℕ} : networkStatsBody n = networkStatsBody m ↔ n = m := by
  refine ⟨fun h => ?_, congrArg networkStatsBody⟩
  simp only [networkStatsBody, List.append_assoc, List.append_cancel_left_eq] at h
  have hdecimal : decimal n = decimal m := by
    simpa only [← List.append_assoc, List.append_cancel_right_eq] using h
  rw [← digitsValue_decimal n, hdecimal, digitsValue_decimal]

theorem body_handleGetNetworkStats (sorter : Sorter compareConnectionsByTraffic)
    (visit : ∀ a : PacketAnalyzer, VisitOrder a.connections) (parsers : List ProtocolParser)
    (calls : List Call) (request : HttpRequest) :
    (handleGetNetworkStats sorter visit (some (calls.foldl call (create parsers))) request).body
      = networkStatsBody (min 1000 (conversations calls).card) := by
  rw [← keys_connections parsers calls]
  exact congrArg networkStatsBody (length_getTopConnections _ sorter _ 1000)

/-- **The number of connections is printed** exactly where there are at most 1000. -/
theorem networkStats_iff (sorter : Sorter compareConnectionsByTraffic)
    (visit : ∀ a : PacketAnalyzer, VisitOrder a.connections) (parsers : List ProtocolParser)
    (calls : List Call) (request : HttpRequest) :
    (handleGetNetworkStats sorter visit (some (calls.foldl call (create parsers))) request).body
        = networkStatsBody (conversations calls).card
      ↔ (conversations calls).card ≤ 1000 := by
  rw [body_handleGetNetworkStats, networkStatsBody_inj]
  omega

theorem sinceReset_map (packets : List PacketInfo) :
    sinceReset (packets.map Call.processPacket) = packets := by
  induction packets using List.reverseRecOn with
  | nil => rfl
  | append_singleton packets packet ih =>
    rw [List.map_append, List.map_singleton, sinceReset_append_processPacket, ih]

/-- A packet from this port. -/
def packetFrom (port : ℕ) : PacketInfo := { query with sourcePort := port.toUInt16 }

theorem destPort_packetFrom (port : ℕ) :
    (createConnectionKey (packetFrom port)).destPort = port.toUInt16 := by
  have hswap : (packetFrom port).sourceIp > (packetFrom port).destIp := by
    change query.sourceIp > query.destIp
    decide
  rw [createConnectionKey, if_pos ⟨rfl, Or.inl hswap⟩]
  rfl

/-- Packets from 1001 ports. -/
def manyCalls : List Call := ((List.range 1001).map packetFrom).map Call.processPacket

theorem card_conversations_manyCalls : (conversations manyCalls).card = 1001 := by
  have hinj : ∀ i ∈ List.range 1001, ∀ j ∈ List.range 1001,
      createConnectionKey (packetFrom i) = createConnectionKey (packetFrom j) → i = j := by
    intro i hi j hj h
    have hport := congrArg (fun key => key.destPort.toNat) h
    rw [List.mem_range] at hi hj
    simp only [destPort_packetFrom, Nat.toUInt16, UInt16.toNat_ofNat'] at hport
    omega
  rw [conversations, manyCalls, sinceReset_map, List.map_map, List.toFinset_card_of_nodup,
    List.length_map, List.length_range]
  exact List.nodup_range.map_on hinj

/-- Of 1001 conversations 1000 are printed. -/
theorem not_forall_networkStats :
    ¬ ∀ (sorter : Sorter compareConnectionsByTraffic)
      (visit : ∀ a : PacketAnalyzer, VisitOrder a.connections) (parsers : List ProtocolParser)
      (calls : List Call) (request : HttpRequest),
      (handleGetNetworkStats sorter visit (some (calls.foldl call (create parsers))) request).body
        = networkStatsBody (conversations calls).card := by
  intro h
  have hbody := h (mergeSorter compareConnectionsByTraffic_byWeight)
    (fun a => someOrder a.connections) [] manyCalls plainRequest
  rw [body_handleGetNetworkStats, networkStatsBody_inj, card_conversations_manyCalls] at hbody
  exact absurd hbody (by decide)

end NetSentry.RestApi
