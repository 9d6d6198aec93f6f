import NetSentry.Lib.KeyedFold
import NetSentry.Lib.Transition
import NetSentry.Main.PacketTask
import NetSentry.Network.Equiv.PacketAnalyzer

/-!
# When the stored records converge

`stored_of_reaches`: in every run in which a worker stores a stale snapshot of a connection only
while another task of that connection has its own snapshot still to take or holds a current one, the
record stored for every connection is that of its final statistics once all tasks have finished.

* `step_cases`: what each step does.
* `inv_step`: at any time the record of a connection is up to date, or some task is going to bring
  it up to date.
-/

namespace NetSentry.PacketTask

open PacketAnalyzer KeyedFold Transition

variable {δ : Type} {n : ℕ} {db : ConnectionDatabase δ} {w w' : World δ n}

/-! ### Steps -/

/-- **What a step does.** -/
theorem step_cases {a : Action n} (h : step db w a = some w') :
    (∃ packet, a = .enqueue packet ∧ w' = { w with tasks := w.tasks ++ [packet] }) ∨
    (∃ i packet tasks, a = .take i ∧ w.workers i = .waiting ∧ w.tasks = packet :: tasks ∧
      w' = { w with tasks := tasks, workers := Function.update w.workers i (.taken packet) }) ∨
    (∃ i packet, a = .process i ∧ w.workers i = .taken packet ∧
      w' = { w with
        analyzer := w.analyzer.processPacket packet
        workers := Function.update w.workers i (.processed packet) }) ∨
    (∃ i packet, a = .fetch i ∧ w.workers i = .processed packet ∧
      w' = { w with workers := Function.update w.workers i (.fetched packet
        (w.analyzer.getConnectionStats (createConnectionKey packet))) }) ∨
    (∃ i packet connStats, a = .update i ∧ w.workers i = .fetched packet connStats ∧
      w' = { w with
        database := connStats.elim w.database fun connStats =>
          db.updateConnection w.database (connectionRecord (createConnectionKey packet) connStats)
        workers := Function.update w.workers i .waiting }) := by
  cases a with
  | enqueue packet => exact .inl ⟨packet, rfl, by simpa [step] using h.symm⟩
  | take i =>
    simp only [step] at h
    split at h
    · next packet tasks hworker htasks =>
      exact .inr (.inl ⟨i, packet, tasks, rfl, hworker, htasks, by simpa using h.symm⟩)
    · cases h
  | process i =>
    simp only [step] at h
    split at h
    · next packet hworker =>
      exact .inr (.inr (.inl ⟨i, packet, rfl, hworker, by simpa using h.symm⟩))
    · cases h
  | fetch i =>
    simp only [step] at h
    split at h
    · next packet hworker =>
      exact .inr (.inr (.inr (.inl ⟨i, packet, rfl, hworker, by simpa using h.symm⟩)))
    · cases h
  | update i =>
    simp only [step] at h
    split at h
    · next packet connStats hworker =>
      exact .inr (.inr (.inr (.inr ⟨i, packet, some connStats, rfl, hworker, by
        simpa using h.symm⟩)))
    · next packet hworker =>
      exact .inr (.inr (.inr (.inr ⟨i, packet, none, rfl, hworker, by simpa using h.symm⟩)))
    · cases h

/-! ### The invariant -/

/-- The worker is going to store the current statistics of the connection: it has still to fetch
them, or those it has fetched are still current. -/
def Refreshes (analyzer : PacketAnalyzer) (connKey : ConnectionKey) : Worker → Prop
  | .waiting => False
  | .taken packet => createConnectionKey packet = connKey
  | .processed packet => createConnectionKey packet = connKey
  | .fetched packet connStats => createConnectionKey packet = connKey ∧
      connStats.map (connectionRecord connKey)
        = (analyzer.getConnectionStats connKey).map (connectionRecord connKey)

/-- Some task is going to store the current statistics of the connection. -/
def Pending (w : World δ n) (connKey : ConnectionKey) : Prop :=
  (∃ packet ∈ w.tasks, createConnectionKey packet = connKey) ∨
    ∃ i, Refreshes w.analyzer connKey (w.workers i)

/-- **The invariant**: every connection is stored, or is going to be. -/
def Inv (db : ConnectionDatabase δ) (w : World δ n) : Prop :=
  ∀ connKey, w.Stored db connKey ∨ Pending w connKey

/-- Statistics that are not current any more are stored only while another task of the connection is
queued or is going to store the current ones. -/
def StaleIsCovered (w : World δ n) : Action n → Prop
  | .update i => ∀ packet connStats, w.workers i = .fetched packet (some connStats) →
      Refreshes w.analyzer (createConnectionKey packet) (w.workers i) ∨
      (∃ packet' ∈ w.tasks, createConnectionKey packet' = createConnectionKey packet) ∨
      ∃ j, j ≠ i ∧ Refreshes w.analyzer (createConnectionKey packet) (w.workers j)
  | _ => True

instance (analyzer : PacketAnalyzer) (connKey : ConnectionKey) :
    ∀ worker, Decidable (Refreshes analyzer connKey worker)
  | .waiting => inferInstanceAs (Decidable False)
  | .taken _ | .processed _ => inferInstanceAs (Decidable (_ = _))
  | .fetched _ _ => inferInstanceAs (Decidable (_ ∧ _))

/-- What a worker stores next is current, or it is covered. -/
def Covered (w : World δ n) (i : Fin n) : Worker → Prop
  | .fetched packet (some connStats) =>
    Refreshes w.analyzer (createConnectionKey packet) (.fetched packet (some connStats)) ∨
      (∃ packet' ∈ w.tasks, createConnectionKey packet' = createConnectionKey packet) ∨
      ∃ j, j ≠ i ∧ Refreshes w.analyzer (createConnectionKey packet) (w.workers j)
  | _ => True

instance (w : World δ n) (i : Fin n) : ∀ worker, Decidable (Covered w i worker)
  | .fetched _ (some _) => inferInstanceAs (Decidable (_ ∨ _ ∨ _))
  | .waiting | .taken _ | .processed _ | .fetched _ none => inferInstanceAs (Decidable True)

theorem staleIsCovered_update_iff {i : Fin n} :
    StaleIsCovered w (.update i) ↔ Covered w i (w.workers i) := by
  rw [StaleIsCovered]
  cases w.workers i with
  | fetched packet connStats =>
    cases connStats with
    | none => exact ⟨fun _ => trivial, fun _ _ _ h => by cases h⟩
    | some connStats =>
      refine ⟨fun h => h packet connStats rfl, fun h _ _ heq => ?_⟩
      cases heq
      exact h
  | _ => exact ⟨fun _ => trivial, fun _ _ _ h => by cases h⟩

instance (w : World δ n) : ∀ a, Decidable (StaleIsCovered w a)
  | .update _ => decidable_of_iff' _ staleIsCovered_update_iff
  | .enqueue _ | .take _ | .process _ | .fetch _ => inferInstanceAs (Decidable True)

theorem getConnectionStats_processPacket_of_ne {a : PacketAnalyzer} {packet : PacketInfo}
    {connKey : ConnectionKey} (h : createConnectionKey packet ≠ connKey) :
    (a.processPacket packet).getConnectionStats connKey = a.getConnectionStats connKey := by
  rw [getConnectionStats, connections_processPacket, lookup_accumulate, if_neg h]
  rfl

/-- Processing a packet of another connection leaves a worker's prospects as they are. -/
theorem refreshes_processPacket {a : PacketAnalyzer} {packet : PacketInfo}
    {connKey : ConnectionKey} (h : createConnectionKey packet ≠ connKey) (worker : Worker) :
    Refreshes (a.processPacket packet) connKey worker ↔ Refreshes a connKey worker := by
  cases worker with
  | fetched p connStats => rw [Refreshes, Refreshes, getConnectionStats_processPacket_of_ne h]
  | _ => exact Iff.rfl

theorem exists_refreshes_update_self {a : PacketAnalyzer} {connKey : ConnectionKey}
    {workers : Fin n → Worker} (i : Fin n) {worker : Worker} (h : Refreshes a connKey worker) :
    ∃ j, Refreshes a connKey (Function.update workers i worker j) :=
  ⟨i, by rwa [Function.update_self]⟩

theorem exists_refreshes_update_of_ne {a : PacketAnalyzer} {connKey : ConnectionKey}
    {workers : Fin n → Worker} {i j : Fin n} (worker : Worker) (hji : j ≠ i)
    (h : Refreshes a connKey (workers j)) :
    ∃ j, Refreshes a connKey (Function.update workers i worker j) :=
  ⟨j, by rwa [Function.update_of_ne hji]⟩

/-- Giving a worker a state that is as good as the one it had loses no prospect. -/
theorem exists_refreshes_update {a : PacketAnalyzer} {connKey : ConnectionKey}
    {workers : Fin n → Worker} {i : Fin n} {worker : Worker}
    (hi : Refreshes a connKey (workers i) → Refreshes a connKey worker)
    (h : ∃ j, Refreshes a connKey (workers j)) :
    ∃ j, Refreshes a connKey (Function.update workers i worker j) := by
  obtain ⟨j, hj⟩ := h
  by_cases hji : j = i
  · subst hji
    exact exists_refreshes_update_self j (hi hj)
  · exact exists_refreshes_update_of_ne worker hji hj

theorem inv_initial (parsers : List ProtocolParser) (database : δ) :
    Inv db (World.initial parsers database : World δ n) := by
  intro connKey
  left
  intro connStats h
  cases h

/-! ### One step -/

theorem Inv.enqueue (hinv : Inv db w) (packet : PacketInfo) :
    Inv db { w with tasks := w.tasks ++ [packet] } := by
  intro connKey
  refine (hinv connKey).imp_right (Or.imp_left ?_)
  rintro ⟨p, hp, hkey⟩
  exact ⟨p, List.mem_append_left _ hp, hkey⟩

/-- The task goes from the queue to the worker. -/
theorem Inv.take (hinv : Inv db w) {i : Fin n} (hworker : w.workers i = .waiting)
    {packet : PacketInfo} {tasks : List PacketInfo} (htasks : w.tasks = packet :: tasks) :
    Inv db { w with
      tasks := tasks, workers := Function.update w.workers i (.taken packet) } := by
  intro connKey
  apply (hinv connKey).imp_right
  rintro (⟨p, hp, hkey⟩ | hworkers)
  · rw [htasks] at hp
    rcases List.mem_cons.mp hp with rfl | hp
    · right
      exact exists_refreshes_update_self i hkey
    · left
      exact ⟨p, hp, hkey⟩
  · right
    apply exists_refreshes_update _ hworkers
    intro hi
    rw [hworker] at hi
    exact hi.elim

theorem Inv.process (hinv : Inv db w) {i : Fin n} {packet : PacketInfo}
    (hworker : w.workers i = .taken packet) :
    Inv db { w with
      analyzer := w.analyzer.processPacket packet
      workers := Function.update w.workers i (.processed packet) } := by
  intro connKey
  by_cases hkey : createConnectionKey packet = connKey
  · -- the worker has still to fetch what it has changed
    exact .inr (.inr (exists_refreshes_update_self i hkey))
  · refine (hinv connKey).imp ?_ (Or.imp_right ?_)
    · intro hstored connStats hstats
      apply hstored
      rw [← hstats]
      exact (getConnectionStats_processPacket_of_ne hkey).symm
    · intro hworkers
      refine exists_refreshes_update ?_
        (hworkers.imp fun j hj => (refreshes_processPacket hkey _).mpr hj)
      intro hi
      rw [hworker] at hi
      exact hi

/-- What the worker fetches is current. -/
theorem Inv.fetch (hinv : Inv db w) {i : Fin n} {packet : PacketInfo}
    (hworker : w.workers i = .processed packet) :
    Inv db { w with workers := Function.update w.workers i (.fetched packet
      (w.analyzer.getConnectionStats (createConnectionKey packet))) } := by
  intro connKey
  refine (hinv connKey).imp_right (Or.imp_right (exists_refreshes_update ?_))
  intro hi
  rw [hworker] at hi
  obtain rfl : createConnectionKey packet = connKey := hi
  exact ⟨rfl, rfl⟩

/-- The worker changes the record of its own connection only. -/
theorem Inv.update_of_ne {connKey : ConnectionKey}
    (hconn : w.Stored db connKey ∨ Pending w connKey) {i : Fin n} {packet : PacketInfo}
    {connStats : Option ConnectionStats} (hworker : w.workers i = .fetched packet connStats)
    (hkey : createConnectionKey packet ≠ connKey) {w' : World δ n}
    (hw' : w' = { w with
      database := connStats.elim w.database fun connStats =>
        db.updateConnection w.database (connectionRecord (createConnectionKey packet) connStats)
      workers := Function.update w.workers i .waiting }) :
    w'.Stored db connKey ∨ Pending w' connKey := by
  subst hw'
  refine hconn.imp ?_ (Or.imp_right ?_)
  · intro hstored current hstats
    cases connStats with
    | none => exact hstored current hstats
    | some connStats =>
      simp only [Option.elim_some]
      rw [db.stored_updateConnection, connectionRecord_key, if_neg hkey]
      exact hstored current hstats
  · apply exists_refreshes_update
    intro hi
    rw [hworker] at hi
    exact absurd hi.1 hkey

/-- A worker that stores current statistics brings the record of its connection up to date. -/
theorem stored_update_self {i : Fin n} {packet : PacketInfo}
    {connStats : Option ConnectionStats}
    (hcurrent : Refreshes w.analyzer (createConnectionKey packet) (.fetched packet connStats)) :
    ({ w with
      database := connStats.elim w.database fun connStats =>
        db.updateConnection w.database (connectionRecord (createConnectionKey packet) connStats)
      workers := Function.update w.workers i .waiting } : World δ n).Stored db
        (createConnectionKey packet) := by
  intro current hstats
  have hrecord := hcurrent.2
  rw [show w.analyzer.getConnectionStats _ = some current from hstats] at hrecord
  cases connStats with
  | none => cases hrecord
  | some connStats =>
    simp only [Option.elim_some]
    rw [db.stored_updateConnection, connectionRecord_key, if_pos rfl]
    exact hrecord

theorem Inv.update (hinv : Inv db w) {i : Fin n} (hcovered : StaleIsCovered w (.update i))
    {packet : PacketInfo} {connStats : Option ConnectionStats}
    (hworker : w.workers i = .fetched packet connStats) :
    Inv db { w with
      database := connStats.elim w.database fun connStats =>
        db.updateConnection w.database (connectionRecord (createConnectionKey packet) connStats)
      workers := Function.update w.workers i .waiting } := by
  intro connKey
  by_cases hkey : createConnectionKey packet = connKey
  · subst hkey
    by_cases hcurrent : Refreshes w.analyzer (createConnectionKey packet) (w.workers i)
    · left
      rw [hworker] at hcurrent
      exact stored_update_self hcurrent
    · have hothers : ∀ j, Refreshes w.analyzer (createConnectionKey packet) (w.workers j) →
          j ≠ i := by
        rintro j hj rfl
        exact hcurrent hj
      cases connStats with
      | none =>
        -- nothing is stored, and the worker was of no use
        refine (hinv _).imp_right (Or.imp_right ?_)
        rintro ⟨j, hj⟩
        exact exists_refreshes_update_of_ne _ (hothers j hj) hj
      | some connStats =>
        right
        rcases hcovered packet connStats hworker with hcur | htask | ⟨j, hji, hj⟩
        · exact absurd hcur hcurrent
        · exact .inl htask
        · exact .inr (exists_refreshes_update_of_ne _ hji hj)
  · exact Inv.update_of_ne (hinv connKey) hworker hkey rfl

/-- **One step keeps the invariant.** -/
theorem inv_step {a : Action n} (hinv : Inv db w) (hcovered : StaleIsCovered w a)
    (h : step db w a = some w') : Inv db w' := by
  rcases step_cases h with ⟨packet, rfl, rfl⟩ | ⟨i, packet, tasks, rfl, hworker, htasks, rfl⟩ |
    ⟨i, packet, rfl, hworker, rfl⟩ | ⟨i, packet, rfl, hworker, rfl⟩ |
    ⟨i, packet, connStats, rfl, hworker, rfl⟩
  · exact hinv.enqueue packet
  · exact hinv.take hworker htasks
  · exact hinv.process hworker
  · exact hinv.fetch hworker
  · exact hinv.update hcovered hworker

/-- **The stored records converge** in every run in which stale statistics are covered. -/
theorem stored_of_reaches (parsers : List ProtocolParser) (database : δ)
    (h : Reaches (step db) StaleIsCovered (World.initial parsers database) w)
    (hfinished : w.Finished) (connKey : ConnectionKey) : w.Stored db connKey := by
  have hinv : Inv db w :=
    h.invariant (fun _ _ _ hinv hcovered hstep => inv_step hinv hcovered hstep)
      (inv_initial parsers database)
  rcases hinv connKey with hstored | ⟨p, hp, _⟩ | ⟨i, hi⟩
  · exact hstored
  · rw [hfinished.1] at hp
    cases hp
  · rw [hfinished.2 i] at hi
    exact hi.elim

/-! ### Two runs -/

/-- A packet of the connection between `a` and `b`. -/
def examplePacket (timestamp : UInt64) : PacketInfo where
  data := []
  size := 40
  sourceIp := Bytes.ascii "a"
  destIp := Bytes.ascii "b"
  sourcePort := 1
  destPort := 2
  protocol := IPPROTO_UDP
  timestamp := timestamp

/-- Two workers handle two packets of one connection.  The first one stores statistics that are not
current any more, while the second one has still to fetch its own. -/
def overlapping : List (Action 2) :=
  [.enqueue (examplePacket 5), .enqueue (examplePacket 6), .take 0, .take 1, .process 0, .fetch 0,
    .process 1, .update 0, .fetch 1, .update 1]

theorem stored_of_reaches_overlapping :
    ∃ (w : World _ 2) (connStats : ConnectionStats),
      run (step mapDatabase) StaleIsCovered (World.initial [] ∅) overlapping = some w ∧
      connStats.packetsSent = 2 ∧
      mapDatabase.stored w.database (createConnectionKey (examplePacket 5))
        = some (connectionRecord (createConnectionKey (examplePacket 5)) connStats) := by
  have hend : (run (step mapDatabase) StaleIsCovered (World.initial [] ∅) overlapping).any
      (fun w => decide (w.Finished ∧
        (w.analyzer.getConnectionStats (createConnectionKey (examplePacket 5))).any
          (·.packetsSent = 2))) = true := by decide +kernel
  obtain ⟨w, hrun, hw⟩ := (Option.any_eq_true _ _).mp hend
  obtain ⟨hfinished, hsent⟩ := of_decide_eq_true hw
  obtain ⟨connStats, hstats, hsent⟩ := (Option.any_eq_true _ _).mp hsent
  exact ⟨w, connStats, hrun, of_decide_eq_true hsent,
    stored_of_reaches [] ∅ (reaches_of_run hrun) hfinished _ connStats hstats⟩

/-- Two workers handle two packets of one connection, and the one that has fetched the statistics
first stores them last. -/
def overtaken : List (Action 2) :=
  [.enqueue (examplePacket 5), .enqueue (examplePacket 6), .take 0, .take 1, .process 0, .fetch 0,
    .process 1, .fetch 1, .update 1, .update 0]

/-- The record of the first packet alone stays stored. -/
theorem not_forall_stored :
    ¬ ∀ (n : ℕ) (δ : Type) (db : ConnectionDatabase δ) (parsers : List ProtocolParser)
      (database : δ) (w : World δ n),
      Reaches (step db) (fun _ _ => True) (World.initial parsers database) w → w.Finished →
        ∀ connKey, w.Stored db connKey := by
  intro h
  have hend : ∃ w connStats,
      run (step mapDatabase) (fun _ _ => True) (World.initial [] ∅) overtaken = some w ∧
      w.Finished ∧
      w.analyzer.getConnectionStats (createConnectionKey (examplePacket 5)) = some connStats ∧
      mapDatabase.stored w.database (createConnectionKey (examplePacket 5))
        ≠ some (connectionRecord (createConnectionKey (examplePacket 5)) connStats) := by
    refine ⟨_, { packetsSent := 2, bytesSent := 80, firstSeen := 5, lastSeen := 6 }, rfl, ?_⟩
    decide +kernel
  obtain ⟨w, connStats, hrun, hfinished, hstats, hne⟩ := hend
  exact hne (h 2 _ mapDatabase [] ∅ w (reaches_of_run hrun) hfinished _ connStats hstats)

end NetSentry.PacketTask
