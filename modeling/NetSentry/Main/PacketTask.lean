import Mathlib.Logic.Function.Basic
import NetSentry.Db.ConnectionDatabase

/-!
# The packet tasks of `main`

For every captured packet `main` enqueues a task in the thread pool.  A worker takes the tasks from
the front of the queue and runs each in three critical sections: `processPacket`, then
`getConnectionStats`, then `updateConnection`.  `step` is one of these, or the capture of a packet,
or the taking of a task; any number of workers take their steps in any order.
-/

namespace NetSentry

/-- The record that the task makes of the statistics of a connection. -/
def connectionRecord (connKey : ConnectionKey) (connStats : ConnectionStats) :
    ConnectionRecord where
  sourceIp := connKey.sourceIp
  sourcePort := connKey.sourcePort
  destIp := connKey.destIp
  destPort := connKey.destPort
  protocol := connKey.protocol
  bytesSent := connStats.bytesSent
  bytesReceived := connStats.bytesReceived
  packetsSent := connStats.packetsSent
  packetsReceived := connStats.packetsReceived
  firstSeen := connStats.firstSeen.toInt64
  lastSeen := connStats.lastSeen.toInt64

@[simp] theorem connectionRecord_key (connKey : ConnectionKey) (connStats : ConnectionStats) :
    (connectionRecord connKey connStats).key = connKey := rfl

namespace PacketTask

open PacketAnalyzer

/-- How far a worker has got with its task. -/
inductive Worker
  | waiting
  | taken (packet : PacketInfo)
  | processed (packet : PacketInfo)
  | fetched (packet : PacketInfo) (connStats : Option ConnectionStats)
deriving DecidableEq

/-- The analyzer, the database, the queue of the pool and its `n` workers. -/
structure World (δ : Type) (n : ℕ) where
  analyzer : PacketAnalyzer
  database : δ
  tasks : List PacketInfo
  workers : Fin n → Worker

/-- A step of the capture thread or of a worker. -/
inductive Action (n : ℕ)
  | enqueue (packet : PacketInfo)
  | take (i : Fin n)
  | process (i : Fin n)
  | fetch (i : Fin n)
  | update (i : Fin n)

variable {δ : Type} {n : ℕ}

/-- No packet has been captured. -/
def World.initial (parsers : List ProtocolParser) (database : δ) : World δ n where
  analyzer := create parsers
  database := database
  tasks := []
  workers := fun _ => .waiting

/-- The world after a step, where the step can be taken. -/
def step (db : ConnectionDatabase δ) (w : World δ n) : Action n → Option (World δ n)
  | .enqueue packet => some { w with tasks := w.tasks ++ [packet] }
  | .take i =>
    match w.workers i, w.tasks with
    | .waiting, packet :: tasks =>
      some { w with tasks := tasks, workers := Function.update w.workers i (.taken packet) }
    | _, _ => none
  | .process i =>
    match w.workers i with
    | .taken packet =>
      some { w with
        analyzer := w.analyzer.processPacket packet
        workers := Function.update w.workers i (.processed packet) }
    | _ => none
  | .fetch i =>
    match w.workers i with
    | .processed packet =>
      let connStats := w.analyzer.getConnectionStats (createConnectionKey packet)
      some { w with workers := Function.update w.workers i (.fetched packet connStats) }
    | _ => none
  | .update i =>
    match w.workers i with
    | .fetched packet (some connStats) =>
      let record := connectionRecord (createConnectionKey packet) connStats
      some { w with
        database := db.updateConnection w.database record
        workers := Function.update w.workers i .waiting }
    | .fetched _ none => some { w with workers := Function.update w.workers i .waiting }
    | _ => none

/-- All tasks have finished. -/
def World.Finished (w : World δ n) : Prop := w.tasks = [] ∧ ∀ i, w.workers i = .waiting

instance (w : World δ n) : Decidable w.Finished := inferInstanceAs (Decidable (_ ∧ _))

/-- What is stored of a connection are the statistics the analyzer has of it. -/
def World.Stored (db : ConnectionDatabase δ) (w : World δ n) (connKey : ConnectionKey) : Prop :=
  ∀ connStats, w.analyzer.getConnectionStats connKey = some connStats →
    db.stored w.database connKey = some (connectionRecord connKey connStats)

end PacketTask

end NetSentry
