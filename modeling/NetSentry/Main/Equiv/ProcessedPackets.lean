import NetSentry.Lib.Progress
import NetSentry.Main.Equiv.PacketTask
import NetSentry.Main.WireTraffic

/-!
# What the tasks have processed

In any run of the tasks, whatever the order of the steps, the analyzer has processed the captured
packets but those that are still queued or in the hands of a worker (`processed_of_path`); once all
tasks have finished it has processed all of them (`processed_of_finished`).

* `unprocessed_step`: what one step captures and what it processes.
-/

namespace NetSentry.PacketTask

open PacketAnalyzer Transition

variable {δ : Type} {n : ℕ} {db : ConnectionDatabase δ} {w : World δ n}

/-- The packet that the worker has still to process. -/
def Worker.holds : Worker → Multiset PacketInfo
  | .taken packet => {packet}
  | _ => 0

@[simp] theorem Worker.holds_waiting : waiting.holds = 0 := rfl

@[simp] theorem Worker.holds_taken (packet : PacketInfo) : (taken packet).holds = {packet} := rfl

@[simp] theorem Worker.holds_processed (packet : PacketInfo) : (processed packet).holds = 0 := rfl

@[simp] theorem Worker.holds_fetched (packet : PacketInfo) (connStats : Option ConnectionStats) :
    (fetched packet connStats).holds = 0 := rfl

/-- The packets that have still to be processed. -/
def World.unprocessed (w : World δ n) : Multiset PacketInfo :=
  w.tasks + ∑ i, (w.workers i).holds

/-- A worker goes on. -/
theorem sum_holds {w' : World δ n} {i : Fin n} {old new : Worker} (hold : w.workers i = old)
    (hnew : w'.workers = Function.update w.workers i new) :
    (∑ j, (w'.workers j).holds) + old.holds = (∑ j, (w.workers j).holds) + new.holds := by
  rw [hnew, ← hold]
  exact sum_update_add Worker.holds w.workers i new

/-- **One step**: what it captures is unprocessed, and what it processes is not any more. -/
theorem unprocessed_step {w' : World δ n} {a : Action n} (h : step db w a = some w') :
    ∃ processed : List PacketInfo, w'.analyzer = processed.foldl processPacket w.analyzer ∧
      w.unprocessed + ([a].filterMap captured : List PacketInfo) = processed + w'.unprocessed := by
  rcases step_cases h with ⟨packet, rfl, rfl⟩ | ⟨i, packet, tasks, rfl, hworker, htasks, hw'⟩ |
    ⟨i, packet, rfl, hworker, hw'⟩ | ⟨i, packet, rfl, hworker, hw'⟩ |
    ⟨i, packet, connStats, rfl, hworker, hw'⟩
  · refine ⟨[], rfl, ?_⟩
    show w.unprocessed + (([packet] : List PacketInfo) : Multiset PacketInfo)
      = ([] : List PacketInfo) + (↑(w.tasks ++ [packet]) + _)
    rw [World.unprocessed, ← Multiset.coe_add, Multiset.coe_nil]
    abel
  · -- the packet goes from the queue to the worker
    have hsum := sum_holds hworker (congrArg World.workers hw')
    simp only [Worker.holds_waiting, Worker.holds_taken, add_zero] at hsum
    refine ⟨[], by rw [hw']; rfl, ?_⟩
    rw [World.unprocessed, World.unprocessed, hsum, htasks, hw', ← Multiset.cons_coe,
      ← Multiset.singleton_add]
    show _ + 0 = 0 + _
    abel
  · have hsum := sum_holds hworker (congrArg World.workers hw')
    simp only [Worker.holds_taken, Worker.holds_processed, add_zero] at hsum
    refine ⟨[packet], by rw [hw']; rfl, ?_⟩
    rw [World.unprocessed, World.unprocessed, ← hsum, hw', Multiset.coe_singleton]
    show _ + 0 = _ + _
    abel
  · have hsum := sum_holds hworker (congrArg World.workers hw')
    simp only [Worker.holds_processed, Worker.holds_fetched, add_zero] at hsum
    refine ⟨[], by rw [hw']; rfl, ?_⟩
    rw [World.unprocessed, World.unprocessed, hsum, hw']
    exact add_comm _ _
  · have hsum := sum_holds hworker (congrArg World.workers hw')
    simp only [Worker.holds_fetched, Worker.holds_waiting, add_zero] at hsum
    refine ⟨[], by rw [hw']; rfl, ?_⟩
    rw [World.unprocessed, World.unprocessed, hsum, hw']
    exact add_comm _ _

/-- **What has been processed**: the captured packets but those that are still queued or in the
hands of a worker, in some order. -/
theorem processed_of_path {parsers : List ProtocolParser} {database : δ} {as : List (Action n)}
    (h : Path (step db) (fun _ _ => True) (World.initial parsers database) as w) :
    ∃ processed : List PacketInfo, w.analyzer = processed.foldl processPacket (create parsers) ∧
      (as.filterMap captured : Multiset PacketInfo) = processed + w.unprocessed := by
  induction h with
  | nil =>
    refine ⟨[], rfl, ?_⟩
    show (0 : Multiset PacketInfo) = 0 + (0 + ∑ _, 0)
    rw [Finset.sum_const_zero]
    rfl
  | append _ _ hstep ih =>
    obtain ⟨before, hbefore, hcount⟩ := ih
    obtain ⟨now, hnow, hlast⟩ := unprocessed_step hstep
    refine ⟨before ++ now, by rw [hnow, hbefore, List.foldl_append], ?_⟩
    rw [List.filterMap_append, ← Multiset.coe_add, ← Multiset.coe_add, hcount, add_assoc, hlast,
      add_assoc]

/-- **Once all tasks have finished**, the captured packets have been processed. -/
theorem processed_of_finished {parsers : List ProtocolParser} {database : δ} {as : List (Action n)}
    (h : Path (step db) (fun _ _ => True) (World.initial parsers database) as w)
    (hfinished : w.Finished) :
    ∃ processed : List PacketInfo, w.analyzer = processed.foldl processPacket (create parsers) ∧
      (as.filterMap captured).Perm processed := by
  obtain ⟨processed, hanalyzer, hcount⟩ := processed_of_path h
  have hnone : w.unprocessed = 0 := by
    rw [World.unprocessed, hfinished.1, Finset.sum_eq_zero fun i _ => by rw [hfinished.2 i]; rfl]
    rfl
  rw [hnone, add_zero] at hcount
  exact ⟨processed, hanalyzer, Multiset.coe_eq_coe.mp hcount⟩

end NetSentry.PacketTask
