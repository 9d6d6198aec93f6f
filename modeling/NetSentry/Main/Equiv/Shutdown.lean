import Mathlib.Data.List.Infix
import NetSentry.Lib.Transition
import NetSentry.Main.Shutdown

/-!
# When no task outlives what it refers to

`no_misuse_of_reaches`: in every run in which `main` destroys a local only while no task that is
queued or running has an access to it ahead, no task makes an access to a local after its
destruction.

* `Inv`: what is destroyed is unused and stays so, since nothing is enqueued any more by then.
* `inv_step`: one step keeps the invariant, action by action.
-/

namespace NetSentry.Shutdown

open Transition

variable {n : ℕ} {w w' : World n}

/-- The accesses a worker has still to make. -/
def Worker.accesses : Worker → List Local
  | .busy accesses => accesses
  | _ => []

/-- No task that is queued or running has an access to the object ahead. -/
def Unused (tasks : List Task) (workers : Fin n → Worker) (object : Local) : Prop :=
  (∀ task ∈ tasks, object ∉ task.accesses) ∧ ∀ i, object ∉ (workers i).accesses

instance (tasks : List Task) (workers : Fin n → Worker) (object : Local) :
    Decidable (Unused tasks workers object) := inferInstanceAs (Decidable (_ ∧ _))

/-- The object that the step destroys, if it is a destructor. -/
def destroys (w : World n) : Action n → Option Local
  | .main =>
    match w.statements with
    | .destroy object :: _ => some object
    | _ => none
  | _ => none

/-- If the step destroys an object, it is unused. -/
def DestroysUnused (w : World n) (a : Action n) : Prop :=
  ∀ object ∈ destroys w a, Unused w.tasks w.workers object

instance (w : World n) (a : Action n) : Decidable (DestroysUnused w a) :=
  inferInstanceAs (Decidable (∀ object ∈ destroys w a, Unused w.tasks w.workers object))

/-! ### The invariant -/

/-- **The invariant.** -/
structure Inv (w : World n) : Prop where
  misuse : w.misuse = false
  unused : ∀ object ∈ w.destroyed, Unused w.tasks w.workers object
  /-- Nothing is destroyed before the loop is left and the capture has been stopped. -/
  quiet : w.destroyed ≠ [] → w.inLoop = false ∧ w.capturing = false
  loop : w.inLoop = true → ∀ statement ∈ w.statements, ∃ task, statement = .enqueue task
  suffix : w.inLoop = false → w.statements <:+ shutdown
  stopsCapture : w.inLoop = false → w.capturing = true → .stopCapture ∈ w.statements

theorem inv_initial (capturing : Bool) : Inv (World.initial capturing : World n) where
  misuse := rfl
  unused := fun _ h => absurd h List.not_mem_nil
  quiet := fun h => absurd rfl h
  loop := fun _ _ h => absurd h List.not_mem_nil
  suffix := fun h => nomatch h
  stopsCapture := fun h => nomatch h

/-- What a worker does not have ahead afterwards either stays unused. -/
theorem Unused.update {tasks tasks' : List Task} {workers : Fin n → Worker} {object : Local}
    (h : Unused tasks workers object) (htasks : tasks' ⊆ tasks) (i : Fin n) {worker : Worker}
    (hworker : object ∉ worker.accesses) :
    Unused tasks' (Function.update workers i worker) object := by
  constructor
  · intro task htask
    exact h.1 task (htasks htask)
  · apply (Function.forall_update_iff workers fun _ worker => object ∉ worker.accesses).mpr
    exact ⟨hworker, fun j _ => h.2 j⟩

/-- An iteration of the loop only enqueues. -/
theorem exists_eq_enqueue_of_iterate {fired reads : ℕ} {cleanup : Bool} {statement : Statement}
    (h : statement ∈ ([.enqueue (.checkAlerts fired), .enqueue (.storeMetrics reads)]
      ++ if cleanup then [.enqueue .cleanup] else [] : List Statement)) :
    ∃ task, statement = .enqueue task := by
  rcases List.mem_append.mp h with h | h
  · rcases List.mem_pair.mp h with rfl | rfl
    · exact ⟨_, rfl⟩
    · exact ⟨_, rfl⟩
  · split_ifs at h
    · exact ⟨_, List.mem_singleton.mp h⟩
    · cases h

theorem enqueue_not_mem_shutdown (task : Task) : .enqueue task ∉ shutdown := by
  intro h
  have hall : ∀ statement ∈ shutdown, ∀ task, statement ≠ .enqueue task := by
    intro statement hmem task
    have hcases : statement ∈ ([.stopCollectors, .stopCapture, .destroy .alertManager,
        .destroy .packetAnalyzer, .destroy .packetCapture, .destroy .collectors,
        .destroy .database, .stopPool, .joinWorkers, .destroy .threadPool] : List Statement) := hmem
    rintro rfl
    simp at hcases
  exact hall _ h task rfl

/-- Once `main` destroys an object, it has left the loop and stopped the capture. -/
theorem quiet_of_destroy (hinv : Inv w) {object : Local} {statements : List Statement}
    (h : w.statements = .destroy object :: statements) :
    w.inLoop = false ∧ w.capturing = false := by
  have hloop : w.inLoop = false := by
    by_contra hne
    obtain ⟨task, htask⟩ := hinv.loop (by simpa using hne) (.destroy object) (by rw [h]; simp)
    cases htask
  refine ⟨hloop, ?_⟩
  by_contra hne
  -- `stopCapture` is not among the statements from a destructor on
  have hmem := hinv.stopsCapture hloop (by simpa using hne)
  have hafter : ∀ l ∈ shutdown.tails, ∀ statement ∈ l.head?,
      .stopCapture ∈ l → statement = .stopCollectors ∨ statement = .stopCapture := by decide
  have hhead := hafter w.statements ((List.mem_tails _ _).mpr (hinv.suffix hloop)) (.destroy object)
    (by rw [h]; rfl) hmem
  simp at hhead

/-- A task is enqueued while nothing is destroyed. -/
theorem Inv.enqueue (hinv : Inv w) (hnone : w.destroyed = []) {task : Task}
    (h : w.enqueue task = some w') : Inv w' := by
  rw [World.enqueue] at h
  split_ifs at h
  obtain rfl := Option.some.inj h
  exact { hinv with unused := fun object hobject => absurd (hnone ▸ hobject) List.not_mem_nil }

/-- A worker goes on with no access ahead that the pool did not have ahead before. -/
theorem Inv.setWorker (hinv : Inv w) {tasks : List Task} (htasks : tasks ⊆ w.tasks) (i : Fin n)
    {worker : Worker}
    (hworker : ∀ object, Unused w.tasks w.workers object → object ∉ worker.accesses) :
    Inv { w with tasks := tasks, workers := Function.update w.workers i worker } :=
  { hinv with unused := fun object hobject =>
      (hinv.unused object hobject).update htasks i (hworker object (hinv.unused object hobject)) }

/-- `main` goes on to its next statement. -/
theorem Inv.tail (hinv : Inv w) {statement : Statement} {statements : List Statement}
    (h : w.statements = statement :: statements) (hcapture : statement ≠ .stopCapture) :
    Inv { w with statements := statements } where
  misuse := hinv.misuse
  unused := hinv.unused
  quiet := hinv.quiet
  loop := fun hloop s hs => hinv.loop hloop s (by rw [h]; exact List.mem_cons_of_mem _ hs)
  suffix := fun hloop => (List.suffix_cons statement statements).trans (h ▸ hinv.suffix hloop)
  stopsCapture := fun hloop hcapturing => by
    have hmem := hinv.stopsCapture hloop hcapturing
    rw [h] at hmem
    exact (List.mem_cons.mp hmem).resolve_left fun heq => hcapture heq.symm

theorem inv_main (hinv : Inv w) (hunused : DestroysUnused w .main)
    (h : step w .main = some w') : Inv w' := by
  simp only [step] at h
  split at h
  · next statement statements hstatements =>
    cases statement with
    | enqueue task =>
      -- only the loop enqueues, and nothing is destroyed before it is left
      have hloop : w.inLoop = true := by
        by_contra hne
        have hsuffix := hinv.suffix (by simpa using hne)
        exact enqueue_not_mem_shutdown task (hsuffix.subset (by rw [hstatements]; simp))
      have hnone : w.destroyed = [] := by
        by_contra hne
        rw [(hinv.quiet hne).1] at hloop
        cases hloop
      exact (hinv.tail hstatements nofun).enqueue hnone h
    | stopCollectors =>
      obtain rfl := Option.some.inj h
      exact hinv.tail hstatements nofun
    | stopCapture =>
      obtain rfl := Option.some.inj h
      exact {
        misuse := hinv.misuse
        unused := hinv.unused
        quiet := fun hne => ⟨(hinv.quiet hne).1, rfl⟩
        loop := fun hloop s hs =>
          hinv.loop hloop s (by rw [hstatements]; exact List.mem_cons_of_mem _ hs)
        suffix := fun hloop =>
          (List.suffix_cons _ statements).trans (hstatements ▸ hinv.suffix hloop)
        stopsCapture := fun _ hcapturing => nomatch hcapturing }
    | destroy object =>
      obtain rfl := Option.some.inj h
      have hquiet := quiet_of_destroy hinv hstatements
      have hobject : Unused w.tasks w.workers object :=
        hunused object (by rw [destroys, hstatements]; rfl)
      refine { hinv.tail hstatements nofun with unused := ?_, quiet := fun _ => hquiet }
      intro o ho
      rcases List.mem_cons.mp ho with rfl | ho
      · exact hobject
      · exact hinv.unused o ho
    | stopPool =>
      obtain rfl := Option.some.inj h
      exact { hinv.tail hstatements nofun with }
    | joinWorkers =>
      simp only [World.execute] at h
      split_ifs at h
      obtain rfl := Option.some.inj h
      exact hinv.tail hstatements nofun
  · cases h

/-- **One step keeps the invariant.** -/
theorem inv_step {a : Action n} (hinv : Inv w) (hunused : DestroysUnused w a)
    (h : step w a = some w') : Inv w' := by
  cases a with
  | iterate fired reads cleanup =>
    rw [step] at h
    split at h
    · next hcond =>
      obtain rfl := Option.some.inj h
      refine { hinv with loop := ?_, suffix := ?_, stopsCapture := ?_ }
      · intro _ statement hs
        exact exists_eq_enqueue_of_iterate hs
      · intro hloop
        exact absurd (hloop.symm.trans hcond.1) (by decide)
      · intro hloop
        exact absurd (hloop.symm.trans hcond.1) (by decide)
    · cases h
  | leaveLoop =>
    simp only [step] at h
    split_ifs at h with hcond
    obtain rfl := Option.some.inj h
    refine { hinv with quiet := ?_, loop := nofun, suffix := ?_, stopsCapture := ?_ }
    · -- nothing is destroyed while `main` is in its loop
      intro hne
      exact absurd ((hinv.quiet hne).1.symm.trans hcond.1) (by decide)
    · intro _
      exact List.suffix_refl _
    · intro _ _
      show Statement.stopCapture ∈ shutdown
      decide
  | main => exact inv_main hinv hunused h
  | capture hasStats =>
    simp only [step] at h
    split_ifs at h with hcapturing
    refine hinv.enqueue ?_ h
    by_contra hne
    exact absurd ((hinv.quiet hne).2.symm.trans hcapturing) (by decide)
  | take i =>
    simp only [step] at h
    split at h
    · next task tasks hworker htasks =>
      obtain rfl := Option.some.inj h
      have hsubset : tasks ⊆ w.tasks := htasks ▸ List.subset_cons_self task tasks
      exact hinv.setWorker hsubset i fun object hobject =>
        hobject.1 task (htasks ▸ List.mem_cons_self)
    · cases h
  | access i =>
    simp only [step] at h
    split at h
    · next object accesses hworker =>
      obtain rfl := Option.some.inj h
      -- what is unused is neither accessed now nor ahead
      have hahead : ∀ o, Unused w.tasks w.workers o → o ≠ object ∧ o ∉ accesses := by
        intro o ho
        have hnot := ho.2 i
        rw [hworker] at hnot
        exact not_or.mp fun hor => hnot (List.mem_cons.mpr hor)
      have hkept : Inv { w with workers := Function.update w.workers i (.busy accesses) } :=
        hinv.setWorker (fun _ h => h) i fun o ho => (hahead o ho).2
      refine { hkept with misuse := ?_ }
      rw [hinv.misuse, Bool.false_or, decide_eq_false_iff_not]
      intro hmem
      exact (hahead object (hinv.unused object hmem)).1 rfl
    · cases h
  | finish i =>
    simp only [step] at h
    split_ifs at h
    obtain rfl := Option.some.inj h
    exact hinv.setWorker (fun _ h => h) i fun _ _ => List.not_mem_nil
  | exit i =>
    simp only [step] at h
    split_ifs at h
    obtain rfl := Option.some.inj h
    exact hinv.setWorker (fun _ h => h) i fun _ _ => List.not_mem_nil

/-- **No task outlives what it refers to**, in every run in which `main` destroys only what is
unused. -/
theorem no_misuse_of_reaches (capturing : Bool)
    (h : Reaches step DestroysUnused (World.initial capturing) w) : w.misuse = false := by
  have hinv : Inv w := h.invariant (fun _ _ _ hinv hunused hstep => inv_step hinv hunused hstep)
    (inv_initial capturing)
  exact hinv.misuse

/-! ### Two runs -/

/-- The worker finishes the tasks of an iteration before `main` leaves its loop. -/
def drained : List (Action 1) :=
  [.iterate 1 0 false, .main, .main, .take 0, .access 0, .access 0, .access 0, .access 0, .finish 0,
    .take 0, .access 0, .access 0, .finish 0] ++
  [.leaveLoop] ++ List.replicate 8 .main ++ [.exit 0, .main, .main]

theorem no_misuse_drained :
    ∃ w, run step DestroysUnused (World.initial true) drained = some w ∧
      w.destroyed = declarations ∧ w.misuse = false := by
  have hrun : ∃ w, run step DestroysUnused (World.initial true) drained = some w ∧
      w.destroyed = declarations := ⟨_, rfl, rfl⟩
  obtain ⟨w, hrun, hdestroyed⟩ := hrun
  exact ⟨w, hrun, hdestroyed, no_misuse_of_reaches true (reaches_of_run hrun)⟩

/-- `main` leaves its loop with the tasks of an iteration still queued. -/
def queuedAtShutdown : List (Action 1) :=
  [.iterate 0 0 false, .main, .main, .leaveLoop, .main, .main, .main, .take 0, .access 0]

/-- The alert check runs on the destroyed alert manager. -/
theorem not_forall_no_misuse :
    ¬ ∀ (n : ℕ) (capturing : Bool) (w : World n),
      Reaches step (fun _ _ => True) (World.initial capturing) w → w.misuse = false := by
  intro h
  have hend : ∃ w, run step (fun _ _ => True) (World.initial true) queuedAtShutdown = some w ∧
      w.misuse = true := ⟨_, rfl, rfl⟩
  obtain ⟨w, hrun, hmisuse⟩ := hend
  have hfalse := h 1 true w (reaches_of_run hrun)
  rw [hmisuse] at hfalse
  cases hfalse

end NetSentry.Shutdown
