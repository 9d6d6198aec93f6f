import Mathlib.Data.List.Perm.Basic
import NetSentry.Lib.KeyedFold
import NetSentry.Lib.Transition

/-!
# Linearizable histories

Threads call the methods of an object and get answers; a history is the list of these events.  A
sequential specification says which answer a method may give in a state, and what the state is then.

* `Linearizable`: the calls of a history can be put into an order in which the specification allows
  every answer, and which agrees with the history at every point of it: what has been answered by
  then is in the order by then, and what is in the order by then has been called.
* `Atomic`: the atomic object, on which each call takes effect in one step (`commit`) between the
  call and the answer; `Atomic.linearizable` says that its histories are linearizable.
* `Follows`: the atomic object gets to where a system is; `Follows.call`, `Follows.commit` and
  `Follows.answer` are the ways to say so of one step.
* `atomic_of_simulation`: a system whose steps do what steps of the atomic object do has no other
  histories than that one.
* `Atomic.perm_of_ready`: where no call is in progress, the effects are those of the calls that the
  history shows.
-/

namespace Linearizability

open KeyedFold

/-- A thread calls a method, or gets its answer. -/
inductive Event (ι μ ρ : Type*)
  | call (i : ι) (method : μ)
  | answer (i : ι) (result : ρ)

/-- A call that has taken effect. -/
structure Effect (ι μ ρ : Type*) where
  thread : ι
  method : μ
  result : ρ

variable {ι μ ρ σ : Type*} [DecidableEq ι]

/-! ### What a history shows of a thread -/

/-- The methods that have been called, with the threads. -/
def allCalls (events : List (Event ι μ ρ)) : List (ι × μ) :=
  events.filterMap fun
    | .call i method => some (i, method)
    | .answer _ _ => none

/-- The answers that have been given, with the threads. -/
def allAnswers (events : List (Event ι μ ρ)) : List (ι × ρ) :=
  events.filterMap fun
    | .call _ _ => none
    | .answer i result => some (i, result)

/-- The methods that have taken effect, with the threads. -/
def allMethods (order : List (Effect ι μ ρ)) : List (ι × μ) :=
  order.map fun e => (e.thread, e.method)

/-- The results of the methods that have taken effect, with the threads. -/
def allResults (order : List (Effect ι μ ρ)) : List (ι × ρ) :=
  order.map fun e => (e.thread, e.result)

/-- The methods that a thread has called. -/
def calls (i : ι) (events : List (Event ι μ ρ)) : List μ := valuesOf i (allCalls events)

/-- The answers that a thread has got. -/
def answers (i : ι) (events : List (Event ι μ ρ)) : List ρ := valuesOf i (allAnswers events)

/-- The methods of a thread that have taken effect. -/
def methods (i : ι) (order : List (Effect ι μ ρ)) : List μ := valuesOf i (allMethods order)

/-- The results of the methods of a thread that have taken effect. -/
def results (i : ι) (order : List (Effect ι μ ρ)) : List ρ := valuesOf i (allResults order)

section Append

variable (i j : ι) (events : List (Event ι μ ρ)) (order : List (Effect ι μ ρ)) (m : μ)
  (r : ρ)

@[simp] theorem calls_append_call :
    calls i (events ++ [.call j m]) = calls i events ++ if j = i then [m] else [] := by
  rw [calls, calls, allCalls, List.filterMap_append]
  exact valuesOf_append_singleton i j _ m

@[simp] theorem calls_append_answer : calls i (events ++ [.answer j r]) = calls i events := by
  simp [calls, allCalls]

@[simp] theorem answers_append_call : answers i (events ++ [.call j m]) = answers i events := by
  simp [answers, allAnswers]

@[simp] theorem answers_append_answer :
    answers i (events ++ [.answer j r]) = answers i events ++ if j = i then [r] else [] := by
  rw [answers, answers, allAnswers, List.filterMap_append]
  exact valuesOf_append_singleton i j _ r

@[simp] theorem methods_append :
    methods i (order ++ [⟨j, m, r⟩]) = methods i order ++ if j = i then [m] else [] := by
  rw [methods, methods, allMethods, List.map_append]
  exact valuesOf_append_singleton i j _ m

@[simp] theorem results_append :
    results i (order ++ [⟨j, m, r⟩]) = results i order ++ if j = i then [r] else [] := by
  rw [results, results, allResults, List.map_append]
  exact valuesOf_append_singleton i j _ r

end Append

/-! ### Linearizability -/

/-- The specification allows the effects, in this order, from one state to another. -/
inductive Legal (spec : σ → μ → ρ → σ → Prop) (s : σ) : List (Effect ι μ ρ) → σ → Prop
  | nil : Legal spec s [] s
  | append {order : List (Effect ι μ ρ)} {t u : σ} {e : Effect ι μ ρ} (h : Legal spec s order t)
    (he : spec t e.method e.result u) : Legal spec s (order ++ [e]) u

/-- Of each thread, what has been answered has taken effect, and what has taken effect has been
called. -/
def Agrees (order : List (Effect ι μ ρ)) (events : List (Event ι μ ρ)) : Prop :=
  ∀ i, answers i events <+: results i order ∧ methods i order <+: calls i events

/-- **A linearizable history.**  The order agrees with every beginning of the history as far as it
has then been made; so a call that is answered before another one begins comes before it. -/
def Linearizable (spec : σ → μ → ρ → σ → Prop) (s : σ) (events : List (Event ι μ ρ)) : Prop :=
  ∃ order, (∃ t, Legal spec s order t) ∧ Agrees order events ∧
    ∀ earlier, earlier <+: events → ∃ made, made <+: order ∧ Agrees made earlier

/-! ### The atomic object -/

/-- How far the call of a thread is. -/
inductive Phase (μ ρ : Type*)
  | ready
  | called (method : μ)
  | done (result : ρ)

/-- The atomic object: its threads and its state. -/
structure Object (ι μ ρ σ : Type*) where
  phases : ι → Phase μ ρ
  state : σ

/-- No call is in progress. -/
def Object.start (s : σ) : Object ι μ ρ σ := ⟨fun _ => .ready, s⟩

/-- Steps of the atomic object, with the events that they show and the effects in their order. -/
inductive Atomic (spec : σ → μ → ρ → σ → Prop) (c : Object ι μ ρ σ) :
    List (Event ι μ ρ) → List (Effect ι μ ρ) → Object ι μ ρ σ → Prop
  | refl : Atomic spec c [] [] c
  | call {events : List (Event ι μ ρ)} {order : List (Effect ι μ ρ)} {d : Object ι μ ρ σ} {i : ι}
    {m : μ} (h : Atomic spec c events order d) (hi : d.phases i = .ready) :
    Atomic spec c (events ++ [.call i m]) order
      ⟨Function.update d.phases i (.called m), d.state⟩
  | commit {events : List (Event ι μ ρ)} {order : List (Effect ι μ ρ)} {d : Object ι μ ρ σ} {i : ι}
    {m : μ} {r : ρ} {s : σ} (h : Atomic spec c events order d) (hi : d.phases i = .called m)
    (hspec : spec d.state m r s) :
    Atomic spec c events (order ++ [⟨i, m, r⟩]) ⟨Function.update d.phases i (.done r), s⟩
  | answer {events : List (Event ι μ ρ)} {order : List (Effect ι μ ρ)} {d : Object ι μ ρ σ} {i : ι}
    {r : ρ} (h : Atomic spec c events order d) (hi : d.phases i = .done r) :
    Atomic spec c (events ++ [.answer i r]) order
      ⟨Function.update d.phases i .ready, d.state⟩

variable {spec : σ → μ → ρ → σ → Prop} {c d e : Object ι μ ρ σ}
  {events events' : List (Event ι μ ρ)} {order order' : List (Effect ι μ ρ)}

/-- Steps of the atomic object one after the other. -/
theorem Atomic.trans (h : Atomic spec c events order d) (h' : Atomic spec d events' order' e) :
    Atomic spec c (events ++ events') (order ++ order') e := by
  induction h' with
  | refl =>
    rw [List.append_nil, List.append_nil]
    exact h
  | call _ hi ih =>
    rw [← List.append_assoc]
    exact ih.call hi
  | commit _ hi hspec ih =>
    rw [← List.append_assoc]
    exact ih.commit hi hspec
  | answer _ hi ih =>
    rw [← List.append_assoc]
    exact ih.answer hi

theorem Atomic.legal (h : Atomic spec c events order d) : Legal spec c.state order d.state := by
  induction h with
  | refl => exact .nil
  | call _ _ ih => exact ih
  | commit _ _ hspec ih => exact ih.append hspec
  | answer _ _ ih => exact ih

/-- What a phase of a thread says about its calls and answers, and about the effects of them. -/
def Phase.Fits (calls methods : List μ) (answers results : List ρ) : Phase μ ρ → Prop
  | .ready => calls = methods ∧ results = answers
  | .called m => calls = methods ++ [m] ∧ results = answers
  | .done r => calls = methods ∧ results = answers ++ [r]

/-- **Each thread has at most one call in progress**, whose phase says what is missing. -/
theorem Atomic.fits {s : σ} (h : Atomic spec (.start s) events order d) (i : ι) :
    (d.phases i).Fits (calls i events) (methods i order) (answers i events) (results i order) := by
  induction h with
  | refl => exact ⟨rfl, rfl⟩
  | @call events order d j m _ hj ih =>
    by_cases hij : i = j
    · subst hij
      rw [hj] at ih
      simpa [Phase.Fits] using ih
    · simpa [Function.update_of_ne hij, Ne.symm hij] using ih
  | @commit events order d j m r s _ hj _ ih =>
    by_cases hij : i = j
    · subst hij
      rw [hj] at ih
      simpa [Phase.Fits] using ih
    · simpa [Function.update_of_ne hij, Ne.symm hij] using ih
  | @answer events order d j r _ hj ih =>
    by_cases hij : i = j
    · subst hij
      rw [hj] at ih
      simpa [Phase.Fits] using ih
    · simpa [Function.update_of_ne hij, Ne.symm hij] using ih

theorem Atomic.agrees {s : σ} (h : Atomic spec (.start s) events order d) :
    Agrees order events := by
  intro i
  have hfits := h.fits i
  cases hphase : d.phases i with
  | ready =>
    rw [hphase] at hfits
    exact ⟨hfits.2 ▸ List.prefix_refl _, hfits.1 ▸ List.prefix_refl _⟩
  | called m =>
    rw [hphase] at hfits
    exact ⟨hfits.2 ▸ List.prefix_refl _, hfits.1 ▸ List.prefix_append _ _⟩
  | done r =>
    rw [hphase] at hfits
    exact ⟨hfits.2 ▸ List.prefix_append _ _, hfits.1 ▸ List.prefix_refl _⟩

/-- At every point of the history the order has been made as far as it has to be. -/
theorem Atomic.agrees_earlier {s : σ} (h : Atomic spec (.start s) events order d)
    {earlier : List (Event ι μ ρ)} (hearlier : earlier <+: events) :
    ∃ made, made <+: order ∧ Agrees made earlier := by
  induction h with
  | refl =>
    obtain rfl := List.prefix_nil.mp hearlier
    exact ⟨[], List.prefix_refl _, fun _ => ⟨List.prefix_refl _, List.prefix_refl _⟩⟩
  | call h hi ih =>
    rcases List.prefix_concat_iff.mp hearlier with rfl | hbefore
    · exact ⟨_, List.prefix_refl _, (h.call hi).agrees⟩
    · exact ih hbefore
  | commit _ _ _ ih =>
    obtain ⟨made, hmade, hagrees⟩ := ih hearlier
    exact ⟨made, hmade.trans (List.prefix_append _ _), hagrees⟩
  | answer h hi ih =>
    rcases List.prefix_concat_iff.mp hearlier with rfl | hbefore
    · exact ⟨_, List.prefix_refl _, (h.answer hi).agrees⟩
    · exact ih hbefore

/-- **The histories of the atomic object are linearizable.** -/
theorem Atomic.linearizable {s : σ} (h : Atomic spec (.start s) events order d) :
    Linearizable spec s events :=
  ⟨order, ⟨d.state, h.legal⟩, h.agrees, fun _ hearlier => h.agrees_earlier hearlier⟩

/-! ### Systems that do what the atomic object does -/

section Simulation

variable {τ α : Type*} {step : τ → α → Option τ} {guard : τ → α → Prop}
  {shown : τ → α → List (Event ι μ ρ)}

/-- A system with the history of its run. -/
def record (step : τ → α → Option τ) (shown : τ → α → List (Event ι μ ρ))
    (r : τ × List (Event ι μ ρ)) (a : α) : Option (τ × List (Event ι μ ρ)) :=
  (step r.1 a).map fun t => (t, r.2 ++ shown r.1 a)

/-- The atomic object gets to where the system is, showing the events. -/
def Follows (spec : σ → μ → ρ → σ → Prop) (R : τ → Object ι μ ρ σ → Prop) (t : τ)
    (c : Object ι μ ρ σ) (events : List (Event ι μ ρ)) : Prop :=
  ∃ order d, Atomic spec c events order d ∧ R t d

section Follows

variable {R : τ → Object ι μ ρ σ → Prop} {t : τ} {i : ι} {m : μ} {r : ρ} {s : σ}

/-- The call goes on, and shows nothing. -/
theorem Follows.silent {phase : Phase μ ρ} (hphase : c.phases i = phase)
    (h : R t ⟨Function.update c.phases i phase, c.state⟩) : Follows spec R t c [] := by
  subst hphase
  rw [Function.update_eq_self] at h
  exact ⟨[], c, .refl, h⟩

theorem Follows.call (hphase : c.phases i = .ready)
    (h : R t ⟨Function.update c.phases i (.called m), c.state⟩) :
    Follows spec R t c [.call i m] :=
  ⟨[], _, Atomic.refl.call hphase, h⟩

/-- The call takes effect. -/
theorem Follows.commit (hphase : c.phases i = .called m) (hspec : spec c.state m r s)
    (h : R t ⟨Function.update c.phases i (.done r), s⟩) : Follows spec R t c [] :=
  ⟨[⟨i, m, r⟩], _, Atomic.refl.commit hphase hspec, h⟩

theorem Follows.answer (hphase : c.phases i = .done r)
    (h : R t ⟨Function.update c.phases i .ready, c.state⟩) : Follows spec R t c [.answer i r] :=
  ⟨[], _, Atomic.refl.answer hphase, h⟩

/-- The call takes effect with its last step. -/
theorem Follows.commitAnswer (hphase : c.phases i = .called m) (hspec : spec c.state m r s)
    (h : R t ⟨Function.update c.phases i .ready, s⟩) : Follows spec R t c [.answer i r] := by
  have hsteps := (Atomic.refl.commit hphase hspec).answer (Function.update_self ..)
  rw [Function.update_idem] at hsteps
  exact ⟨_, _, hsteps, h⟩

end Follows

/-- **The simulation rule**: the history of a run of steps that each do what steps of the atomic
object do is one of that object. -/
theorem atomic_of_simulation {R : τ → Object ι μ ρ σ → Prop} {s₀ : τ} {c₀ : Object ι μ ρ σ}
    (hstart : R s₀ c₀)
    (hstep : ∀ s a t c, R s c → guard s a → step s a = some t →
      Follows spec R t c (shown s a))
    {t : τ} {events : List (Event ι μ ρ)}
    (h : Transition.Reaches (record step shown) (fun r a => guard r.1 a) (s₀, []) (t, events)) :
    ∃ order d, Atomic spec c₀ events order d ∧ R t d := by
  have hkeep : ∀ (r : τ × List (Event ι μ ρ)) a r',
      (∃ order d, Atomic spec c₀ r.2 order d ∧ R r.1 d) → guard r.1 a →
      record step shown r a = some r' → ∃ order d, Atomic spec c₀ r'.2 order d ∧ R r'.1 d := by
    rintro ⟨s, es⟩ a r' ⟨order, d, hatomic, hR⟩ hguard hrec
    obtain ⟨u, hu, rfl⟩ := Option.map_eq_some_iff.mp hrec
    obtain ⟨order', d', hatomic', hR'⟩ := hstep s a u d hR hguard hu
    exact ⟨_, d', hatomic.trans hatomic', hR'⟩
  exact h.invariant hkeep ⟨[], c₀, .refl, hstart⟩

end Simulation

/-! ### Histories in which every call has been answered -/

/-- **Where no call is in progress**, the effects are those of the calls that the history shows,
with the answers that it shows. -/
theorem Atomic.perm_of_ready {s : σ} (h : Atomic spec (.start s) events order d)
    (hready : ∀ i, d.phases i = .ready) :
    (allCalls events).Perm (allMethods order) ∧ (allAnswers events).Perm (allResults order) := by
  have hfits : ∀ i, calls i events = methods i order ∧ results i order = answers i events := by
    intro i
    have hi := h.fits i
    rwa [hready i] at hi
  exact ⟨perm_of_valuesOf fun i => (hfits i).1, perm_of_valuesOf fun i => (hfits i).2.symm⟩

end Linearizability
