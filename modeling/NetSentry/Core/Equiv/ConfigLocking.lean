import NetSentry.Core.ConfigLocking
import NetSentry.Lib.Transition

/-!
# Which operations of `ConfigManager` return

`saveToFile` writes what `generateYaml` gives, which calls `getAllKeys` with `mutex_` locked, and
`getAllKeys` locks it again.

* `returns_iff`: in every state that is reached, every operation returns but `saveToFile`, where it
  can open the file.
* `does_call`: the operations that return do to the settings what they do without the mutex.
-/

namespace NetSentry.ConfigLocking

open Bytes KeyedFold GuardedState Transition

/-! ### The operations without the mutex -/

theorem does_get (T : ConfigType) (key : Bytes) : Does (get T key) fun c => (c.get T key, c) :=
  Does.lockGuard_read _

theorem does_getOrDefault (T : ConfigType) (key : Bytes) (default : T.Value) :
    Does (getOrDefault T key default) fun c => (c.getOrDefault T key default, c) :=
  (does_get T key).bind fun _ => Does.pure _

theorem does_set (T : ConfigType) (key : Bytes) (value : T.Value) :
    Does (set T key value) fun c => ((), c.set T key value) :=
  Does.lockGuard_write _

theorem does_setDefaultConfig : Does setDefaultConfig fun c => ((), c.setDefaultConfig) :=
  Does.forM (fun (key, entry) => does_set entry.1 key entry.2) ConfigManager.defaultConfig

theorem does_parseYamlValue (T : ConfigType) (key value : Bytes) :
    Does (parseYamlValue T key value) fun c => ((), c.parseYamlValue T key value) := by
  simp only [parseYamlValue, ConfigManager.parseYamlValue]
  cases ConfigManager.parsedValue T value with
  | none => exact Does.pure ()
  | some v => exact does_set T key v

theorem does_parseYamlLine (line : Bytes) :
    Does (parseYamlLine line) fun c => ((), c.parseYamlLine line) := by
  simp only [parseYamlLine, ConfigManager.parseYamlLine]
  cases ConfigManager.parseLine line with
  | none => exact Does.pure ()
  | some assignment => exact does_parseYamlValue _ _ _

theorem does_loadFromFile (file : Option Bytes) :
    Does (loadFromFile file) fun c => c.loadFromFile file := by
  cases file with
  | none => exact Does.pure false
  | some content =>
    exact (Does.forM does_parseYamlLine (getlines content)).bind fun _ => Does.pure true

/-- What an operation does to the settings. -/
def Operation.effect (c : ConfigManager) : Operation → ConfigManager
  | .loadFromFile file => (c.loadFromFile file).2
  | .setDefaultConfig => c.setDefaultConfig
  | .set T key value => c.set T key value
  | .remove key => { values := c.values.erase key }
  | .clear => { values := ∅ }
  | .saveToFile _ | .get _ _ | .getOrDefault _ _ _ | .existsKey _ | .getAllKeys => c

section

variable {putDouble : Double → Bytes} {visit : ∀ c : ConfigManager, VisitOrder c.values}
  {visitCategories : ∀ m : Finmap fun _ : Bytes => List Bytes, VisitOrder m}

theorem Does.discard {α : Type} {x : ConfigPart α} {f : ConfigManager → α × ConfigManager}
    (h : Does x f) : Does (discard x) fun c => ((), (f c).2) :=
  h.bind fun _ => Does.pure ()

/-- **An operation that returns** does what it does without the mutex. -/
theorem does_call {op : Operation} (h : op ≠ .saveToFile true) :
    Does (call putDouble visit visitCategories op) fun c => ((), op.effect c) := by
  cases op with
  | loadFromFile file => exact Does.discard (does_loadFromFile file)
  | saveToFile isOpen =>
    cases isOpen with
    | false => exact Does.discard (Does.pure _)
    | true => exact absurd rfl h
  | setDefaultConfig => exact does_setDefaultConfig
  | get T key => exact Does.discard (does_get T key)
  | getOrDefault T key default => exact Does.discard (does_getOrDefault T key default)
  | set T key value => exact does_set T key value
  | existsKey key => exact Does.discard (Does.lockGuard_read _)
  | remove key => exact Does.lockGuard_write _
  | clear => exact Does.lockGuard_write _
  | getAllKeys => exact Does.discard (Does.lockGuard_read _)

/-! ### `saveToFile` -/

/-- `generateYaml` has locked the mutex when it calls `getAllKeys`. -/
theorem generateYaml_eq_none (s : GuardedState ConfigManager) :
    generateYaml putDouble visit visitCategories s = none := by
  rw [generateYaml, lockGuard]
  split_ifs
  · rfl
  · have hkeys : getAllKeys visit { s with locked := true } = none := lockGuard_locked _ s.value
    rw [bind_eq_none hkeys]
    rfl

theorem call_saveToFile (s : GuardedState ConfigManager) :
    call putDouble visit visitCategories (.saveToFile true) s = none := by
  have hsave : saveToFile putDouble visit visitCategories true s = none :=
    bind_eq_none (generateYaml_eq_none s) _
  change (saveToFile putDouble visit visitCategories true s).bind _ = none
  rw [hsave]
  rfl

/-! ### Runs -/

theorem create_eq : create = some (free ConfigManager.create) := rfl

theorem free_of_step {c : ConfigManager} {op : Operation} {t : GuardedState ConfigManager}
    (h : step putDouble visit visitCategories (free c) op = some t) :
    t = free (op.effect c) := by
  by_cases hop : op = .saveToFile true
  · rw [step, hop, call_saveToFile] at h
    cases h
  · rw [step, does_call hop c] at h
    exact (Option.some.inj h).symm

end

/-- **Every operation returns** but `saveToFile`, where it can open the file. -/
theorem returns_iff (putDouble : Double → Bytes) (visit : ∀ c : ConfigManager, VisitOrder c.values)
    (visitCategories : ∀ m : Finmap fun _ : Bytes => List Bytes, VisitOrder m)
    {s₀ s : GuardedState ConfigManager} (hcreate : create = some s₀)
    (h : Reaches (step putDouble visit visitCategories) (fun _ _ => True) s₀ s) (op : Operation) :
    (call putDouble visit visitCategories op s).isSome ↔ op ≠ .saveToFile true := by
  have hfree : ∃ c, s = free c := by
    apply h.invariant
    · rintro _ op t ⟨c, rfl⟩ - hstep
      exact ⟨op.effect c, free_of_step hstep⟩
    · rw [create_eq] at hcreate
      exact ⟨ConfigManager.create, (Option.some.inj hcreate).symm⟩
  obtain ⟨c, rfl⟩ := hfree
  constructor
  · rintro hreturns rfl
    rw [call_saveToFile] at hreturns
    cases hreturns
  · intro hop
    rw [does_call hop c]
    rfl

/-- Settings are loaded, and saved to a file that cannot be opened. -/
theorem returns_iff_loaded :
    (call (fun _ => []) (fun c => ⟨c.values.keys.val.toList, Multiset.coe_toList _⟩)
        (fun m => ⟨m.keys.val.toList, Multiset.coe_toList _⟩) (.saveToFile false)
        (free (ConfigManager.create.loadFromFile (some (ascii "log_level: warn\n"))).2)).isSome
      = true :=
  (returns_iff _ _ _ create_eq
    ((Reaches.refl _).head (.loadFromFile (some (ascii "log_level: warn\n"))) trivial
      (by rw [step, does_call (by simp)]; rfl)) (.saveToFile false)).mpr (by simp)

/-- Saving the settings never returns. -/
theorem not_forall_returns :
    ¬ ∀ (putDouble : Double → Bytes) (visit : ∀ c : ConfigManager, VisitOrder c.values)
      (visitCategories : ∀ m : Finmap fun _ : Bytes => List Bytes, VisitOrder m)
      (s₀ s : GuardedState ConfigManager), create = some s₀ →
      Reaches (step putDouble visit visitCategories) (fun _ _ => True) s₀ s →
        ∀ op, (call putDouble visit visitCategories op s).isSome := by
  intro h
  have hsave := h (fun _ => []) (fun c => someOrder c.values) someOrder _ _ create_eq
    (Reaches.refl _) (.saveToFile true)
  rw [call_saveToFile] at hsave
  cases hsave

end NetSentry.ConfigLocking
