import Mathlib.Data.List.Basic
import NetSentry.Lib.Numeral

/-!
# Memory accesses and substrings that can go wrong

A `Checked α` is a computation that yields an `α` unless it first makes an access it must not make:
it reads an index that a sequence does not have, copies a range that does not lie inside a sequence,
or takes or erases a substring that begins past the end.  The first such access is the `Fault`.

* `readAt`, `readWord`, `rangeAt`, `substr`, `substrFrom`, `erase`: the accesses.
* `Defined x`: `x` makes no faulty access; `defined_bind` takes it apart along a sequence of steps.
* `readAt_of_lt`, `rangeAt_of_le`, `substr_of_le`: what an access that stays inside yields.
* `Approx x y`: `y` yields what `x` yields, as it does when the sequence goes on behind.
-/

/-- The first access that left the sequence it was made on. -/
inductive Fault
  /-- Element `index` of a sequence of `size` elements was read. -/
  | outOfBounds (index size : ℕ)
  /-- The elements from `first` up to `last` of a sequence of `size` elements were copied. -/
  | badRange (first last size : ℕ)
  /-- A substring from `pos` on was taken or erased of a sequence of `size` elements. -/
  | outOfRange (pos size : ℕ)
deriving DecidableEq, Repr

/-- A computation that stops at its first faulty access. -/
abbrev Checked (α : Type*) := Except Fault α

namespace Checked

universe u

variable {α β : Type u}

/-- `xs[i]`. -/
def readAt (xs : List α) (i : ℕ) : Checked α :=
  match xs[i]? with
  | some x => .ok x
  | none => .error (.outOfBounds i xs.length)

/-- `(data[i] << 8) | data[i + 1]`. -/
def readWord (data : Bytes) (i : ℕ) : Checked UInt16 := do
  let hi ← readAt data i
  let lo ← readAt data (i + 1)
  pure (Bytes.be16 hi lo)

/-- The copy of the iterator range `xs.begin() + a .. xs.begin() + b`. -/
def rangeAt (xs : List α) (a b : ℕ) : Checked (List α) :=
  if a ≤ b ∧ b ≤ xs.length then .ok ((xs.drop a).take (b - a))
  else .error (.badRange a b xs.length)

/-- `xs.substr(pos, n)`: at most `n` elements from `pos` on. -/
def substr (xs : List α) (pos n : ℕ) : Checked (List α) :=
  if pos ≤ xs.length then .ok ((xs.drop pos).take n) else .error (.outOfRange pos xs.length)

/-- `xs.substr(pos)`: everything from `pos` on. -/
def substrFrom (xs : List α) (pos : ℕ) : Checked (List α) :=
  if pos ≤ xs.length then .ok (xs.drop pos) else .error (.outOfRange pos xs.length)

/-- `xs.erase(pos, n)`: without at most `n` elements from `pos` on. -/
def erase (xs : List α) (pos n : ℕ) : Checked (List α) :=
  if pos ≤ xs.length then .ok (xs.take pos ++ xs.drop (pos + n))
  else .error (.outOfRange pos xs.length)

/-- The computation makes no faulty access. -/
def Defined (x : Checked α) : Prop := ∃ a, x = .ok a

/-- The result of a computation, or the given value where it makes a faulty access. -/
def getD (x : Checked α) (a : α) : α :=
  match x with
  | .ok b => b
  | .error _ => a

/-! ### Accesses that stay inside -/

theorem readAt_of_lt {xs : List α} {i : ℕ} (h : i < xs.length) : readAt xs i = .ok xs[i] := by
  rw [readAt, List.getElem?_eq_getElem h]

theorem readAt_of_getElem? {xs : List α} {i : ℕ} {x : α} (h : xs[i]? = some x) :
    readAt xs i = .ok x := by
  rw [readAt, h]

theorem readAt_append (xs : List α) (x : α) (ys : List α) {i : ℕ} (h : i = xs.length) :
    readAt (xs ++ x :: ys) i = .ok x := by
  rw [h]
  exact readAt_of_getElem? (by simp)

theorem readWord_append (xs : Bytes) (w : UInt16) (ys : Bytes) {i : ℕ} (h : i = xs.length) :
    readWord (xs ++ (Bytes.encode16 w ++ ys)) i = .ok w := by
  have hlo : xs ++ (Bytes.encode16 w ++ ys) = (xs ++ [(w >>> 8).toUInt8]) ++ w.toUInt8 :: ys := by
    simp [Bytes.encode16]
  have hhi : readAt (xs ++ (Bytes.encode16 w ++ ys)) i = .ok (w >>> 8).toUInt8 :=
    readAt_append _ _ _ h
  unfold readWord
  rw [hhi, hlo, readAt_append _ _ _ (by simp [h])]
  exact congrArg Except.ok (Bytes.be16_encode16 w)

/-- The length prefix of a framed string. -/
theorem readAt_frame8 {xs : Bytes} (b ys : Bytes) {i : ℕ} (h : i = xs.length) :
    readAt (xs ++ (Bytes.frame8 b ++ ys)) i = .ok b.length.toUInt8 :=
  readAt_append _ _ _ h

theorem readWord_frame16 {xs : Bytes} (b ys : Bytes) {i : ℕ} (h : i = xs.length) :
    readWord (xs ++ (Bytes.frame16 b ++ ys)) i = .ok b.length.toUInt16 := by
  rw [Bytes.frame16, List.append_assoc]
  exact readWord_append _ _ _ h

theorem readWord_of_lt {data : Bytes} {i : ℕ} (h : i + 1 < data.length) :
    readWord data i = .ok (Bytes.be16 data[i] data[i + 1]) := by
  unfold readWord
  rw [readAt_of_lt (show i < data.length by omega), readAt_of_lt h]
  rfl

theorem rangeAt_append (xs : List α) (ys zs : List α) {a b : ℕ} (ha : a = xs.length)
    (hb : b = xs.length + ys.length) : rangeAt (xs ++ (ys ++ zs)) a b = .ok ys := by
  rw [rangeAt, if_pos ⟨by omega, by simp [hb]⟩, ha, hb, List.drop_left]
  simp

theorem rangeAt_of_le {xs : List α} {a b : ℕ} (hab : a ≤ b) (hb : b ≤ xs.length) :
    rangeAt xs a b = .ok ((xs.drop a).take (b - a)) := by
  rw [rangeAt, if_pos ⟨hab, hb⟩]

theorem substr_of_le {xs : List α} {pos : ℕ} (n : ℕ) (h : pos ≤ xs.length) :
    substr xs pos n = .ok ((xs.drop pos).take n) := by
  rw [substr, if_pos h]

theorem substrFrom_of_le {xs : List α} {pos : ℕ} (h : pos ≤ xs.length) :
    substrFrom xs pos = .ok (xs.drop pos) := by
  rw [substrFrom, if_pos h]

/-! ### Computations without a faulty access -/

@[simp] theorem defined_ok (a : α) : Defined (Except.ok a : Checked α) := ⟨a, rfl⟩

@[simp] theorem defined_pure (a : α) : Defined (pure a : Checked α) := ⟨a, rfl⟩

@[simp] theorem not_defined_error (e : Fault) : ¬ Defined (Except.error e : Checked α) :=
  fun ⟨_, h⟩ => nomatch h

@[simp] theorem bind_ok (a : α) (f : α → Checked β) : (Except.ok a >>= f) = f a := rfl

@[simp] theorem bind_error (e : Fault) (f : α → Checked β) :
    ((Except.error e : Checked α) >>= f) = .error e := rfl

/-- A sequence of two steps yields something exactly when the first one does and the second one, run
on its result, does. -/
theorem bind_eq_ok {ε α β : Type} {x : Except ε α} {f : α → Except ε β} {b : β} :
    x >>= f = .ok b ↔ ∃ a, x = .ok a ∧ f a = .ok b := by
  cases x with
  | error e => exact ⟨nofun, fun ⟨_, h, _⟩ => nomatch h⟩
  | ok a => exact ⟨fun h => ⟨a, rfl, h⟩, fun ⟨_, h, hf⟩ => Except.ok.inj h ▸ hf⟩

/-- A sequence of two steps makes no faulty access exactly when the first one makes none and the
second one, run on its result, makes none. -/
theorem defined_bind {x : Checked α} {f : α → Checked β} :
    Defined (x >>= f) ↔ ∃ a, x = .ok a ∧ Defined (f a) := by
  cases x with
  | ok a => simp
  | error e => simp

theorem not_defined_of_bind {x : Checked α} {f : α → Checked β} (h : ¬ Defined x) :
    ¬ Defined (x >>= f) := by
  intro hdef
  obtain ⟨a, ha, _⟩ := defined_bind.mp hdef
  exact h ⟨a, ha⟩

theorem defined_readAt {xs : List α} {i : ℕ} : Defined (readAt xs i) ↔ i < xs.length := by
  rcases Nat.lt_or_ge i xs.length with h | h
  · simp [readAt_of_lt h, h]
  · rw [readAt, List.getElem?_eq_none h]
    simp [h]

theorem defined_readWord {data : Bytes} {i : ℕ} :
    Defined (readWord data i) ↔ i + 1 < data.length := by
  unfold readWord
  rw [defined_bind]
  constructor
  · rintro ⟨_, _, hlo⟩
    obtain ⟨_, hlo, _⟩ := defined_bind.mp hlo
    exact defined_readAt.mp ⟨_, hlo⟩
  · intro h
    exact ⟨_, readAt_of_lt (by omega), defined_bind.mpr ⟨_, readAt_of_lt h, by simp⟩⟩

theorem defined_rangeAt {xs : List α} {a b : ℕ} :
    Defined (rangeAt xs a b) ↔ a ≤ b ∧ b ≤ xs.length := by
  rw [rangeAt]
  split_ifs with h
  · simp [h]
  · simp [h]

/-! ### Computations that do at least as much -/

/-- Wherever `x` makes no faulty access, `y` yields the same. -/
def Approx (x y : Checked α) : Prop := ∀ a, x = .ok a → y = .ok a

theorem Approx.refl (x : Checked α) : Approx x x := fun _ h => h

theorem Approx.bind {x y : Checked α} {f g : α → Checked β} (hxy : Approx x y)
    (hfg : ∀ a, Approx (f a) (g a)) : Approx (x >>= f) (y >>= g) := by
  intro b hb
  cases x with
  | ok a =>
    rw [hxy a rfl]
    exact hfg a b hb
  | error fault => cases hb

/-- Elements behind the sequence do not matter to an access that stays inside. -/
theorem approx_readAt (xs ys : List α) (i : ℕ) : Approx (readAt xs i) (readAt (xs ++ ys) i) := by
  intro a ha
  have hi : i < xs.length := defined_readAt.mp ⟨a, ha⟩
  rw [← ha, readAt_of_lt hi]
  exact readAt_of_getElem? (by rw [List.getElem?_append_left hi, List.getElem?_eq_getElem hi])

theorem approx_readWord (xs ys : Bytes) (i : ℕ) :
    Approx (readWord xs i) (readWord (xs ++ ys) i) :=
  (approx_readAt xs ys i).bind fun _ => (approx_readAt xs ys (i + 1)).bind fun _ => .refl _

theorem approx_rangeAt (xs ys : List α) (a b : ℕ) :
    Approx (rangeAt xs a b) (rangeAt (xs ++ ys) a b) := by
  intro c hc
  have hrange := defined_rangeAt.mp ⟨c, hc⟩
  rw [rangeAt_of_le hrange.1 hrange.2] at hc
  rw [rangeAt_of_le hrange.1 (by rw [List.length_append]; omega), ← hc,
    List.drop_append_of_le_length (by omega), List.take_append_of_le_length]
  rw [List.length_drop]
  omega

end Checked
