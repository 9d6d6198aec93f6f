import Mathlib.Data.Nat.Digits.Defs
import Mathlib.Logic.Function.Basic

/-!
# Words in a memory of bytes

A word of `w` bytes is kept with its least significant byte first.

* `load_store_self`: what is stored is loaded.
* `load_store_of_disjoint`: a store changes nothing beside its own bytes.
* `load_congr`: a load depends on its own bytes alone.
-/

/-- A memory of bytes. -/
abbrev ByteMemory := ℕ → UInt8

namespace ByteMemory

/-- The word of `w` bytes at an address. -/
def load : ℕ → ByteMemory → ℕ → ℕ
  | 0, _, _ => 0
  | w + 1, m, a => (m a).toNat + 256 * load w m (a + 1)

/-- The memory with a word of `w` bytes at an address. -/
def store : ℕ → ByteMemory → ℕ → ℕ → ByteMemory
  | 0, m, _, _ => m
  | w + 1, m, a, v => store w (Function.update m a v.toUInt8) (a + 1) (v / 256)

variable {w a b : ℕ} {m m' : ByteMemory}

theorem load_congr (h : ∀ c, a ≤ c → c < a + w → m c = m' c) : load w m a = load w m' a := by
  induction w generalizing a with
  | zero => rfl
  | succ w ih =>
    rw [load, load, h a (Nat.le_refl a) (by omega)]
    rw [ih fun c hle hlt => h c (by omega) (by omega)]

theorem store_apply_of_disjoint (v : ℕ) (h : b < a ∨ a + w ≤ b) : store w m a v b = m b := by
  induction w generalizing m a v with
  | zero => rfl
  | succ w ih =>
    rw [store, ih (v / 256) (by omega), Function.update_of_ne (by omega)]

/-- **What is stored is loaded**, less the bytes that do not fit. -/
theorem load_store_self (w : ℕ) (m : ByteMemory) (a v : ℕ) :
    load w (store w m a v) a = v % 256 ^ w := by
  induction w generalizing m a v with
  | zero => rw [load, pow_zero, Nat.mod_one]
  | succ w ih =>
    have hbyte : (store w (Function.update m a v.toUInt8) (a + 1) (v / 256) a).toNat = v % 256 := by
      rw [store_apply_of_disjoint _ (.inl (Nat.lt_succ_self a)), Function.update_self]
      exact UInt8.toNat_ofNat'
    rw [load, store, ih, hbyte, pow_succ', Nat.mod_mul]

/-- **A store changes nothing beside its own bytes.** -/
theorem load_store_of_disjoint {k : ℕ} (v : ℕ) (h : a + w ≤ b ∨ b + k ≤ a) :
    load k (store w m a v) b = load k m b :=
  load_congr fun c hle hlt => store_apply_of_disjoint v (by omega)

end ByteMemory
