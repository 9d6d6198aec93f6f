import NetSentry.Lib.Checked
import NetSentry.Lib.Search

/-!
# Strings with positions of 64 bits

A `std::string` is shorter than `2 ^ 63` bytes, and its positions are of type `size_t`, the greatest
of which, `npos`, stands for none.

* `find_of_some`, `find_of_none`: what a search gives.
* `substr_of_le`: a substring that begins inside.
-/

open Search Checked

/-- A string that is not longer than `max_size()`. -/
abbrev StdString := { s : Bytes // s.length < 2 ^ 63 }

namespace StdString

/-- `std::string::npos`. -/
def npos : UInt64 := -1

/-- `s.length()`. -/
def length (s : StdString) : UInt64 := s.1.length.toUInt64

/-- `s.find(c, pos)`. -/
def find (s : StdString) (c : UInt8) (pos : UInt64) : UInt64 :=
  ((findFrom [c] s.1 pos.toNat).map Nat.toUInt64).getD npos

/-- `s.substr(pos, count)`, which throws where `pos` is past the end. -/
def substr (s : StdString) (pos count : UInt64) : Checked StdString :=
  if pos.toNat ≤ s.1.length then
    .ok ⟨(s.1.drop pos.toNat).take count.toNat, by
      have := s.2
      rw [List.length_take, List.length_drop]
      omega⟩
  else .error (.outOfRange pos.toNat s.1.length)

/-! ### Positions -/

theorem toNat_npos : npos.toNat = 2 ^ 64 - 1 := by decide

theorem toNat_toUInt64 {n : ℕ} (h : n < 2 ^ 64) : n.toUInt64.toNat = n := by
  rw [Nat.toUInt64, UInt64.toNat_ofNat']
  exact Nat.mod_eq_of_lt h

theorem toNat_length (s : StdString) : s.length.toNat = s.1.length :=
  toNat_toUInt64 (lt_of_lt_of_le s.2 (by decide))

/-- A position inside a string is not `npos`. -/
theorem ne_npos_of_le {s : StdString} {pos : UInt64} (h : pos.toNat ≤ s.1.length) : pos ≠ npos := by
  rintro rfl
  have := s.2
  rw [toNat_npos] at h
  omega

theorem toNat_add_one {s : StdString} {pos : UInt64} (h : pos.toNat ≤ s.1.length) :
    (pos + 1).toNat = pos.toNat + 1 := by
  have := s.2
  rw [UInt64.toNat_add, UInt64.toNat_one]
  omega

theorem toNat_sub {pos stop : UInt64} (h : pos.toNat ≤ stop.toNat) :
    (stop - pos).toNat = stop.toNat - pos.toNat :=
  UInt64.toNat_sub_of_le _ _ h

theorem substr_of_le {s : StdString} (pos count : UInt64) (h : pos.toNat ≤ s.1.length) :
    ∃ t : StdString, substr s pos count = .ok t ∧ t.1 = (s.1.drop pos.toNat).take count.toNat := by
  rw [substr, if_pos h]
  exact ⟨_, rfl, rfl⟩

theorem find_of_some {s : StdString} {c : UInt8} {pos : UInt64} {i : ℕ}
    (h : findFrom [c] s.1 pos.toNat = some i) :
    (s.find c pos).toNat = i ∧ i < s.1.length := by
  have hlen := (findFrom_some h).2
  rw [List.length_singleton] at hlen
  have hmax := s.2
  rw [find, h]
  exact ⟨toNat_toUInt64 (by omega), hlen⟩

theorem find_of_none {s : StdString} {c : UInt8} {pos : UInt64}
    (h : findFrom [c] s.1 pos.toNat = none) : s.find c pos = npos := by
  rw [find, h]
  rfl

end StdString
