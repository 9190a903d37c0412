import Mathlib

/-!
# C strings and integers

A C string is read as the list of its bytes before the terminator. Buffers of a
fixed size only matter through the strings they can hold: `strncpy` into a field
of `size` bytes whose last byte is zero keeps the first `size - 1` bytes.

`uint64_t` and `int64_t` are `UInt64` and `Int64`, the cast between them is
`UInt64.toInt64`. `UInt64.toInt_toInt64` reads a cast value as an integer, and
`UInt64.toInt_toInt64_add` says when an unsigned sum is still the sum after it.
-/

/-- The bytes of a C string before its terminator. -/
abbrev CStr := List UInt8

/-- A string literal as a C string. -/
def cstr (s : String) : CStr := s.toUTF8.data.toList

/-- `strncpy(field, src, sizeof(field) - 1)` into a field of `size` bytes whose
last byte is zero, as a C string. -/
def CStr.strncpy (size : ℕ) (src : CStr) : CStr := src.take (size - 1)

theorem CStr.strncpy_of_length_lt {size : ℕ} {src : CStr} (h : src.length < size) :
    CStr.strncpy size src = src :=
  List.take_of_length_le (by omega)

/-- The cut makes no shorter string out of another one. -/
theorem CStr.strncpy_eq_iff {size : ℕ} {src s : CStr} (h : s.length + 1 < size) :
    CStr.strncpy size src = s ↔ src = s := by
  refine ⟨?_, ?_⟩
  · -- fewer bytes than the field holds, so nothing was cut
    rintro rfl
    unfold CStr.strncpy at h
    rw [List.length_take] at h
    exact (CStr.strncpy_of_length_lt (by omega)).symm
  · rintro rfl
    exact CStr.strncpy_of_length_lt (by omega)

/-- What ends a run of C code that no rule covers. -/
inductive Fault where
  | nullPointer
deriving DecidableEq

namespace UInt64

theorem toInt64_injective {a b : UInt64} (h : a.toInt64 = b.toInt64) : a = b := by
  have h' := congrArg Int64.toUInt64 h
  simpa using h'

theorem toInt_toInt64 (x : UInt64) :
    x.toInt64.toInt = if x.toNat < 2 ^ 63 then (x.toNat : ℤ) else x.toNat - 2 ^ 64 := by
  change x.toBitVec.toInt = _
  have hhalf : 2 * x.toNat < 2 ^ 64 ↔ x.toNat < 2 ^ 63 := by omega
  rw [BitVec.toInt_eq_toNat_cond, UInt64.toNat_toBitVec]
  simp only [hhalf]
  rfl

/-- An unsigned sum, read as signed, is the sum exactly when it stays below the
signed maximum. -/
theorem toInt_toInt64_add (x a : UInt64) :
    (x + a).toInt64.toInt = x.toInt64.toInt + a.toNat ↔ x.toInt64.toInt + a.toNat < 2 ^ 63 := by
  have hx := x.toNat_lt
  have ha := a.toNat_lt
  rw [toInt_toInt64, toInt_toInt64, UInt64.toNat_add]
  split <;> split <;> omega

theorem toInt_toInt64_eq_iff (a : UInt64) : a.toInt64.toInt = a.toNat ↔ a.toNat < 2 ^ 63 := by
  rw [toInt_toInt64]
  split <;> omega

end UInt64
