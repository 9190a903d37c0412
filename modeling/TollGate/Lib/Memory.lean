import Mathlib

/-!
# Memory behind a pointer

What lies behind a pointer is read and written by its offset. `writeAt` writes values one after the
other from an offset on, as a loop does that counts the offset up, and `readAt` reads so many.

What was written is read back (`readAt_writeAt`), and everything in front of it and behind it stays
(`writeAt_of_lt`, `writeAt_of_le`).
-/

namespace Memory

variable {α : Type*}

/-- Write from an offset on. -/
def writeAt (m : ℕ → α) (j : ℕ) : List α → ℕ → α
  | [] => m
  | x :: xs => writeAt (Function.update m j x) (j + 1) xs

/-- The `n` values from an offset on. -/
def readAt (m : ℕ → α) (j : ℕ) : ℕ → List α
  | 0 => []
  | n + 1 => m j :: readAt m (j + 1) n

theorem writeAt_append (m : ℕ → α) (j : ℕ) (xs ys : List α) :
    writeAt m j (xs ++ ys) = writeAt (writeAt m j xs) (j + xs.length) ys := by
  induction xs generalizing m j with
  | nil => rfl
  | cons x xs ih =>
    rw [List.cons_append, writeAt, ih, writeAt, List.length_cons, Nat.add_right_comm, Nat.add_assoc]

/-- What lies in front stays. -/
theorem writeAt_of_lt (m : ℕ → α) {j k : ℕ} (h : k < j) (xs : List α) :
    writeAt m j xs k = m k := by
  induction xs generalizing m j with
  | nil => rfl
  | cons x xs ih =>
    rw [writeAt, ih _ (Nat.lt_succ_of_lt h), Function.update_of_ne h.ne]

/-- What lies behind stays. -/
theorem writeAt_of_le (m : ℕ → α) {j k : ℕ} {xs : List α} (h : j + xs.length ≤ k) :
    writeAt m j xs k = m k := by
  induction xs generalizing m j with
  | nil => rfl
  | cons x xs ih =>
    rw [List.length_cons] at h
    have hne : k ≠ j := by omega
    rw [writeAt, ih _ (by omega), Function.update_of_ne hne]

/-- The value that is written behind others. -/
theorem writeAt_append_cons (m : ℕ → α) (j : ℕ) (xs : List α) (y : α) (ys : List α) :
    writeAt m j (xs ++ y :: ys) (j + xs.length) = y := by
  rw [writeAt_append, writeAt, writeAt_of_lt _ (Nat.lt_succ_self _), Function.update_self]

theorem mem_readAt (m : ℕ → α) (j : ℕ) {k n : ℕ} (h : k < n) : m (j + k) ∈ readAt m j n := by
  induction n generalizing j k with
  | zero => exact absurd h (Nat.not_lt_zero k)
  | succ n ih =>
    rcases k with _ | k
    · exact List.mem_cons_self
    · refine List.mem_cons_of_mem _ ?_
      rw [Nat.add_comm k 1, ← Nat.add_assoc]
      exact ih (j + 1) (Nat.lt_of_succ_lt_succ h)

/-- **What was written is read back**, whatever was written behind it. -/
theorem readAt_writeAt (m : ℕ → α) (j : ℕ) (xs ys : List α) :
    readAt (writeAt m j (xs ++ ys)) j xs.length = xs := by
  induction xs generalizing m j with
  | nil => rfl
  | cons x xs ih =>
    rw [List.length_cons, readAt, List.cons_append, writeAt, ih,
      writeAt_of_lt _ (Nat.lt_succ_self j), Function.update_self]

end Memory
