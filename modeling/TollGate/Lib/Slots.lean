import Mathlib

/-!
# Slot tables

A `Slots α n` is a fixed array of `n` slots, each free or holding an entry. An entry stays
in its slot from `put` to `clear`; new ones go to the first free slot. Programs keep a
counter of the used slots beside such a table: `used_put` and `used_clear` say how the
number that it should show moves. `countIf` counts the entries of one kind.
-/

/-- A fixed array of slots, each free or holding an entry. -/
abbrev Slots (α : Type*) (n : ℕ) := Fin n → Option α

namespace Slots

variable {α : Type*} {n : ℕ}

/-- The table with all slots free. -/
def empty : Slots α n := fun _ => none

/-- The number of slots that hold an entry. -/
def used (t : Slots α n) : ℕ := (Finset.univ.filter fun i => (t i).isSome).card

/-- The first free slot. -/
def firstFree (t : Slots α n) : Option (Fin n) := Fin.find? fun i => (t i).isNone

/-- The first slot whose entry passes the test. -/
def find (test : α → Bool) (t : Slots α n) : Option (Fin n) := Fin.find? fun i => (t i).any test

/-- Put an entry into a slot. -/
def put (t : Slots α n) (i : Fin n) (a : α) : Slots α n := Function.update t i (some a)

/-- Free a slot. -/
def clear (t : Slots α n) (i : Fin n) : Slots α n := Function.update t i none

variable {t : Slots α n} {i j : Fin n} {a b : α}

theorem firstFree_eq_some (h : t.firstFree = some i) : t i = none := by
  simpa using Fin.eq_true_of_find?_eq_some h

theorem firstFree_eq_none (h : t.firstFree = none) (i : Fin n) : t i ≠ none := by
  have hused := Fin.find?_eq_none_iff.mp h i
  rintro hfree
  rw [hfree] at hused
  exact Bool.false_ne_true hused.symm

theorem find_eq_some {test : α → Bool} (h : t.find test = some i) :
    ∃ a, t i = some a ∧ test a = true := by
  simpa [Option.any_eq_true] using Fin.eq_true_of_find?_eq_some h

theorem find_eq_none {test : α → Bool} (h : t.find test = none) (hi : t i = some a) :
    test a = false := by
  have hnone := Fin.find?_eq_none_iff.mp h i
  rwa [hi, Option.any_some] at hnone

/-! ### Entries under each operation -/

theorem put_eq_some : t.put i a j = some b ↔ (j = i ∧ a = b) ∨ (j ≠ i ∧ t j = some b) := by
  unfold put
  by_cases hji : j = i
  · subst hji
    simp
  · simp [hji]

theorem clear_eq_some : t.clear i j = some b ↔ j ≠ i ∧ t j = some b := by
  unfold clear
  by_cases hji : j = i
  · subst hji
    simp
  · simp [hji]

@[simp] theorem used_empty : (empty : Slots α n).used = 0 := by
  simp [used, empty]

theorem used_put (hfree : t i = none) : (t.put i a).used = t.used + 1 := by
  have hinsert : (Finset.univ.filter fun j => (t.put i a j).isSome)
      = insert i (Finset.univ.filter fun j => (t j).isSome) := by
    ext j
    rw [Finset.mem_insert, Finset.mem_filter, Finset.mem_filter]
    by_cases hji : j = i
    · subst hji
      simp [put]
    · simp [put, hji]
  unfold used
  rw [hinsert, Finset.card_insert_of_notMem (by simp [hfree])]

theorem used_clear (hused : t i = some a) : (t.clear i).used + 1 = t.used := by
  have hagain : (t.clear i).put i a = t := by
    funext j
    by_cases hji : j = i
    · subst hji
      simp [put, hused]
    · simp [put, clear, hji]
  have hfree : t.clear i i = none := Function.update_self _ _ _
  rw [← used_put (a := a) hfree, hagain]

/-! ### Counting entries -/

/-- The number of slots whose entry passes the test. -/
def countIf (test : α → Bool) (t : Slots α n) : ℕ :=
  (List.finRange n).countP fun i => (t i).any test

variable {test : α → Bool} {t' : Slots α n}

theorem countIf_eq_card : t.countIf test =
    (Finset.univ.filter fun i => (t i).any test = true).card := by
  unfold countIf
  rw [List.countP_eq_length_filter,
    ← List.toFinset_card_of_nodup ((List.nodup_finRange n).filter _)]
  congr 1
  ext i
  simp

theorem used_le : t.used ≤ n := by
  unfold used
  calc _ ≤ (Finset.univ : Finset (Fin n)).card := Finset.card_filter_le _ _
    _ = n := Finset.card_fin n

/-- Fewer entries count for less. -/
theorem countIf_le_of_subset (h : ∀ i a, t' i = some a → t i = some a) :
    t'.countIf test ≤ t.countIf test := by
  rw [countIf_eq_card, countIf_eq_card]
  refine Finset.card_le_card fun i hi => ?_
  obtain ⟨a, ha, hpass⟩ := (Option.any_eq_true _ _).mp (Finset.mem_filter.mp hi).2
  exact Finset.mem_filter.mpr ⟨Finset.mem_univ i, (Option.any_eq_true _ _).mpr ⟨a, h i a ha, hpass⟩⟩

/-- An entry that does not pass the test counts for nothing. -/
theorem countIf_put_of_not (htest : test a = false) :
    (t.put i a).countIf test ≤ t.countIf test := by
  rw [countIf_eq_card, countIf_eq_card]
  refine Finset.card_le_card fun j hj => ?_
  obtain ⟨b, hb, hpass⟩ := (Option.any_eq_true _ _).mp (Finset.mem_filter.mp hj).2
  refine Finset.mem_filter.mpr ⟨Finset.mem_univ j, (Option.any_eq_true _ _).mpr ⟨b, ?_, hpass⟩⟩
  obtain ⟨-, rfl⟩ | ⟨-, hold⟩ := put_eq_some.mp hb
  · rw [htest] at hpass
    exact absurd hpass Bool.false_ne_true
  · exact hold

/-- Another counts for one at most. -/
theorem countIf_put_le : (t.put i a).countIf test ≤ t.countIf test + 1 := by
  rw [countIf_eq_card, countIf_eq_card]
  refine (Finset.card_le_card fun j hj => ?_).trans (Finset.card_insert_le i _)
  obtain ⟨b, hb, hpass⟩ := (Option.any_eq_true _ _).mp (Finset.mem_filter.mp hj).2
  obtain ⟨rfl, -⟩ | ⟨-, hold⟩ := put_eq_some.mp hb
  · exact Finset.mem_insert_self j _
  · exact Finset.mem_insert_of_mem
      (Finset.mem_filter.mpr ⟨Finset.mem_univ j, (Option.any_eq_true _ _).mpr ⟨b, hold, hpass⟩⟩)

/-- An entry in place of one that the test does not tell from it changes no count. -/
theorem countIf_put_of_eq (hold : t i = some b) (htest : test a = test b) :
    (t.put i a).countIf test = t.countIf test := by
  have hsame : (fun j => (t.put i a j).any test) = fun j => (t j).any test := by
    funext j
    by_cases hji : j = i
    · subst hji
      simp [put, hold, htest]
    · simp [put, hji]
  unfold countIf
  rw [hsame]

theorem used_put_of_some (hold : t i = some b) : (t.put i a).used = t.used := by
  have hsame : (fun j => (t.put i a j).isSome) = fun j => (t j).isSome := by
    funext j
    by_cases hji : j = i
    · subst hji
      simp [put, hold]
    · simp [put, hji]
  unfold used
  simp only [congrFun hsame]

end Slots
