import Mathlib

/-!
# The sort of the C library

`qsort` takes a comparison of two elements. If that orders the elements of the array
(`Qsort.ConsistentOn`) it leaves them sorted; in which order it leaves elements that compare as
equal is not said, and neither what it does for another comparison. A `Qsort` is a sort with this
promise, so that what is proved of every `Qsort` holds of the library's.
-/

/-- The comparison orders the elements of the list. -/
structure Qsort.ConsistentOn {α : Type*} (cmp : α → α → Int32) (l : List α) : Prop where
  antisymm : ∀ a ∈ l, ∀ b ∈ l, cmp a b < 0 ↔ 0 < cmp b a
  trans : ∀ a ∈ l, ∀ b ∈ l, ∀ c ∈ l, cmp a b ≤ 0 → cmp b c ≤ 0 → cmp a c ≤ 0

/-- A sort that does what `qsort` promises. -/
structure Qsort (α : Type*) where
  sort : (α → α → Int32) → List α → List α
  perm : ∀ {cmp : α → α → Int32} {l : List α}, Qsort.ConsistentOn cmp l → (sort cmp l).Perm l
  sorted : ∀ {cmp : α → α → Int32} {l : List α}, Qsort.ConsistentOn cmp l →
    (sort cmp l).Pairwise fun a b => cmp a b ≤ 0

namespace Qsort

variable {α : Type*} {cmp : α → α → Int32} {l : List α}

theorem ConsistentOn.total (h : ConsistentOn cmp l) {a b : α} (ha : a ∈ l) (hb : b ∈ l) :
    cmp a b ≤ 0 ∨ cmp b a ≤ 0 := by
  by_cases hle : cmp a b ≤ 0
  · exact .inl hle
  · exact .inr (Int32.le_of_lt ((h.antisymm b hb a ha).mpr (Int32.not_le.mp hle)))

theorem ConsistentOn.refl (h : ConsistentOn cmp l) {a : α} (ha : a ∈ l) : cmp a a ≤ 0 :=
  (h.total ha ha).elim id id

/-- The first element is a smallest one. -/
theorem cmp_head_le (q : Qsort α) (h : ConsistentOn cmp l) {a : α} {rest : List α}
    (hsort : q.sort cmp l = a :: rest) {b : α} (hb : b ∈ l) : cmp a b ≤ 0 := by
  have hperm := q.perm h
  have hsorted := q.sorted h
  rw [hsort] at hperm hsorted
  rcases List.mem_cons.mp (hperm.mem_iff.mpr hb) with rfl | hb
  · exact h.refl (hperm.mem_iff.mp List.mem_cons_self)
  · exact List.rel_of_pairwise_cons hsorted hb

/-- The second element is a smallest one of those behind the first. -/
theorem cmp_second_le (q : Qsort α) (h : ConsistentOn cmp l) {a b : α} {rest : List α}
    (hsort : q.sort cmp l = a :: b :: rest) {c : α} (hc : c ∈ l) (hne : c ≠ a) : cmp b c ≤ 0 := by
  have hperm := q.perm h
  have hsorted := q.sorted h
  rw [hsort] at hperm hsorted
  rcases List.mem_cons.mp (List.mem_of_ne_of_mem hne (hperm.mem_iff.mpr hc)) with rfl | hc
  · exact h.refl (hperm.mem_iff.mp (List.mem_cons_of_mem a List.mem_cons_self))
  · exact List.rel_of_pairwise_cons (List.Pairwise.of_cons hsorted) hc

/-- Insertion sort keeps the promise. -/
def insertion (α : Type*) : Qsort α where
  sort cmp l := (l.attach.insertionSort fun a b => cmp a.1 b.1 ≤ 0).map Subtype.val
  perm {cmp l} _ := by
    have hperm := List.perm_insertionSort (fun a b : { x // x ∈ l } => cmp a.1 b.1 ≤ 0) l.attach
    exact (hperm.map Subtype.val).trans (List.Perm.of_eq (List.attach_map_subtype_val l))
  sorted {cmp l} h := by
    let le : { x // x ∈ l } → { x // x ∈ l } → Prop := fun a b => cmp a.1 b.1 ≤ 0
    -- on the elements of the list the comparison is a total preorder
    have : Std.Total le := ⟨fun a b => h.total a.2 b.2⟩
    have : IsTrans { x // x ∈ l } le := ⟨fun a b c => h.trans a.1 a.2 b.1 b.2 c.1 c.2⟩
    exact List.pairwise_map.mpr (List.pairwise_insertionSort le l.attach)

end Qsort
