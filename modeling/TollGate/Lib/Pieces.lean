import Mathlib

/-!
# The pieces of a concatenation

A byte stream that is cut into pieces has each of them at a place, the number of bytes before
it. Two ways to cut one stream are compared by the places of their pieces.
-/

namespace Pieces

variable {α β : Type*} (bytes : α → List β)

/-- The pieces with their places, the first at `start`. -/
def placed : ℕ → List α → List (ℕ × α)
  | _, [] => []
  | start, x :: xs => (start, x) :: placed (start + (bytes x).length) xs

@[simp] theorem placed_nil (start : ℕ) : placed bytes start [] = [] := rfl

@[simp] theorem placed_cons (start : ℕ) (x : α) (xs : List α) :
    placed bytes start (x :: xs) = (start, x) :: placed bytes (start + (bytes x).length) xs := rfl

theorem map_snd_placed (start : ℕ) (xs : List α) : (placed bytes start xs).map Prod.snd = xs := by
  induction xs generalizing start with
  | nil => rfl
  | cons x xs ih => rw [placed_cons, List.map_cons, ih]

/-- What is taken of the pieces does not depend on where they are. -/
theorem map_snd_filterMap_placed {γ : Type*} (g : α → Option γ) (start : ℕ) (xs : List α) :
    ((placed bytes start xs).filterMap fun p => (g p.2).map (p.1, ·)).map Prod.snd =
      xs.filterMap g := by
  have hdrop : (fun p : ℕ × α => ((g p.2).map (p.1, ·)).map Prod.snd) = fun p => g p.2 := by
    ext p : 1
    cases g p.2 <;> rfl
  calc ((placed bytes start xs).filterMap fun p => (g p.2).map (p.1, ·)).map Prod.snd
      = (placed bytes start xs).filterMap (g ∘ Prod.snd) := by rw [List.map_filterMap, hdrop]; rfl
    _ = ((placed bytes start xs).map Prod.snd).filterMap g := List.filterMap_map.symm
    _ = xs.filterMap g := by rw [map_snd_placed]

variable {bytes} {start : ℕ} {xs : List α}

theorem le_of_mem {p : ℕ × α} (h : p ∈ placed bytes start xs) : start ≤ p.1 := by
  induction xs generalizing start with
  | nil => cases h
  | cons x xs ih =>
    rcases List.mem_cons.mp h with rfl | h
    · exact le_rfl
    · exact (Nat.le_add_right _ _).trans (ih h)

/-- The stream goes on with a piece at its place. -/
theorem prefix_of_mem {p : ℕ × α} (h : p ∈ placed bytes start xs) :
    bytes p.2 <+: (xs.flatMap bytes).drop (p.1 - start) := by
  induction xs generalizing start with
  | nil => cases h
  | cons x xs ih =>
    rw [List.flatMap_cons]
    rcases List.mem_cons.mp h with rfl | h
    · rw [Nat.sub_self]
      exact List.prefix_append _ _
    · have hle := le_of_mem h
      have hplace : p.1 - start = (bytes x).length + (p.1 - (start + (bytes x).length)) := by omega
      rw [hplace, List.drop_length_add_append]
      exact ih h

/-- Of pieces that are not empty every one has a place of its own. -/
theorem pairwise_placed (hne : ∀ x ∈ xs, bytes x ≠ []) :
    (placed bytes start xs).Pairwise (fun p q => p.1 < q.1) := by
  induction xs generalizing start with
  | nil => exact List.Pairwise.nil
  | cons x xs ih =>
    refine List.pairwise_cons.mpr ⟨fun q hq => ?_, ih fun y hy => hne y (List.mem_cons_of_mem x hy)⟩
    have hpos := List.length_pos_of_ne_nil (hne x List.mem_cons_self)
    exact (Nat.lt_add_of_pos_right hpos).trans_le (le_of_mem hq)

/-- What is picked from the pieces keeps the order of the places. -/
theorem pairwise_filterMap {γ : Type*} (pick : α → Option γ) {ps : List (ℕ × α)}
    (h : ps.Pairwise (fun p q => p.1 < q.1)) :
    (ps.filterMap fun p => (pick p.2).map (p.1, ·)).Pairwise (fun p q => p.1 < q.1) := by
  refine h.filterMap _ fun p q hlt a ha b hb => ?_
  obtain ⟨x, -, rfl⟩ := Option.map_eq_some_iff.mp ha
  obtain ⟨y, -, rfl⟩ := Option.map_eq_some_iff.mp hb
  exact hlt

/-- Two lists in the order of their places are equal if they have the same elements. -/
theorem eq_of_mem_iff_of_places {ps qs : List (ℕ × α)} (hps : ps.Pairwise (fun p q => p.1 < q.1))
    (hqs : qs.Pairwise (fun p q => p.1 < q.1)) (h : ∀ p, p ∈ ps ↔ p ∈ qs) : ps = qs := by
  have : Std.Irrefl fun p q : ℕ × α => p.1 < q.1 := ⟨fun p => lt_irrefl p.1⟩
  have : Std.Antisymm fun p q : ℕ × α => p.1 < q.1 := ⟨fun p q hpq hqp => absurd hqp hpq.asymm⟩
  exact hps.eq_of_mem_iff hqs h

theorem mem_filterMap_iff {γ : Type*} {pick : α → Option γ} {ps : List (ℕ × α)} {i : ℕ} {c : γ} :
    (i, c) ∈ ps.filterMap (fun p => (pick p.2).map (p.1, ·)) ↔
      ∃ x, (i, x) ∈ ps ∧ pick x = some c := by
  rw [List.mem_filterMap]
  refine ⟨?_, fun ⟨x, hx, hpick⟩ => ⟨(i, x), hx, by rw [hpick]; rfl⟩⟩
  rintro ⟨⟨j, x⟩, hx, hmap⟩
  obtain ⟨d, hpick, heq⟩ := Option.map_eq_some_iff.mp hmap
  obtain ⟨rfl, rfl⟩ := Prod.mk.inj heq
  exact ⟨x, hx, hpick⟩

end Pieces
