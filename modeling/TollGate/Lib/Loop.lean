import Mathlib

/-!
# Loops that may not end

A `while` loop is a function `body : σ → Option σ`: `none` when the loop condition
fails (or the body breaks), and otherwise the state after one turn.
`WhileLoop.turns body s k` is the state after `k` turns, `none` once the loop is over, so
the loop that starts in `s` ends exactly if some number of turns gives `none`
(`WhileLoop.Ends`).

The loop is deterministic, so a state that comes back comes back forever. When only
finitely many states are reached this is the one way not to end
(`WhileLoop.ends_iff_no_return`).
-/

namespace WhileLoop

variable {σ : Type*} {body : σ → Option σ} {s t : σ} {i j k : ℕ}

/-- The state after `k` turns of the loop. -/
def turns (body : σ → Option σ) (s : σ) : ℕ → Option σ
  | 0 => some s
  | k + 1 => (turns body s k).bind body

/-- The loop started in `s` is over after finitely many turns. -/
def Ends (body : σ → Option σ) (s : σ) : Prop := ∃ k, turns body s k = none

@[simp] theorem turns_zero : turns body s 0 = some s := rfl

theorem turns_succ_eq_some :
    turns body s (k + 1) = some t ↔ ∃ u, turns body s k = some u ∧ body u = some t :=
  Option.bind_eq_some_iff

theorem turns_add (h : turns body s i = some t) (j : ℕ) :
    turns body s (i + j) = turns body t j := by
  induction j with
  | zero => exact h
  | succ j ih => rw [← Nat.add_assoc, turns, ih, turns]

theorem turns_eq_none_of_le (h : turns body s i = none) (hij : i ≤ j) :
    turns body s j = none := by
  induction j, hij using Nat.le_induction with
  | base => exact h
  | succ j _ ih => rw [turns, ih, Option.bind_none]

/-- **Loop invariant rule.** What a turn keeps holds in every state the loop reaches. -/
theorem turns_induction {P : σ → Prop} (hbody : ∀ s t, P s → body s = some t → P t) (h : P s)
    (hk : turns body s k = some t) : P t := by
  induction k generalizing t with
  | zero => exact Option.some.inj hk ▸ h
  | succ k ih =>
    obtain ⟨u, hu, hut⟩ := turns_succ_eq_some.mp hk
    exact hbody u t (ih hu) hut

/-- A state that comes back comes back again after every round. -/
theorem turns_mul (h : turns body t j = some t) (m : ℕ) : turns body t (m * j) = some t := by
  induction m with
  | zero => rw [Nat.zero_mul, turns_zero]
  | succ m ih => rw [Nat.succ_mul, turns_add ih, h]

theorem not_ends_of_return (hj : 0 < j) (hk : turns body s k = some t)
    (h : turns body t j = some t) : ¬ Ends body s := by
  rintro ⟨n, hn⟩
  -- after `n` more rounds the loop stands in `t`, although it was over
  have hround : turns body s (k + n * j) = some t := by rw [turns_add hk, turns_mul h]
  have hle : n ≤ k + n * j := (Nat.le_mul_of_pos_right n hj).trans (Nat.le_add_left _ _)
  rw [turns_eq_none_of_le hn hle] at hround
  exact absurd hround nofun

/-- **When a loop over finitely many states ends.** -/
theorem ends_iff_no_return (hfin : {t | ∃ k, turns body s k = some t}.Finite) :
    Ends body s ↔ ∀ k t, turns body s k = some t → ∀ j, 0 < j → turns body t j ≠ some t := by
  refine ⟨fun hends k t hk j hj h => not_ends_of_return hj hk h hends, fun hno => ?_⟩
  by_contra hends
  have hsome : ∀ k, ∃ t, turns body s k = some t := fun k =>
    Option.ne_none_iff_exists'.mp fun hnone => hends ⟨k, hnone⟩
  choose f hf using hsome
  -- infinitely many turns, finitely many states: two turns reach the same one
  have hmaps : Set.MapsTo f Set.univ {t | ∃ k, turns body s k = some t} :=
    fun k _ => ⟨k, hf k⟩
  obtain ⟨i, -, j, -, hij, heq⟩ := Set.infinite_univ.exists_lt_map_eq_of_mapsTo hmaps hfin
  refine hno i (f i) (hf i) (j - i) (Nat.sub_pos_of_lt hij) ?_
  rw [← turns_add (hf i), Nat.add_sub_cancel' hij.le, hf j, heq]

end WhileLoop
