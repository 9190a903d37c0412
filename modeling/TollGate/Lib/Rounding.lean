import Mathlib

/-!
# Rounding the parts of an amount

An amount is divided into parts, and each part is rounded on its own, half away from zero as
`round` of `math.h` does it. The rounded parts need not sum to what the parts do:
`Rounding.sum_roundAway_le_iff` says when they stay within the amount, in terms of what rounding up
adds (`roundedUp`) and what rounding down drops (`roundedDown`).
-/

namespace Rounding

variable {α : Type*} [Field α] [LinearOrder α] [IsStrictOrderedRing α] [FloorRing α]

/-- `round` of `math.h`, for an exact number. -/
def roundAway (x : α) : ℤ := if 0 ≤ x then ⌊x + 1 / 2⌋ else -⌊-x + 1 / 2⌋

/-- What is added to the parts that are rounded up. -/
def roundedUp (parts : List α) : α :=
  ((parts.filter fun x => 1 ≤ 2 * Int.fract x).map fun x => 1 - Int.fract x).sum

/-- What is dropped of the parts that are rounded down. -/
def roundedDown (parts : List α) : α :=
  ((parts.filter fun x => 2 * Int.fract x < 1).map Int.fract).sum

theorem roundAway_of_nonneg {x : α} (hx : 0 ≤ x) : roundAway x = round x := by
  rw [roundAway, if_pos hx, round_eq]

theorem roundAway_nonneg {x : α} (hx : 0 ≤ x) : 0 ≤ roundAway x := by
  rw [roundAway, if_pos hx]
  exact Int.floor_nonneg.mpr (by positivity)

/-- Rounding a part of a whole number gives no more than that number. -/
theorem roundAway_le {x : α} (hx : 0 ≤ x) {n : ℤ} (h : x ≤ n) : roundAway x ≤ n := by
  rw [roundAway, if_pos hx, ← Int.lt_add_one_iff, Int.floor_lt]
  push_cast
  linarith

/-- A number below one half is rounded to zero, and no other. -/
theorem roundAway_eq_zero_iff {x : α} (hx : 0 ≤ x) : roundAway x = 0 ↔ 2 * x < 1 := by
  rw [roundAway, if_pos hx, Int.floor_eq_zero_iff, Set.mem_Ico]
  refine ⟨fun h => by linarith [h.2], fun h => ⟨by positivity, by linarith⟩⟩

/-- One part: the fraction is dropped, or made full. -/
theorem cast_roundAway {x : α} (hx : 0 ≤ x) :
    (roundAway x : α) = if 2 * Int.fract x < 1 then x - Int.fract x else x + (1 - Int.fract x) := by
  have hfloor := Int.self_sub_fract x
  rw [roundAway_of_nonneg hx, round]
  split
  · exact hfloor.symm
  next hup =>
    -- the ceiling is the next whole number, as the fraction is not zero
    have hne : Int.fract x ≠ 0 := by
      intro h
      rw [h, mul_zero] at hup
      exact hup one_pos
    rw [Int.ceil_eq_add_one_sub_fract hne]
    ring

/-- The rounded parts sum to what the parts do, up to what rounding adds and drops. -/
theorem sum_cast_roundAway {parts : List α} (h : ∀ x ∈ parts, 0 ≤ x) :
    (((parts.map roundAway).sum : ℤ) : α) = parts.sum + roundedUp parts - roundedDown parts := by
  unfold roundedUp roundedDown
  induction parts with
  | nil => simp
  | cons x parts ih =>
    have hhead := cast_roundAway (h x List.mem_cons_self)
    have hrest := ih fun y hy => h y (List.mem_cons_of_mem x hy)
    rw [List.map_cons, List.sum_cons, List.sum_cons, Int.cast_add, hhead, hrest]
    by_cases hdown : 2 * Int.fract x < 1
    · -- the part is rounded down and its fraction is dropped
      rw [if_pos hdown, List.filter_cons_of_neg (by simpa using hdown),
        List.filter_cons_of_pos (by simpa using hdown), List.map_cons, List.sum_cons]
      ring
    · -- the part is rounded up and its fraction is filled
      rw [if_neg hdown, List.filter_cons_of_pos (by simpa using hdown),
        List.filter_cons_of_neg (by simpa using hdown), List.map_cons, List.sum_cons]
      ring

/-- The rounded parts stay within an amount exactly if what rounding up adds is covered by what
rounding down drops and by what is left over of the amount. -/
theorem sum_roundAway_le_iff {parts : List α} (h : ∀ x ∈ parts, 0 ≤ x) (n : ℤ) :
    (parts.map roundAway).sum ≤ n ↔
      roundedUp parts ≤ roundedDown parts + (n - parts.sum) := by
  rw [← Int.cast_le (R := α), sum_cast_roundAway h]
  refine ⟨fun h => by linarith, fun h => by linarith⟩

end Rounding
