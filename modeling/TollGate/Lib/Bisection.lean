import Mathlib

/-!
# Bisection of two ranges in turn

A point of the plane is located by cutting one range and then the other. Each cut gives a bit, which
says whether the coordinate lies in the upper part. `bisect` gives the bits of a point, and `narrow`
the two ranges that bits lead to.

The ranges of a point contain it, wherever they are cut (`contains_narrow`). Cut in the middle, they
are as wide as the number of bits says (`width_narrow`), so that points with the same bits are near
to each other.
-/

namespace Bisection

/-- A closed range, by its ends. -/
structure Range (K : Type*) where
  lo : K
  hi : K

variable {K : Type*} (cut : K → K → K)

/-- One of the parts of a range. -/
def Range.part (I : Range K) (upper : Bool) : Range K :=
  if upper then { I with lo := cut I.lo I.hi } else { I with hi := cut I.lo I.hi }

/-- The parts that the bits choose, of the first range and of the second one in turn. -/
def narrow : Range K → Range K → List Bool → Range K × Range K
  | I, J, [] => (I, J)
  | I, J, b :: bits => (narrow J (I.part cut b) bits).swap

/-- One bit more cuts the range whose turn it is. -/
theorem narrow_concat (I J : Range K) (bits : List Bool) (b : Bool) :
    narrow cut I J (bits ++ [b]) =
      if bits.length % 2 = 0 then
        ((narrow cut I J bits).1.part cut b, (narrow cut I J bits).2)
      else ((narrow cut I J bits).1, (narrow cut I J bits).2.part cut b) := by
  induction bits generalizing I J with
  | nil => rfl
  | cons c bits ih =>
    rw [List.cons_append, narrow, narrow, ih, List.length_cons]
    -- behind the first bit the ranges have changed places
    by_cases heven : bits.length % 2 = 0
    · rw [if_pos heven, if_neg (by omega)]
      rfl
    · rw [if_neg heven, if_pos (by omega)]
      rfl

section Width

variable {cut} [Field K]

def Range.width (I : Range K) : K := I.hi - I.lo

theorem Range.width_part [CharZero K] (hcut : ∀ a b, cut a b = (a + b) / 2) (I : Range K)
    (upper : Bool) : (I.part cut upper).width = I.width / 2 := by
  unfold width part
  rw [hcut]
  cases upper with
  | true =>
    show I.hi - (I.lo + I.hi) / 2 = _
    ring
  | false =>
    show (I.lo + I.hi) / 2 - I.lo = _
    ring

/-- **How wide the ranges are** that bits lead to. -/
theorem width_narrow [CharZero K] (hcut : ∀ a b, cut a b = (a + b) / 2) (I J : Range K)
    (bits : List Bool) :
    (narrow cut I J bits).1.width = I.width / 2 ^ ((bits.length + 1) / 2) ∧
      (narrow cut I J bits).2.width = J.width / 2 ^ (bits.length / 2) := by
  induction bits generalizing I J with
  | nil => exact ⟨by simp [narrow], by simp [narrow]⟩
  | cons b bits ih =>
    -- for the rest of the bits the second range comes first
    obtain ⟨hfirst, hsecond⟩ := ih J (I.part cut b)
    rw [I.width_part hcut] at hsecond
    have hlength : ((b :: bits).length + 1) / 2 = bits.length / 2 + 1 := by
      rw [List.length_cons]
      omega
    rw [hlength, pow_succ', ← div_div]
    exact ⟨hsecond, hfirst⟩

end Width

variable [LinearOrder K]

namespace Range

variable {I : Range K} {x y : K}

/-- The point lies between the ends. -/
def Contains (I : Range K) (x : K) : Prop := I.lo ≤ x ∧ x ≤ I.hi

/-- Whether a point lies in the upper part, to which the cut belongs. -/
def side (I : Range K) (x : K) : Bool := decide (cut I.lo I.hi ≤ x)

/-- The part on the side of a point contains it. -/
theorem Contains.part (h : I.Contains x) : (I.part cut (I.side cut x)).Contains x := by
  obtain ⟨hlo, hhi⟩ := h
  unfold side Range.part
  by_cases hcut : cut I.lo I.hi ≤ x
  · rw [decide_eq_true hcut, if_pos rfl]
    exact ⟨hcut, hhi⟩
  · rw [decide_eq_false hcut, if_neg Bool.false_ne_true]
    exact ⟨hlo, (not_le.mp hcut).le⟩

/-- Two points of a range are not farther apart than its ends. -/
theorem Contains.abs_sub_le [Field K] [IsStrictOrderedRing K] (hx : I.Contains x)
    (hy : I.Contains y) : |x - y| ≤ I.width :=
  abs_sub_le_of_le_of_le hx.1 hx.2 hy.1 hy.2

end Range

/-- The first bits of a point. -/
def bisect : Range K → Range K → K → K → ℕ → List Bool
  | _, _, _, _, 0 => []
  | I, J, x, y, n + 1 => I.side cut x :: bisect J (I.part cut (I.side cut x)) y x n

@[simp] theorem length_bisect (I J : Range K) (x y : K) (n : ℕ) :
    (bisect cut I J x y n).length = n := by
  induction n generalizing I J x y with
  | zero => rfl
  | succ n ih => rw [bisect, List.length_cons, ih]

/-- Fewer bits are the first ones of more. -/
theorem take_bisect (I J : Range K) (x y : K) {p q : ℕ} (h : p ≤ q) :
    (bisect cut I J x y q).take p = bisect cut I J x y p := by
  induction p generalizing I J x y q with
  | zero => exact List.take_zero
  | succ p ih =>
    obtain ⟨q, rfl⟩ := Nat.exists_eq_add_of_le' (Nat.zero_lt_of_lt h)
    rw [bisect, bisect, List.take_succ_cons, ih _ _ _ _ (Nat.le_of_succ_le_succ h)]

/-- The last bit is the side on which the point lies in the range whose turn it is. -/
theorem bisect_concat (I J : Range K) (x y : K) (n : ℕ) :
    bisect cut I J x y (n + 1) = bisect cut I J x y n ++
      [if n % 2 = 0 then (narrow cut I J (bisect cut I J x y n)).1.side cut x
        else (narrow cut I J (bisect cut I J x y n)).2.side cut y] := by
  induction n generalizing I J x y with
  | zero => rfl
  | succ n ih =>
    rw [bisect, ih, bisect, List.cons_append, narrow]
    congr 3
    -- whose turn it is, seen from behind the first bit
    by_cases heven : n % 2 = 0
    · rw [if_pos heven, if_neg (by omega)]
      rfl
    · rw [if_neg heven, if_pos (by omega)]
      rfl

variable {I J : Range K} {x y : K}

/-- **The bits of a point lead to it.** -/
theorem contains_narrow (hx : I.Contains x) (hy : J.Contains y) (n : ℕ) :
    (narrow cut I J (bisect cut I J x y n)).1.Contains x ∧
      (narrow cut I J (bisect cut I J x y n)).2.Contains y := by
  induction n generalizing I J x y with
  | zero => exact ⟨hx, hy⟩
  | succ n ih =>
    obtain ⟨hsecond, hfirst⟩ := ih hy (hx.part cut)
    exact ⟨hfirst, hsecond⟩

end Bisection
