import Mathlib

/-!
# Scans for the smallest element

A loop that looks for the element with the smallest key keeps the best one so far and replaces it
by one that is strictly smaller, so of several it ends with the first. `List.argmin` says the
same of a list, and the loops are equal to it:

* `Scan.argmin_cons`: a scan that starts with the first element;
* `Scan.argmin_le_of_sorted`: of several the one that stands first;
* `Scan.scan_eq_argmin`: a scan that starts with no element and a bound in place of its key, and
  passes over the elements that fail a test.
-/

namespace Scan

variable {α β : Type*} [LinearOrder β] (key : α → β)

/-- The better of the best so far and the next element. -/
def better (best a : α) : α := if key a < key best then a else best

theorem argmin_cons (a : α) (l : List α) :
    (a :: l).argmin key = some (l.foldl (better key) a) := by
  -- the best so far is that of the list up to here
  induction l using List.reverseRecOn with
  | nil => rfl
  | append_singleton l b ih =>
    rw [← List.cons_append, List.argmin_concat, ih, List.foldl_concat]
    exact (apply_ite some _ _ _).symm

theorem foldl_better_le {a b : α} {l : List α} (h : b ∈ a :: l) :
    key (l.foldl (better key) a) ≤ key b :=
  List.le_of_mem_argmin h (argmin_cons key a l)

variable {key} in
/-- In a sorted list the first of the smallest is the smallest of them. -/
theorem argmin_le_of_sorted [LinearOrder α] {l : List α} (hl : l.Pairwise (· < ·)) {m a : α}
    (hm : m ∈ l.argmin key) (ha : a ∈ l) (hle : key a ≤ key m) : m ≤ a := by
  by_contra hlt
  have hmem : m ∈ l := List.argmin_mem hm
  have hidx : l.idxOf m ≤ l.idxOf a := List.index_of_argmin hm ha hle
  rcases hidx.lt_or_eq with hidx | hidx
  · have horder := List.pairwise_iff_getElem.mp hl _ _ (List.idxOf_lt_length_of_mem hmem)
      (List.idxOf_lt_length_of_mem ha) hidx
    rw [List.getElem_idxOf, List.getElem_idxOf] at horder
    exact hlt horder.le
  · exact hlt ((List.idxOf_inj hmem).mp hidx).le

variable (test : α → Bool)

/-- One turn of a scan: the best element so far, and its key. -/
def turn (best : Option α × β) (a : α) : Option α × β :=
  if test a ∧ key a < best.2 then (some a, key a) else best

/-- The key that goes with a best element. -/
def bestKey (bound : β) (best : Option α) : β := (best.map key).getD bound

theorem turn_of_fail {a : α} (htest : ¬test a = true) (best : Option α × β) :
    turn key test best a = best :=
  if_neg fun h => htest h.1

theorem turn_of_pass {bound : β} {a : α} (htest : test a = true) (hbound : key a < bound)
    (l : List α) :
    turn key test (l.argmin key, bestKey key bound (l.argmin key)) a =
      ((l ++ [a]).argmin key, bestKey key bound ((l ++ [a]).argmin key)) := by
  unfold turn
  rw [List.argmin_concat]
  simp only [htest, true_and]
  cases l.argmin key with
  | none => exact if_pos hbound
  | some c =>
    show (if key a < key c then _ else _) = _
    by_cases hlt : key a < key c
    · simp only [if_pos hlt]
      rfl
    · simp only [if_neg hlt]

/-- A scan from a bound that no key reaches finds the smallest of the elements that pass. -/
theorem scan_eq_argmin {bound : β} {l : List α}
    (hbound : ∀ a ∈ l, test a = true → key a < bound) :
    (l.foldl (turn key test) (none, bound)).1 = (l.filter test).argmin key := by
  have hscan : l.foldl (turn key test) (none, bound) =
      ((l.filter test).argmin key, bestKey key bound ((l.filter test).argmin key)) := by
    induction l using List.reverseRecOn with
    | nil => rfl
    | append_singleton l a ih =>
      rw [List.foldl_concat, ih fun b hb => hbound b (List.mem_append_left _ hb),
        List.filter_append]
      by_cases htest : test a = true
      · have ha : key a < bound := hbound a (List.mem_append_right l List.mem_cons_self) htest
        rw [turn_of_pass key test htest ha, List.filter_cons_of_pos htest, List.filter_nil]
      · -- an element that is passed over changes nothing
        rw [turn_of_fail key test htest, List.filter_cons_of_neg htest, List.filter_nil,
          List.append_nil]
  rw [hscan]

end Scan
