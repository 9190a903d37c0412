import Mathlib

/-!
# Reed–Solomon codes

A word is a list of coefficients, the highest power first. An encoder keeps the generator polynomial
without its leading coefficient (`monicTail`), divides the data by it one symbol at a time
(`remStep`), and appends the remainder: the codeword vanishes at the roots of the generator
(`value_codeword`).

Over a domain, a word that vanishes at `d` consecutive powers of an element of large order and has
at most `d` symbols that are not zero is zero (`eq_zero_of_weight_le`). So codewords that differ in
at most `d` places are equal (`eq_of_distance_le`), and what was read with few errors belongs to one
codeword only (`codeword_unique`).
-/

namespace ReedSolomon

section Division

variable {R : Type*} [CommRing R]

/-- The value of the polynomial with these coefficients, the leading one first, by Horner's rule. -/
def value (t : R) (cs : List R) : R := cs.foldl (fun acc c => acc * t + c) 0

@[simp] theorem value_nil (t : R) : value t [] = 0 := rfl

/-- The rule begun with some number counts it as a coefficient in front of the others. -/
theorem foldl_value (t : R) (acc : R) (cs : List R) :
    cs.foldl (fun acc c => acc * t + c) acc = acc * t ^ cs.length + value t cs := by
  induction cs generalizing acc with
  | nil => simp [value]
  | cons c cs ih =>
    have hacc := ih (acc * t + c)
    have hzero := ih (0 * t + c)
    rw [value, List.foldl_cons, List.foldl_cons, hacc, hzero, List.length_cons]
    ring

/-- The leading coefficient belongs to the highest power. -/
theorem value_cons (t c : R) (cs : List R) :
    value t (c :: cs) = c * t ^ cs.length + value t cs := by
  rw [value, List.foldl_cons, foldl_value, zero_mul, zero_add]

/-- Two lists one after the other: the first one is moved up by the length of the second. -/
theorem value_append (t : R) (as bs : List R) :
    value t (as ++ bs) = value t as * t ^ bs.length + value t bs := by
  rw [value, List.foldl_append, foldl_value]
  rfl

/-- Zeros have the value zero. -/
theorem value_replicate_zero (t : R) (n : ℕ) : value t (List.replicate n 0) = 0 := by
  induction n with
  | zero => rfl
  | succ n ih => rw [List.replicate_succ, value_cons, ih, zero_mul, zero_add]

/-- The opposite of each coefficient. -/
theorem value_map_neg (t : R) (cs : List R) : value t (cs.map Neg.neg) = -value t cs := by
  induction cs with
  | nil => simp
  | cons c cs ih =>
    rw [List.map_cons, value_cons, value_cons, ih, List.length_map]
    ring

/-- Two words of one length, entry by entry: a multiple of the one is taken off the other. -/
theorem value_zipWith_sub_mul (t k : R) {as cs : List R} (h : as.length = cs.length) :
    value t (List.zipWith (fun a c => a - k * c) as cs) = value t as - k * value t cs := by
  induction as generalizing cs with
  | nil =>
    obtain rfl := List.length_eq_zero_iff.mp h.symm
    simp
  | cons a as ih =>
    cases cs with
    | nil => simp at h
    | cons c cs =>
      have hlen : as.length = cs.length := by simpa using h
      rw [List.zipWith_cons_cons, value_cons, value_cons, value_cons, ih hlen,
        List.length_zipWith, hlen, min_self]
      ring

/-- All coefficients one place up: the leading one is lost. -/
def shift (cs : List R) : List R := cs.tail ++ [0]

/-- There are as many coefficients as before. -/
@[simp] theorem length_shift {cs : List R} (h : cs ≠ []) : (shift cs).length = cs.length := by
  have hpos := List.length_pos_iff.mpr h
  rw [shift, List.length_append, List.length_tail, List.length_singleton]
  omega

/-- One place up is a product with the unknown, without what leaves on the left. -/
theorem value_shift (t : R) {cs : List R} (h : cs ≠ []) :
    value t (shift cs) = t * value t cs - cs.headD 0 * t ^ cs.length := by
  cases cs with
  | nil => exact absurd rfl h
  | cons c cs =>
    rw [shift, List.tail_cons, value_append, value_cons t 0 [], value_cons, value_nil,
      List.headD_cons, List.length_cons, List.length_cons, List.length_nil]
    ring

/-! ### The generator -/

/-- The product with `x - r`, without the coefficient that leaves on the left. -/
def mulRoot (r : R) (cs : List R) : List R :=
  List.zipWith (fun next c => next - r * c) (shift cs) cs

/-- The product is kept in an array of the same length. -/
theorem length_mulRoot (r : R) {cs : List R} (h : cs ≠ []) : (mulRoot r cs).length = cs.length := by
  rw [mulRoot, List.length_zipWith, length_shift h, min_self]

/-- The value of the product, without what leaves on the left. -/
theorem value_mulRoot (t r : R) {cs : List R} (h : cs ≠ []) :
    value t (mulRoot r cs) = (t - r) * value t cs - cs.headD 0 * t ^ cs.length := by
  rw [mulRoot, value_zipWith_sub_mul t r (length_shift h), value_shift t h]
  ring

/-- The coefficients of the product of all `x - r`, but for the leading one. -/
def monicTail (roots : List R) : List R := roots.foldl (fun cs r => mulRoot r (1 :: cs)) []

/-- One more factor. -/
theorem monicTail_concat (roots : List R) (r : R) :
    monicTail (roots ++ [r]) = mulRoot r (1 :: monicTail roots) := by
  rw [monicTail, List.foldl_append]
  rfl

/-- **The generator is the product of its factors.** -/
theorem monicTail_spec (roots : List R) (t : R) :
    (monicTail roots).length = roots.length ∧
      t ^ roots.length + value t (monicTail roots) = (roots.map (t - ·)).prod := by
  induction roots using List.reverseRecOn with
  | nil => simp [monicTail]
  | append_singleton roots r ih =>
    obtain ⟨hlen, hvalue⟩ := ih
    have hne : (1 : R) :: monicTail roots ≠ [] := List.cons_ne_nil _ _
    refine ⟨?_, ?_⟩
    · rw [monicTail_concat, length_mulRoot r hne, List.length_cons, hlen, List.length_append,
        List.length_singleton]
    · rw [monicTail_concat, value_mulRoot t r hne, List.headD_cons, value_cons, List.length_cons,
        hlen, List.map_append, List.prod_append, ← hvalue, List.length_append,
        List.length_singleton, List.map_singleton, List.prod_singleton]
      ring

/-- There is one coefficient for each factor, besides the leading one. -/
theorem length_monicTail (roots : List R) : (monicTail roots).length = roots.length :=
  (monicTail_spec roots 0).1

/-- A root of a factor is one of the generator. -/
theorem root_monicTail {roots : List R} {t : R} (h : t ∈ roots) :
    t ^ (monicTail roots).length + value t (monicTail roots) = 0 := by
  rw [length_monicTail, (monicTail_spec roots t).2]
  exact List.prod_eq_zero (List.mem_map.mpr ⟨t, h, sub_self t⟩)

/-- Leading zeros make room: the product moves into them. -/
theorem mulRoot_replicate (r : R) (k : ℕ) (cs : List R) :
    mulRoot r (List.replicate (k + 1) 0 ++ 1 :: cs) =
      List.replicate k 0 ++ 1 :: mulRoot r (1 :: cs) := by
  induction k with
  | zero => simp [mulRoot, shift]
  | succ k ih =>
    have hstep : mulRoot r ((0 : R) :: (List.replicate (k + 1) 0 ++ 1 :: cs)) =
        0 :: mulRoot r (List.replicate (k + 1) 0 ++ 1 :: cs) := by
      simp [mulRoot, shift, List.replicate_succ]
    rw [List.replicate_succ, List.cons_append, hstep, ih, List.replicate_succ, List.cons_append]

/-- The generator made in an array of its final length, which holds `1` to begin with. -/
def generatorIn (d : ℕ) (roots : List R) : List R :=
  roots.foldl (fun cs r => mulRoot r cs) (List.replicate (d - 1) 0 ++ [1])

/-- Before the last factor the array holds the product so far, leading coefficient and all. -/
theorem generatorIn_of_lt {d : ℕ} {roots : List R} (h : roots.length < d) :
    generatorIn d roots = List.replicate (d - 1 - roots.length) 0 ++ 1 :: monicTail roots := by
  induction roots using List.reverseRecOn with
  | nil => rfl
  | append_singleton roots r ih =>
    rw [List.length_append, List.length_singleton] at h
    have hroom : d - 1 - roots.length = d - 1 - (roots.length + 1) + 1 := by omega
    have hstep : generatorIn d (roots ++ [r]) = mulRoot r (generatorIn d roots) := by
      rw [generatorIn, List.foldl_append]
      rfl
    rw [hstep, ih (by omega), hroom, mulRoot_replicate, monicTail_concat, List.length_append,
      List.length_singleton]

/-- **The array ends with the generator**: with the last factor the leading coefficient leaves. -/
theorem generatorIn_eq (roots : List R) (h : roots ≠ []) :
    generatorIn roots.length roots = monicTail roots := by
  obtain ⟨init, r, rfl⟩ := (List.eq_nil_or_concat' roots).resolve_left h
  have hstep : generatorIn (init ++ [r]).length (init ++ [r]) =
      mulRoot r (generatorIn (init ++ [r]).length init) := by
    rw [generatorIn, List.foldl_append]
    rfl
  rw [hstep, generatorIn_of_lt (by simp), monicTail_concat, List.length_append,
    List.length_singleton, Nat.add_sub_cancel, Nat.sub_self]
  rfl

/-! ### The remainder -/

/-- Division by the monic polynomial with these other coefficients, one more symbol of the data. -/
def remStep (coeff rem : List R) (a : R) : List R :=
  List.zipWith (fun r c => r - (a + rem.headD 0) * c) (shift rem) coeff

/-- What division leaves of the data, moved up by the degree. -/
def remainder (coeff data : List R) : List R :=
  data.foldl (remStep coeff) (List.replicate coeff.length 0)

/-- The data and the remainder, which is subtracted. -/
def codeword (coeff data : List R) : List R := data ++ (remainder coeff data).map Neg.neg

variable {coeff rem data : List R}

/-- The remainder keeps its length. -/
theorem length_remStep (h : rem.length = coeff.length) (hne : coeff ≠ []) (a : R) :
    (remStep coeff rem a).length = coeff.length := by
  have hrem : rem ≠ [] := List.ne_nil_of_length_pos (h ▸ List.length_pos_iff.mpr hne)
  rw [remStep, List.length_zipWith, length_shift hrem, h, min_self]

/-- **A step of the division**, seen from a root of the divisor: one more symbol. -/
theorem value_remStep {t : R} (hroot : t ^ coeff.length + value t coeff = 0)
    (h : rem.length = coeff.length) (hne : coeff ≠ []) (a : R) :
    value t (remStep coeff rem a) = t * value t rem + a * t ^ coeff.length := by
  have hrem : rem ≠ [] := List.ne_nil_of_length_pos (h ▸ List.length_pos_iff.mpr hne)
  have hcoeff : value t coeff = -t ^ coeff.length := eq_neg_of_add_eq_zero_right hroot
  rw [remStep, value_zipWith_sub_mul t _ ((length_shift hrem).trans h), value_shift t hrem, hcoeff,
    h]
  ring

/-- The remainder keeps its length over all of the data. -/
theorem length_foldl_remStep (hne : coeff ≠ []) (data : List R) (h : rem.length = coeff.length) :
    (data.foldl (remStep coeff) rem).length = coeff.length := by
  induction data generalizing rem with
  | nil => exact h
  | cons a data ih => exact ih (length_remStep h hne a)

/-- The remainder is as long as the generator without its leading coefficient. -/
theorem length_remainder (hne : coeff ≠ []) (data : List R) :
    (remainder coeff data).length = coeff.length :=
  length_foldl_remStep hne data (by rw [List.length_replicate])

/-- The division, seen from a root of the divisor: what is left has the value of the data moved up,
because multiples of the divisor vanish there. -/
theorem value_foldl_remStep {t : R} (hroot : t ^ coeff.length + value t coeff = 0)
    (hne : coeff ≠ []) (data : List R) (h : rem.length = coeff.length) :
    value t (data.foldl (remStep coeff) rem) =
      value t rem * t ^ data.length + value t data * t ^ coeff.length := by
  induction data generalizing rem with
  | nil => simp
  | cons a data ih =>
    rw [List.foldl_cons, ih (length_remStep h hne a), value_remStep hroot h hne, value_cons,
      List.length_cons]
    ring

/-- **Codewords vanish at the roots of the generator.** -/
theorem value_codeword {t : R} (hroot : t ^ coeff.length + value t coeff = 0)
    (hne : coeff ≠ []) (data : List R) : value t (codeword coeff data) = 0 := by
  have hrem : value t (remainder coeff data) = value t data * t ^ coeff.length := by
    rw [remainder, value_foldl_remStep hroot hne data (by rw [List.length_replicate]),
      value_replicate_zero, zero_mul, zero_add]
  rw [codeword, value_append, value_map_neg, List.length_map, length_remainder hne, hrem]
  ring

end Division

/-! ### The distance of two words -/

section Distance

variable {A : Type*} [DecidableEq A] {r u v w : List A}

/-- The number of places where two words differ. -/
def distance (u v : List A) : ℕ := (u.zip v).countP fun p => decide (p.1 ≠ p.2)

/-- One more place, which counts if the two words differ there. -/
theorem distance_cons (a b : A) (u v : List A) :
    distance (a :: u) (b :: v) = distance u v + if a = b then 0 else 1 := by
  rw [distance, List.zip_cons_cons, List.countP_cons]
  by_cases h : a = b
  · simp [distance, h]
  · simp [distance, h]

/-- A word does not differ from itself. -/
theorem distance_self (u : List A) : distance u u = 0 := by
  induction u with
  | nil => rfl
  | cons a u ih => rw [distance_cons, ih, if_pos rfl]

/-- Two words differ from each other in the same places. -/
theorem distance_comm (u v : List A) : distance u v = distance v u := by
  rw [distance, ← List.zip_swap, List.countP_map]
  refine List.countP_congr fun p _ => ?_
  simp only [Function.comp, Prod.fst_swap, Prod.snd_swap, decide_eq_true_eq]
  exact ne_comm

/-- Words that are put together from parts of the same length differ in the places of the parts. -/
theorem distance_append {u' : List A} (h : u.length = u'.length) (v v' : List A) :
    distance (u ++ v) (u' ++ v') = distance u u' + distance v v' := by
  rw [distance, List.zip_append h, List.countP_append, distance, distance]

/-- The beginnings of two words differ in no more places than the words. -/
theorem distance_take_le (h : u.length = v.length) (n : ℕ) :
    distance (u.take n) (v.take n) ≤ distance u v := by
  have htake : (u.take n).length = (v.take n).length := by
    rw [List.length_take, List.length_take, h]
  have hwhole := distance_append htake (u.drop n) (v.drop n)
  rw [List.take_append_drop, List.take_append_drop] at hwhole
  omega

/-- Words that are made of the same indices differ where what is made of an index differs. -/
theorem distance_map {ι : Type*} (is : List ι) (f g : ι → A) :
    distance (is.map f) (is.map g) = is.countP fun i => decide (f i ≠ g i) := by
  rw [distance, List.zip_map', List.countP_map]
  rfl

/-- Where the ends differ, one of them differs from what lies between. -/
theorem distance_triangle (huv : u.length = v.length) (hvw : v.length = w.length) :
    distance u w ≤ distance u v + distance v w := by
  induction u generalizing v w with
  | nil => simp [distance]
  | cons a u ih =>
    cases v with
    | nil => simp at huv
    | cons b v =>
      cases w with
      | nil => simp at hvw
      | cons c w =>
        have hrest : distance u w ≤ distance u v + distance v w :=
          ih (by simpa using huv) (by simpa using hvw)
        have hfirst : (if a = c then 0 else 1) ≤
            (if a = b then 0 else 1) + if b = c then 0 else 1 := by
          by_cases hab : a = b
          · rw [hab, if_pos rfl, Nat.zero_add]
          · rw [if_neg hab]
            split
            · omega
            · omega
        rw [distance_cons, distance_cons, distance_cons]
        omega

end Distance

section Domain

variable {K : Type*} [CommRing K] {α : K} {d : ℕ}

/-- All syndromes of a word are zero. -/
def IsCodeword (α : K) (d : ℕ) (w : List K) : Prop := ∀ k < d, value (α ^ k) w = 0

/-- The value as a sum over the places of the word. -/
theorem value_eq_sum (t : K) (w : List K) :
    value t w = ∑ i : Fin w.length, w.get i * t ^ (w.length - 1 - i) := by
  induction w with
  | nil => simp
  | cons a w ih =>
    rw [value_cons, ih]
    simp only [List.length_cons, Fin.sum_univ_succ]
    congr 1
    refine Finset.sum_congr rfl fun i _ => ?_
    have hplace : w.length - 1 - (i : ℕ) = w.length + 1 - 1 - (i.succ : ℕ) := by
      rw [Fin.val_succ]
      omega
    rw [hplace]
    rfl

/-- The difference of two codewords is a codeword. -/
theorem IsCodeword.sub {u v : List K} (hu : IsCodeword α d u) (hv : IsCodeword α d v)
    (hlen : u.length = v.length) :
    IsCodeword α d (List.zipWith (fun a c => a - 1 * c) u v) := by
  intro k hk
  rw [value_zipWith_sub_mul _ 1 hlen, hu k hk, hv k hk, mul_zero, sub_zero]

variable [DecidableEq K] {r u v w : List K}

/-- The places with something else than zero, counted as a set and in the list. -/
theorem card_support (w : List K) :
    (Finset.univ.filter fun i : Fin w.length => w.get i ≠ 0).card = w.countP (· ≠ 0) := by
  induction w with
  | nil => rfl
  | cons a w ih =>
    rw [Finset.card_filter] at ih ⊢
    simp only [List.length_cons, Fin.sum_univ_succ]
    rw [List.countP_cons, ← ih, add_comm]
    by_cases ha : a = 0
    · simp [ha]
    · simp [ha]

/-- **Few symbols cannot cancel.** The locators of the symbols make a Vandermonde matrix. -/
theorem eq_zero_of_weight_le [IsDomain K] (hinj : Set.InjOn (fun i => α ^ i) {i | i < w.length})
    (hw : IsCodeword α d w) (hweight : w.countP (· ≠ 0) ≤ d) : ∀ a ∈ w, a = 0 := by
  set support := Finset.univ.filter fun i : Fin w.length => w.get i ≠ 0
  have hcard : support.card ≤ d := (card_support w).trans_le hweight
  let place : Fin support.card → Fin w.length := fun j => (support.equivFin.symm j).1
  have hplace : Function.Injective fun j => α ^ (w.length - 1 - (place j : ℕ)) := by
    intro j j' heq
    have hlt := (place j).isLt
    have hlt' := (place j').isLt
    have hexp := hinj (show w.length - 1 - (place j : ℕ) < w.length by omega)
      (show w.length - 1 - (place j' : ℕ) < w.length by omega) heq
    have hval : place j = place j' := Fin.ext (by omega)
    exact support.equivFin.symm.injective (Subtype.ext hval)
  have hsyndromes : ∀ k : Fin support.card,
      ∑ j, w.get (place j) * (α ^ (w.length - 1 - (place j : ℕ))) ^ (k : ℕ) = 0 := by
    intro k
    have hpow : ∀ e : ℕ, (α ^ e) ^ (k : ℕ) = (α ^ (k : ℕ)) ^ e := fun e => pow_right_comm α e k
    -- the symbols outside the support add nothing
    calc ∑ j, w.get (place j) * (α ^ (w.length - 1 - (place j : ℕ))) ^ (k : ℕ)
        = ∑ j, w.get (place j) * (α ^ (k : ℕ)) ^ (w.length - 1 - (place j : ℕ)) := by
          simp only [hpow]
      _ = ∑ i : support, w.get i.1 * (α ^ (k : ℕ)) ^ (w.length - 1 - (i.1 : ℕ)) :=
          Equiv.sum_comp support.equivFin.symm
            fun i : support => w.get i.1 * (α ^ (k : ℕ)) ^ (w.length - 1 - (i.1 : ℕ))
      _ = ∑ i ∈ support, w.get i * (α ^ (k : ℕ)) ^ (w.length - 1 - (i : ℕ)) :=
          Finset.sum_coe_sort support
            fun i => w.get i * (α ^ (k : ℕ)) ^ (w.length - 1 - (i : ℕ))
      _ = value (α ^ (k : ℕ)) w := by
          rw [value_eq_sum]
          exact Finset.sum_filter_of_ne fun i _ hne hzero => hne (by rw [hzero, zero_mul])
      _ = 0 := hw k (k.isLt.trans_le hcard)
  have hzero := Matrix.eq_zero_of_forall_pow_sum_mul_pow_eq_zero hplace hsyndromes
  intro a ha
  by_contra hne
  obtain ⟨i, hi, rfl⟩ := List.mem_iff_getElem.mp ha
  have hmem : (⟨i, hi⟩ : Fin w.length) ∈ support :=
    Finset.mem_filter.mpr ⟨Finset.mem_univ _, hne⟩
  have hval := congrFun hzero (support.equivFin ⟨_, hmem⟩)
  simp only [place, Equiv.symm_apply_apply] at hval
  exact hne hval

/-- The difference of two words is zero where they agree. -/
theorem countP_sub (u v : List K) :
    (List.zipWith (fun a c => a - 1 * c) u v).countP (· ≠ 0) = distance u v := by
  rw [distance, ← List.map_uncurry_zip_eq_zipWith, List.countP_map]
  refine List.countP_congr fun p _ => ?_
  simp only [Function.comp, Function.uncurry, one_mul, decide_eq_true_eq]
  exact sub_ne_zero

/-- **The distance of the code.** Two codewords of one length with at most `d` differences are the
same. -/
theorem eq_of_distance_le [IsDomain K] (hinj : Set.InjOn (fun i => α ^ i) {i | i < u.length})
    (hu : IsCodeword α d u) (hv : IsCodeword α d v) (hlen : u.length = v.length)
    (hdist : distance u v ≤ d) : u = v := by
  have hlength : (List.zipWith (fun a c => a - 1 * c) u v).length = u.length := by
    rw [List.length_zipWith, hlen, min_self]
  have hzero := eq_zero_of_weight_le (by rwa [hlength]) (hu.sub hv hlen)
    ((countP_sub u v).trans_le hdist)
  refine List.ext_getElem hlen fun i hi hi' => ?_
  have hdiff := hzero _ (List.getElem_mem (hlength.symm ▸ hi))
  rw [List.getElem_zipWith, one_mul] at hdiff
  exact sub_eq_zero.mp hdiff

/-- **Few errors leave one codeword only**: a word is not near to two of them. -/
theorem codeword_unique [IsDomain K] (hinj : Set.InjOn (fun i => α ^ i) {i | i < u.length})
    (hu : IsCodeword α d u) (hv : IsCodeword α d v) (hur : u.length = r.length)
    (hvr : v.length = r.length) (hdist : distance u r + distance v r ≤ d) : u = v := by
  have htriangle := distance_triangle hur hvr.symm
  rw [distance_comm r v] at htriangle
  exact eq_of_distance_le hinj hu hv (hur.trans hvr.symm) (htriangle.trans hdist)

end Domain

end ReedSolomon
