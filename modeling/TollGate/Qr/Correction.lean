import Mathlib
import TollGate.Qr.Field
import TollGate.Qr.Masking

/-!
# Error correction

`rs_init` computes the generator in an array of its final length, and `rs_getRemainder` divides in
place, with the remainder spread over an array in steps of `stride`. Both are sweeps: a loop that
goes up through an array and writes each entry from itself and the next one (`sweep`). They compute
the generator and the remainder of the general code (`rsInit_eq`, `lane_rsGetRemainder`).
-/

namespace TollGate

namespace Qr

open ReedSolomon

/-! ### Loops that go up through an array -/

/-- `for (j = 0; j < n; j++) r[place j] = g j r[place j] r[place (j + 1)]`: a loop upwards that
makes each entry of itself and of the next one. All inner loops of the correction are of this
kind. -/
def sweep (n : ℕ) (place : ℕ → ℕ) (g : ℕ → UInt8 → UInt8 → UInt8) (r : List UInt8) : List UInt8 :=
  (List.range n).foldl
    (fun r j => r.set (place j) (g j (r.getD (place j) 0) (r.getD (place (j + 1)) 0))) r

variable {n : ℕ} {place : ℕ → ℕ} {g : ℕ → UInt8 → UInt8 → UInt8} {r : List UInt8}

/-- The last round of the loop. -/
theorem sweep_succ (n : ℕ) (place : ℕ → ℕ) (g : ℕ → UInt8 → UInt8 → UInt8) (r : List UInt8) :
    sweep (n + 1) place g r =
      (sweep n place g r).set (place n)
        (g n ((sweep n place g r).getD (place n) 0)
          ((sweep n place g r).getD (place (n + 1)) 0)) := by
  rw [sweep, List.range_succ, List.foldl_append]
  rfl

/-- The array keeps its length. -/
@[simp] theorem length_sweep : (sweep n place g r).length = r.length := by
  induction n with
  | zero => rfl
  | succ n ih => rw [sweep_succ, List.length_set, ih]

/-- An entry of an array after a write, with a default for what is behind its end. -/
theorem getD_set {α : Type*} (r : List α) (i j : ℕ) (a d : α) (h : i < r.length) :
    (r.set i a).getD j d = if i = j then a else r.getD j d := by
  rw [List.getD_eq_getElem?_getD, List.getElem?_set, List.getD_eq_getElem?_getD]
  by_cases heq : i = j
  · rw [if_pos heq, if_pos heq, if_pos h]
    rfl
  · rw [if_neg heq, if_neg heq]

/-- A write leaves the other entries, even when it is out of the array. -/
theorem getD_set_ne {α : Type*} (r : List α) {i j : ℕ} (a d : α) (h : i ≠ j) :
    (r.set i a).getD j d = r.getD j d := by
  rw [List.getD_eq_getElem?_getD, List.getElem?_set_ne h, List.getD_eq_getElem?_getD]

/-- Entries that the loop does not write stay as they are. -/
theorem getD_sweep_of_ne {q : ℕ} (h : ∀ j < n, place j ≠ q) :
    (sweep n place g r).getD q 0 = r.getD q 0 := by
  induction n with
  | zero => rfl
  | succ n ih =>
    rw [sweep_succ, getD_set_ne _ _ _ (h n (Nat.lt_succ_self n)),
      ih fun j hj => h j (hj.trans (Nat.lt_succ_self n))]

/-- **Entries that it writes** are made of the old entries: when the loop comes to one, the next one
is still as it was. So the loop that updates the array in place does what an update of all entries
at once would do. -/
theorem getD_sweep (hinj : Function.Injective place) (hroom : ∀ j < n, place j < r.length) {k : ℕ}
    (hk : k < n) :
    (sweep n place g r).getD (place k) 0 =
      g k (r.getD (place k) 0) (r.getD (place (k + 1)) 0) := by
  induction n with
  | zero => exact absurd hk (Nat.not_lt_zero k)
  | succ n ih =>
    have hbehind : ∀ i, n ≤ i → (sweep n place g r).getD (place i) 0 = r.getD (place i) 0 :=
      fun i hi => getD_sweep_of_ne fun j hj heq => absurd (hinj heq) (by omega)
    rw [sweep_succ, getD_set _ _ _ _ _ (by
      rw [length_sweep]
      exact hroom n (Nat.lt_succ_self n))]
    rcases Nat.lt_succ_iff_lt_or_eq.mp hk with hlt | rfl
    · rw [if_neg fun heq => absurd (hinj heq) (by omega)]
      exact ih (fun j hj => hroom j (hj.trans (Nat.lt_succ_self n))) hlt
    · rw [if_pos rfl, hbehind k le_rfl, hbehind (k + 1) (Nat.le_succ k)]

/-! ### The generator -/

/-- The body of the inner loop of `rs_init`: an entry times the root, and the next entry added
except at the end. -/
def multiplyEntry (degree : ℕ) (root : UInt16) (j : ℕ) (c next : UInt8) : UInt8 :=
  let product := rsMultiply c root.toUInt8
  if j + 1 < degree then product ^^^ next else product

/-- The body of the outer loop: the coefficients are those of the product with one factor more, and
the root is doubled. -/
def rsInitStep (degree : ℕ) (s : List UInt8 × UInt16) : List UInt8 × UInt16 :=
  (sweep degree id (multiplyEntry degree s.2) s.1, timesTwo s.2)

/-- The coefficients of the generator polynomial without the first one, which is one. The array
begins with a one at its end, for the empty product. -/
def rsInit (degree : ℕ) : List UInt8 :=
  ((List.range degree).foldl (fun s _ => rsInitStep degree s)
    ((List.replicate degree 0).set (degree - 1) 1, 1)).1

/-- The roots of the generator: the powers of `2` from the zeroth on, as many as there are codewords
for error correction. -/
def roots (degree : ℕ) : List GF256 := (List.range degree).map fun i => GF256.root ^ i

/-- Entries of a list of bytes as elements of the field, so that the general facts about the
division of polynomials are about the arrays of the source. -/
def inField (cs : List UInt8) : List GF256 := cs.map GF256.mk

/-- Doubling is a product with `2`. -/
theorem double_eq (x : UInt8) : double x = rsMultiply 2 x := by
  revert x
  apply forall_byte
  decide +kernel

/-- An entry as an element of the field, and zero behind the end. -/
theorem getD_inField (cs : List UInt8) (i : ℕ) : (inField cs).getD i 0 = ⟨cs.getD i 0⟩ := by
  rw [List.getD_eq_getElem?_getD, inField, List.getElem?_map, List.getD_eq_getElem?_getD]
  cases cs[i]? with
  | none => rfl
  | some c => rfl

/-- An entry of a list that was shifted to the front is the next one. -/
theorem getD_shift (cs : List GF256) (i : ℕ) : (shift cs).getD i 0 = cs.getD (i + 1) 0 := by
  rw [shift, List.getD_eq_getElem?_getD, List.getD_eq_getElem?_getD]
  by_cases h : i < cs.tail.length
  · rw [List.getElem?_append_left h, List.getElem?_tail]
  · rw [List.length_tail] at h
    rw [List.getElem?_append_right (by rw [List.length_tail]; omega),
      List.getElem?_eq_none (by omega : cs.length ≤ i + 1)]
    cases hlast : ([0] : List GF256)[i - cs.tail.length]? with
    | none => rfl
    | some a => rw [List.mem_singleton.mp (List.mem_of_getElem? hlast)]; rfl

/-- Two lists of one length with the same entries are the same. -/
theorem ext_getD {as bs : List GF256} (hlen : as.length = bs.length)
    (h : ∀ i < as.length, as.getD i 0 = bs.getD i 0) : as = bs := by
  refine List.ext_getElem hlen fun i hi hi' => ?_
  have hi0 := h i hi
  rwa [List.getD_eq_getElem _ _ hi, List.getD_eq_getElem _ _ hi'] at hi0

/-- An entry of a list that was made of two lists. -/
theorem getD_zipWith (f : GF256 → GF256 → GF256) {as bs : List GF256} {i : ℕ}
    (ha : i < as.length) (hb : i < bs.length) :
    (List.zipWith f as bs).getD i 0 = f (as.getD i 0) (bs.getD i 0) := by
  have hi : i < (List.zipWith f as bs).length := by
    rw [List.length_zipWith]
    omega
  rw [List.getD_eq_getElem _ _ hi, List.getElem_zipWith, List.getD_eq_getElem _ _ ha,
    List.getD_eq_getElem _ _ hb]

/-- There are as many elements as bytes. -/
@[simp] theorem length_inField (cs : List UInt8) : (inField cs).length = cs.length :=
  List.length_map _

/-- **A round of `rs_init`** multiplies by the next factor. -/
theorem inField_rsInitStep {coeff : List UInt8} (hne : coeff ≠ []) (a : GF256) :
    inField (sweep coeff.length id (multiplyEntry coeff.length a.byte.toUInt16) coeff) =
      mulRoot a (inField coeff) := by
  have hne' : inField coeff ≠ [] := by simpa [inField] using hne
  refine ext_getD ?_ fun j hj => ?_
  · rw [length_mulRoot _ hne', length_inField, length_inField, length_sweep]
  · rw [length_inField, length_sweep] at hj
    have hentry :
        (sweep coeff.length id (multiplyEntry coeff.length a.byte.toUInt16) coeff).getD j 0 =
        multiplyEntry coeff.length a.byte.toUInt16 j (coeff.getD j 0) (coeff.getD (j + 1) 0) :=
      getD_sweep Function.injective_id (fun k hk => hk) hj
    rw [mulRoot, getD_zipWith _ (by rwa [length_shift hne', length_inField])
      (by rwa [length_inField]), getD_shift, getD_inField, getD_inField, getD_inField,
      GF256.sub_eq_add, hentry]
    refine GF256.ext_byte ?_
    simp only [multiplyEntry, UInt8.toUInt8_toUInt16, GF256.byte_add, GF256.byte_mul]
    rw [rsMultiply_comm a.byte]
    by_cases hlast : j + 1 < coeff.length
    · rw [if_pos hlast, UInt8.xor_comm]
    · rw [if_neg hlast, List.getD_eq_default _ _ (not_lt.mp hlast), UInt8.zero_xor]

/-- The root that is carried along is always the next power of `2`. -/
theorem timesTwo_pow_root (i : ℕ) :
    timesTwo (GF256.root ^ i).byte.toUInt16 = (GF256.root ^ (i + 1)).byte.toUInt16 := by
  rw [timesTwo_toUInt16, double_eq, pow_succ']
  rfl

/-- **`rs_init` computes the generator** with the roots `2⁰`, `2¹` and so on, by induction on its
rounds. -/
theorem rsInit_eq {degree : ℕ} (hpos : 0 < degree) :
    inField (rsInit degree) = monicTail (roots degree) := by
  have hstart : inField ((List.replicate degree 0).set (degree - 1) 1) =
      List.replicate (degree - 1) 0 ++ [1] := by
    obtain ⟨d, rfl⟩ : ∃ d, degree = d + 1 := ⟨degree - 1, by omega⟩
    rw [Nat.add_sub_cancel, List.replicate_succ', List.set_append_right _ _ (by simp)]
    simp only [inField, List.length_replicate, Nat.sub_self, List.set_cons_zero, List.map_append,
      List.map_replicate, List.map_cons, List.map_nil]
    rfl
  -- after `n` rounds: the product of `n` factors, and the next root
  have hrun : ∀ n, ∃ coeff, coeff.length = degree ∧
      (List.range n).foldl (fun s _ => rsInitStep degree s)
        ((List.replicate degree 0).set (degree - 1) 1, 1) =
          (coeff, (GF256.root ^ n).byte.toUInt16) ∧
      inField coeff = generatorIn degree (roots n) := by
    intro n
    induction n with
    | zero => exact ⟨_, by simp, rfl, hstart⟩
    | succ n ih =>
      obtain ⟨coeff, hlen, hfold, hcoeff⟩ := ih
      have hne : coeff ≠ [] := List.ne_nil_of_length_pos (by omega)
      refine ⟨sweep degree id (multiplyEntry degree (GF256.root ^ n).byte.toUInt16) coeff,
        ?_, ?_, ?_⟩
      · rw [length_sweep, hlen]
      · rw [List.range_succ, List.foldl_append, hfold]
        exact Prod.ext rfl (timesTwo_pow_root n)
      · have hround := inField_rsInitStep hne (GF256.root ^ n)
        rw [hlen, hcoeff] at hround
        have hroots : roots (n + 1) = roots n ++ [GF256.root ^ n] := by
          rw [roots, List.range_succ, List.map_append]
          rfl
        rw [hround, hroots, generatorIn, generatorIn, List.foldl_append]
        rfl
  obtain ⟨coeff, -, hfold, hcoeff⟩ := hrun degree
  have hlen : (roots degree).length = degree := by simp [roots]
  have hne : roots degree ≠ [] := List.ne_nil_of_length_pos (by omega)
  rw [rsInit, hfold, ← generatorIn_eq _ hne, hlen]
  exact hcoeff

/-- The array has as many coefficients as the generator has roots. -/
theorem length_rsInit {degree : ℕ} (hpos : 0 < degree) : (rsInit degree).length = degree := by
  have hlen := congrArg List.length (rsInit_eq hpos)
  rwa [length_inField, length_monicTail, roots, List.length_map, List.length_range] at hlen

/-! ### The remainder, spread over an array -/

/-- The entries of an array that hold a remainder: from `base` on, in steps of `stride`, because the
remainders of several blocks are interleaved. -/
def lane (degree stride base : ℕ) (result : List UInt8) : List GF256 :=
  (List.range degree).map fun j => ⟨result.getD (base + j * stride) 0⟩

/-- The body of the loop of `rs_getRemainder`, with `result` pointing to `base`: the remainder is
shifted by one, and the generator is taken off as often as the byte that comes in and the first
entry say. -/
def remainderStep (degree : ℕ) (coeff : List UInt8) (base stride : ℕ) (result : List UInt8)
    (a : UInt8) : List UInt8 :=
  let factor := a ^^^ result.getD base 0
  -- `result[(j - 1) * stride] = result[j * stride]` for `j` from 1 on
  let result := sweep (degree - 1) (fun j => base + j * stride) (fun _ _ next => next) result
  let result := result.set (base + (degree - 1) * stride) 0
  sweep degree (fun j => base + j * stride)
    (fun j c _ => c ^^^ rsMultiply (coeff.getD j 0) factor) result

/-- The remainder of some data, computed in its places of the array, from what was there before. -/
def rsGetRemainder (degree : ℕ) (coeff data : List UInt8) (result : List UInt8)
    (base stride : ℕ) : List UInt8 :=
  data.foldl (remainderStep degree coeff base stride) result

variable {degree base stride : ℕ} {coeff data result : List UInt8}

/-- The entries of a remainder are apart from each other. -/
theorem lane_inj (hstride : 0 < stride) : Function.Injective fun j => base + j * stride := by
  intro j k heq
  dsimp only at heq
  exact Nat.eq_of_mul_eq_mul_right hstride (by omega)

/-- What a step makes of the entries of the remainder: the next entry, or zero for the last one, and
a multiple of the coefficient. -/
theorem getD_remainderStep (hstride : 0 < stride)
    (hroom : base + (degree - 1) * stride < result.length)
    {j : ℕ} (hj : j < degree) (a : UInt8) :
    (remainderStep degree coeff base stride result a).getD (base + j * stride) 0 =
      (if j + 1 < degree then result.getD (base + (j + 1) * stride) 0 else 0) ^^^
        rsMultiply (coeff.getD j 0) (a ^^^ result.getD base 0) := by
  have hplace : ∀ k < degree, base + k * stride < result.length := by
    intro k hk
    have hle : k * stride ≤ (degree - 1) * stride := Nat.mul_le_mul_right _ (by omega)
    omega
  set shifted := sweep (degree - 1) (fun j => base + j * stride) (fun _ _ next => next) result
    with hshifted
  have hxor : (remainderStep degree coeff base stride result a).getD (base + j * stride) 0 =
      (shifted.set (base + (degree - 1) * stride) 0).getD (base + j * stride) 0 ^^^
        rsMultiply (coeff.getD j 0) (a ^^^ result.getD base 0) := by
    unfold remainderStep
    dsimp only
    rw [← hshifted, getD_sweep (lane_inj hstride) (fun k hk => ?_) hj]
    rw [List.length_set, hshifted, length_sweep]
    exact hplace k hk
  rw [hxor, getD_set _ _ _ _ _ (by rwa [hshifted, length_sweep])]
  congr 1
  by_cases hlast : j + 1 < degree
  · have hne : base + (degree - 1) * stride ≠ base + j * stride := fun heq =>
      absurd (lane_inj hstride heq) (by omega)
    rw [if_neg hne, if_pos hlast]
    exact getD_sweep (lane_inj hstride) (fun k hk => hplace k (by omega)) (by omega)
  · rw [if_neg hlast, if_pos (by rw [show degree - 1 = j by omega])]

/-- **A step in the array is a step of the division**, as it is defined for polynomials over any
ring. -/
theorem lane_remainderStep (hpos : 0 < degree) (hcoeff : coeff.length = degree)
    (hstride : 0 < stride) (hroom : base + (degree - 1) * stride < result.length) (a : UInt8) :
    lane degree stride base (remainderStep degree coeff base stride result a) =
      remStep (inField coeff) (lane degree stride base result) ⟨a⟩ := by
  have hlane : ∀ r, (lane degree stride base r).length = degree := by simp [lane]
  have hget : ∀ r, ∀ j < degree, (lane degree stride base r).getD j 0 =
      ⟨r.getD (base + j * stride) 0⟩ := by
    intro r j hj
    rw [List.getD_eq_getElem _ _ (by rwa [hlane])]
    simp [lane]
  have hne : lane degree stride base result ≠ [] := List.ne_nil_of_length_pos (by rwa [hlane])
  refine ext_getD ?_ fun j hj => ?_
  · rw [hlane, length_remStep ((hlane _).trans (by rw [length_inField, hcoeff]))
      (List.ne_nil_of_length_pos (by rwa [length_inField, hcoeff])), length_inField, hcoeff]
  · rw [hlane] at hj
    have hhead : (lane degree stride base result).headD 0 = ⟨result.getD base 0⟩ := by
      have hfirst := hget result 0 hpos
      rw [Nat.zero_mul, Nat.add_zero] at hfirst
      rw [← hfirst]
      cases lane degree stride base result with
      | nil => rfl
      | cons b bs => rfl
    rw [hget _ j hj, remStep, getD_zipWith _ (by rwa [length_shift hne, hlane])
      (by rwa [length_inField, hcoeff]), getD_shift, getD_inField, hhead, GF256.sub_eq_add,
      getD_remainderStep hstride hroom hj]
    refine GF256.ext_byte ?_
    rw [GF256.byte_add, GF256.byte_mul, GF256.byte_add, rsMultiply_comm (coeff.getD j 0)]
    congr 1
    by_cases hlast : j + 1 < degree
    · rw [if_pos hlast, hget _ _ hlast]
    · have hbehind : (lane degree stride base result).getD (j + 1) 0 = 0 :=
        List.getD_eq_default _ _ ((hlane result).trans_le (not_lt.mp hlast))
      rw [if_neg hlast, hbehind]
      rfl

/-- The array keeps its length in a step. -/
theorem length_remainderStep (a : UInt8) :
    (remainderStep degree coeff base stride result a).length = result.length := by
  rw [remainderStep, length_sweep, List.length_set, length_sweep]

/-- The array keeps its length. -/
theorem length_rsGetRemainder :
    (rsGetRemainder degree coeff data result base stride).length = result.length := by
  unfold rsGetRemainder
  induction data generalizing result with
  | nil => rfl
  | cons a data ih => rw [List.foldl_cons, ih, length_remainderStep]

/-- **The division in the array**: the entries of the remainder are those of the division of the
data by the generator, begun with what was there. -/
theorem lane_rsGetRemainder (hpos : 0 < degree) (hcoeff : coeff.length = degree)
    (hstride : 0 < stride) (hroom : base + (degree - 1) * stride < result.length) :
    lane degree stride base (rsGetRemainder degree coeff data result base stride) =
      (inField data).foldl (remStep (inField coeff)) (lane degree stride base result) := by
  unfold rsGetRemainder
  induction data generalizing result with
  | nil => rfl
  | cons a data ih =>
    rw [List.foldl_cons, ih (by rwa [length_remainderStep]),
      lane_remainderStep hpos hcoeff hstride hroom]
    rfl

/-- Entries outside of the remainder stay, so the blocks do not disturb each other. -/
theorem getD_rsGetRemainder {q : ℕ} (hq : ∀ j < degree, base + j * stride ≠ q) (hpos : 0 < degree) :
    (rsGetRemainder degree coeff data result base stride).getD q 0 = result.getD q 0 := by
  have hstep : ∀ (r : List UInt8) (a : UInt8),
      (remainderStep degree coeff base stride r a).getD q 0 = r.getD q 0 := by
    intro r a
    rw [remainderStep, getD_sweep_of_ne hq, getD_set_ne _ _ _ (hq _ (by omega)),
      getD_sweep_of_ne fun j hj => hq j (by omega)]
  unfold rsGetRemainder
  induction data generalizing result with
  | nil => rfl
  | cons a data ih => rw [List.foldl_cons, ih, hstep]

end Qr

end TollGate
