import Mathlib
import TollGate.Qr.Placement

/-!
# Masks and their penalties

A mask inverts some of the modules that hold data, and applied twice it is off again
(`masked_masked`). The library tries all eight of them on the symbol: it draws the format bits of
the mask, applies it, computes the penalty, and takes it off. Whatever the trials before have left
in the format bits is drawn over, so each trial looks at the symbol as it would be with that mask
(`paint_formatModules_eq`).

`Canvas.Shows.selectMask` says what comes of it: the grids are as before but for the format bits,
and the mask is the first one with the smallest penalty.
-/

namespace TollGate

namespace Qr

/-! ### Masks -/

/-- `invert` of `applyMask`: whether a mask changes the module in column `x` and row `y`. There are
eight masks. -/
def maskInvert (mask x y : ℕ) : Bool :=
  match mask with
  | 0 => (x + y) % 2 == 0
  | 1 => y % 2 == 0
  | 2 => x % 3 == 0
  | 3 => (x + y) % 3 == 0
  | 4 => (x / 3 + y / 2) % 2 == 0
  | 5 => x * y % 2 + x * y % 3 == 0
  | 6 => (x * y % 2 + x * y % 3) % 2 == 0
  | 7 => ((x + y) % 2 + x * y % 3) % 2 == 0
  | _ => false

/-- The modules row after row, in the order of two loops. -/
def cells (size : ℕ) : List Place :=
  (List.range size).flatMap fun y => (List.range size).map fun x => (x, y)

/-- The body of the loops of `applyMask`: a module that is reserved stays, and another one is
changed if the mask says so. -/
def maskModule (isFunction : BitBucket) (mask : ℕ) (modules : BitBucket) (p : Place) : BitBucket :=
  if bbGetBit isFunction p.1 p.2 then modules
  else bbInvertBit modules p.1 p.2 (maskInvert mask p.1 p.2)

/-- A mask over the whole symbol. The source uses it to put a mask on and to take it off again. -/
def applyMask (c : Canvas) (mask : ℕ) : Canvas :=
  { c with
    modules := (cells c.modules.bitOffsetOrWidth).foldl (maskModule c.isFunction mask) c.modules }

/-- The picture with a mask on the modules that are not reserved. -/
def masked (φ : Picture) (mask : ℕ) (f : Picture) : Picture := fun p =>
  xor (f p) (!φ p && maskInvert mask p.1 p.2)

/-- **A mask applied twice is off**, which is what the source relies on when it tries the masks. -/
theorem masked_masked (φ : Picture) (mask : ℕ) (f : Picture) :
    masked φ mask (masked φ mask f) = f := by
  funext p
  simp [masked]

/-- Reserved modules have no mask on them. -/
theorem masked_of_reserved {φ f : Picture} {p : Place} (h : φ p = true) (mask : ℕ) :
    masked φ mask f p = f p := by
  simp [masked, h]

/-- The masks are those of the standard, which names the row first. -/
theorem maskInvert_eq (mask x y : ℕ) : maskInvert mask x y = Reader.maskCondition mask y x := by
  unfold Reader.maskCondition
  -- the two tables list the same conditions in the same order
  rw [Nat.add_comm y x, Nat.mul_comm y x, Nat.add_comm (y / 2)]
  rfl

/-- The loops come to all modules of the symbol. -/
theorem mem_cells {size : ℕ} {p : Place} : p ∈ cells size ↔ p.1 < size ∧ p.2 < size := by
  obtain ⟨x, y⟩ := p
  simp only [cells, List.mem_flatMap, List.mem_map, List.mem_range, Prod.mk.injEq]
  constructor
  · rintro ⟨y', hy, x', hx, rfl, rfl⟩
    exact ⟨hx, hy⟩
  · rintro ⟨hx, hy⟩
    exact ⟨y, hy, x, hx, rfl, rfl⟩

/-- The loops come to each module once. -/
theorem nodup_cells (size : ℕ) : (cells size).Nodup := by
  rw [cells, List.nodup_flatMap]
  constructor
  · intro y _
    exact List.nodup_range.map fun x x' heq => congrArg Prod.fst heq
  · refine List.nodup_range.imp fun {y y'} hne p hp hp' => hne ?_
    obtain ⟨x, _, rfl⟩ := List.mem_map.mp hp
    obtain ⟨x', _, heq⟩ := List.mem_map.mp hp'
    exact (congrArg Prod.snd heq).symm

variable {size : ℕ} {f g φ : Picture} {c : Canvas}

/-- The modules that were visited have the mask, and the others do not yet. -/
theorem foldl_maskModule {isFunction : BitBucket} (hφ : isFunction.Shows size φ) (mask : ℕ)
    {ps : List Place} (hps : ∀ p ∈ ps, p.1 < size ∧ p.2 < size) (hnodup : ps.Nodup)
    {modules : BitBucket} (h : modules.Shows size f) :
    (ps.foldl (maskModule isFunction mask) modules).Shows size
      fun p => if p ∈ ps then masked φ mask f p else f p := by
  induction ps generalizing modules f with
  | nil => exact h
  | cons q ps ih =>
    obtain ⟨hx, hy⟩ := hps q List.mem_cons_self
    rw [List.nodup_cons] at hnodup
    have hstep : (maskModule isFunction mask modules q).Shows size
        (Function.update f q (masked φ mask f q)) := by
      unfold maskModule
      rw [hφ.bits q.1 hx q.2 hy]
      by_cases hreserved : φ q = true
      · rw [if_pos hreserved, masked_of_reserved hreserved, Function.update_eq_self]
        exact h
      · rw [Bool.not_eq_true] at hreserved
        have hinvert := h.invertBit hx hy (maskInvert mask q.1 q.2)
        rw [if_neg (by simp [hreserved])]
        simpa [masked, hreserved] using hinvert
    refine (ih (fun p hp => hps p (List.mem_cons_of_mem _ hp)) hnodup.2 hstep).congr
      fun x _ y _ => ?_
    by_cases hplace : (x, y) = q
    · subst hplace
      simp [hnodup.1]
    · simp [hplace, masked]

/-- **The picture of a symbol with a mask**: all modules that are not reserved have it. -/
theorem Canvas.Shows.applyMask (h : c.Shows size f φ) (mask : ℕ) :
    (applyMask c mask).Shows size (masked φ mask f) φ := by
  refine ⟨?_, h.isFunction⟩
  rw [Qr.applyMask, h.modules.width]
  refine (foldl_maskModule h.isFunction mask (fun p hp => mem_cells.mp hp) (nodup_cells size)
    h.modules).congr fun x hx y hy => ?_
  rw [if_pos (mem_cells.mpr ⟨hx, hy⟩)]

/-! ### The penalty -/

/-- One more module of a row or a column: its colour, the length of its run, and the score. A run of
five counts three, and each module more counts one. -/
def runStep (s : Bool × ℕ × ℕ) (cx : Bool) : Bool × ℕ × ℕ :=
  if cx ≠ s.1 then (cx, 1, s.2.2)
  else
    let run := s.2.1 + 1
    (s.1, run, if run = 5 then s.2.2 + 3 else if 5 < run then s.2.2 + 1 else s.2.2)

/-- Adjacent modules in a row or a column having the same colour. Rows and columns are counted by
the same loop, which is here a function of where the colours come from. -/
def linePenalty (size : ℕ) (get : ℕ → Bool) (result : ℕ) : ℕ :=
  ((List.range' 1 (size - 1)).foldl (fun s x => runStep s (get x)) (get 0, 1, result)).2.2

/-- The state of the third pair of loops: the last eleven modules of the row and of the column as
bits, the score, and the number of dark modules. -/
structure Tally where
  bitsRow : ℕ
  bitsCol : ℕ
  result : ℕ
  black : ℕ

/-- The body of the third pair of loops: blocks of four of one colour, patterns like that of a
finder in the row and in the column, and the dark modules. -/
def tallyStep (get : Place → Bool) (y : ℕ) (s : Tally) (x : ℕ) : Tally :=
  let color := get (x, y)
  let bitsRow := ((s.bitsRow <<< 1) &&& 0x7FF) ||| color.toNat
  let bitsCol := ((s.bitsCol <<< 1) &&& 0x7FF) ||| (get (y, x)).toNat
  let block :=
    if 0 < x ∧ 0 < y ∧ color = get (x - 1, y - 1) ∧ color = get (x, y - 1) ∧ color = get (x - 1, y)
    then 3 else 0
  let row := if 10 ≤ x ∧ (bitsRow = 0x05D ∨ bitsRow = 0x5D0) then 40 else 0
  let col := if 10 ≤ x ∧ (bitsCol = 0x05D ∨ bitsCol = 0x5D0) then 40 else 0
  ⟨bitsRow, bitsCol, s.result + block + row + col, s.black + color.toNat⟩

/-- One row of the third pair of loops. The bits begin anew, and the score and the number of dark
modules go on. -/
def tallyRow (size : ℕ) (get : Place → Bool) (s : Tally) (y : ℕ) : Tally :=
  (List.range size).foldl (tallyStep get y) ⟨0, 0, s.result, s.black⟩

/-- The test of the last loop: whether less than `45 - 5k` or more than `55 + 5k` of a hundred
modules are dark. -/
def unbalanced (black total k : ℕ) : Bool :=
  decide (black * 20 < (9 - k) * total) || decide ((11 + k) * total < black * 20)

/-- The last loop, for as many rounds as it can need (`balancePenalty_add`). -/
def balancePenalty (black total : ℕ) : ℕ → ℕ → ℕ
  | 0, _ => 0
  | rounds + 1, k =>
    if unbalanced black total k then 10 + balancePenalty black total rounds (k + 1) else 0

/-- The penalty of a symbol with these colours: runs, blocks, patterns like that of a finder, and
the balance of dark and light, added up in the order of the source. -/
def penaltyOf (size : ℕ) (get : Place → Bool) : ℕ :=
  let result := (List.range size).foldl (fun r y => linePenalty size (fun x => get (x, y)) r) 0
  let result := (List.range size).foldl (fun r x => linePenalty size (fun y => get (x, y)) r) result
  let s := (List.range size).foldl (tallyRow size get) ⟨0, 0, result, 0⟩
  s.result + balancePenalty s.black (size * size) 10 0

/-- The penalty of a grid, which reads its colours bit by bit. -/
def getPenaltyScore (modules : BitBucket) : ℕ :=
  penaltyOf modules.bitOffsetOrWidth fun p => bbGetBit modules p.1 p.2

/-- From the ninth round on the test fails, because the dark modules are among all of them. -/
theorem unbalanced_of_nine_le {black total k : ℕ} (h : black ≤ total) (hk : 9 ≤ k) :
    unbalanced black total k = false := by
  have hbound : 20 * total ≤ (11 + k) * total := Nat.mul_le_mul_right total (by omega)
  rw [unbalanced, Nat.sub_eq_zero_of_le hk, Nat.zero_mul, Bool.or_eq_false_iff]
  exact ⟨decide_eq_false (Nat.not_lt_zero _), decide_eq_false (by omega)⟩

/-- **The rounds that the loop is given are all it needs**: more of them change nothing. -/
theorem balancePenalty_add {black total k rounds : ℕ} (h : black ≤ total) (hk : 9 ≤ k + rounds)
    (extra : ℕ) :
    balancePenalty black total (rounds + extra) k = balancePenalty black total rounds k := by
  induction rounds generalizing k with
  | zero =>
    rw [Nat.add_zero] at hk
    cases extra with
    | zero => rfl
    | succ extra =>
      rw [Nat.zero_add, balancePenalty, balancePenalty, unbalanced_of_nine_le h hk]
      rfl
  | succ rounds ih =>
    rw [Nat.succ_add, balancePenalty, balancePenalty, ih (by omega)]

/-! ### What the penalty depends on -/

variable {get get' : Place → Bool}

/-- Colours outside of the symbol do not matter, because all loops stay inside. -/
theorem penaltyOf_congr (h : ∀ x < size, ∀ y < size, get (x, y) = get' (x, y)) :
    penaltyOf size get = penaltyOf size get' := by
  have hrow : ∀ r, ∀ y ∈ List.range size, linePenalty size (fun x => get (x, y)) r =
      linePenalty size (fun x => get' (x, y)) r := by
    intro r y hy
    have hy := List.mem_range.mp hy
    rw [linePenalty, linePenalty, h 0 (by omega) y hy]
    refine congrArg (fun s : Bool × ℕ × ℕ => s.2.2) (List.foldl_ext _ _ _ fun s x hx => ?_)
    have hx := List.mem_range'_1.mp hx
    rw [h x (by omega) y hy]
  have hcol : ∀ r, ∀ x ∈ List.range size, linePenalty size (fun y => get (x, y)) r =
      linePenalty size (fun y => get' (x, y)) r := by
    intro r x hx
    have hx := List.mem_range.mp hx
    rw [linePenalty, linePenalty, h x hx 0 (by omega)]
    refine congrArg (fun s : Bool × ℕ × ℕ => s.2.2) (List.foldl_ext _ _ _ fun s y hy => ?_)
    have hy := List.mem_range'_1.mp hy
    rw [h x hx y (by omega)]
  have htally : ∀ s, ∀ y ∈ List.range size, tallyRow size get s y = tallyRow size get' s y := by
    intro s y hy
    have hy := List.mem_range.mp hy
    refine List.foldl_ext _ _ _ fun s x hx => ?_
    have hx := List.mem_range.mp hx
    rw [tallyStep, tallyStep, h x hx y hy, h y hy x hx, h (x - 1) (by omega) (y - 1) (by omega),
      h x hx (y - 1) (by omega), h (x - 1) (by omega) y hy]
  simp only [penaltyOf, List.foldl_ext _ _ _ hrow, List.foldl_ext _ _ _ hcol,
    List.foldl_ext _ _ _ htally]

/-- The penalty of a grid is that of its picture. -/
theorem BitBucket.Shows.penalty {modules : BitBucket} (h : modules.Shows size f) :
    getPenaltyScore modules = penaltyOf size f := by
  rw [getPenaltyScore, h.width]
  exact penaltyOf_congr h.bits

/-- A measure that grows by at most `n` in a step has grown by at most `n` times the steps. -/
theorem foldl_le {σ α : Type*} (step : σ → α → σ) (measure : σ → ℕ) (n : ℕ)
    (hstep : ∀ s a, measure (step s a) ≤ measure s + n) (as : List α) (s : σ) :
    measure (as.foldl step s) ≤ measure s + n * as.length := by
  induction as generalizing s with
  | nil => rfl
  | cons a as ih =>
    have hrest := ih (step s a)
    have hfirst := hstep s a
    rw [List.foldl_cons, List.length_cons, Nat.mul_succ]
    omega

/-- A line adds at most three for each of its modules. -/
theorem linePenalty_le (size : ℕ) (get : ℕ → Bool) (result : ℕ) :
    linePenalty size get result ≤ result + 3 * size := by
  have hstep : ∀ (s : Bool × ℕ × ℕ) (x : ℕ), (runStep s (get x)).2.2 ≤ s.2.2 + 3 := by
    intro s x
    unfold runStep
    split
    · exact Nat.le_add_right _ _
    · dsimp only
      split
      · omega
      · split
        · omega
        · omega
  have hrun := foldl_le (fun s x => runStep s (get x)) (fun s => s.2.2) 3 hstep
    (List.range' 1 (size - 1)) (get 0, 1, result)
  rw [List.length_range'] at hrun
  dsimp only at hrun
  rw [linePenalty]
  omega

/-- A row adds at most 83 for each of its modules: a block and two patterns. -/
theorem tallyRow_le (size : ℕ) (get : Place → Bool) (s : Tally) (y : ℕ) :
    (tallyRow size get s y).result ≤ s.result + 83 * size := by
  have hstep : ∀ (s : Tally) (x : ℕ), (tallyStep get y s x).result ≤ s.result + 83 := by
    intro s x
    dsimp only [tallyStep]
    split_ifs <;> omega
  have hrun := foldl_le (tallyStep get y) Tally.result 83 hstep (List.range size)
    ⟨0, 0, s.result, s.black⟩
  rwa [List.length_range] at hrun

/-- The balance adds at most ten for each round. -/
theorem balancePenalty_le (black total rounds k : ℕ) :
    balancePenalty black total rounds k ≤ 10 * rounds := by
  induction rounds generalizing k with
  | zero => rfl
  | succ rounds ih =>
    have hrest := ih (k + 1)
    rw [balancePenalty]
    split
    · omega
    · omega

/-- The penalty is below the number that the search for the smallest one begins with, so the first
mask is always taken, and there is no overflow. -/
theorem penaltyOf_lt (hsize : size ≤ 177) (get : Place → Bool) :
    penaltyOf size get < 2147483647 := by
  have hrows := foldl_le (fun r y => linePenalty size (fun x => get (x, y)) r) id (3 * size)
    (fun r y => linePenalty_le size _ r) (List.range size) 0
  have hcols := foldl_le (fun r x => linePenalty size (fun y => get (x, y)) r) id (3 * size)
    (fun r x => linePenalty_le size _ r) (List.range size)
    ((List.range size).foldl (fun r y => linePenalty size (fun x => get (x, y)) r) 0)
  have htally := foldl_le (tallyRow size get) Tally.result (83 * size) (tallyRow_le size get)
    (List.range size) ⟨0, 0, (List.range size).foldl
      (fun r x => linePenalty size (fun y => get (x, y)) r)
      ((List.range size).foldl (fun r y => linePenalty size (fun x => get (x, y)) r) 0), 0⟩
  have hbalance := fun black => balancePenalty_le black (size * size) 10 0
  have harea : size * size ≤ 177 * 177 := Nat.mul_le_mul hsize hsize
  simp only [List.length_range, id] at hrows hcols htally
  rw [Nat.mul_assoc] at hrows hcols htally
  refine lt_of_le_of_lt (Nat.add_le_add htally (hbalance _)) ?_
  omega

/-! ### The choice -/

/-- The loop over the masks: the symbol, the best mask so far and its penalty. -/
structure Choice where
  canvas : Canvas
  mask : ℕ
  minPenalty : ℕ

/-- The body of the loop: the mask is put on with its format bits, the penalty is computed, and the
mask is taken off. The format bits stay. -/
def tryMask (ecc : ℕ) (s : Choice) (i : ℕ) : Choice :=
  let c := applyMask (drawFormatBits s.canvas ecc i) i
  let penalty := getPenaltyScore c.modules
  let undone := applyMask c i
  if penalty < s.minPenalty then ⟨undone, i, penalty⟩ else ⟨undone, s.mask, s.minPenalty⟩

/-- From the search for the best mask to its application: the symbol and the mask. -/
def selectMask (c : Canvas) (ecc : ℕ) : Canvas × ℕ :=
  let s := (List.range 8).foldl (tryMask ecc) ⟨c, 0, 2147483647⟩
  (applyMask (drawFormatBits s.canvas ecc s.mask) s.mask, s.mask)

/-- The symbol with a mask and its format bits, made of a picture that has neither. -/
def finished (φ f : Picture) (size ecc mask : ℕ) : Picture :=
  masked φ mask (paint f (formatModules size ecc mask))

/-- Format bits that were there before do not matter, because the new ones cover all their
modules. -/
theorem paint_formatModules_eq (hsize : 15 ≤ size) (h : ∀ p ∉ formatCells size, g p = f p)
    (ecc mask : ℕ) :
    paint g (formatModules size ecc mask) = paint f (formatModules size ecc mask) := by
  funext p
  by_cases hp : p ∈ formatCells size
  · exact paint_eq_of_mem (by rwa [places_formatModules hsize])
  · have hp' : p ∉ (formatModules size ecc mask).map Prod.fst := by
      rwa [places_formatModules hsize]
    rw [paint_of_notMem hp', paint_of_notMem hp', h p hp]

/-- What the loop keeps: the symbol has no mask on and differs in the format bits only, and the best
mask is the first one with the smallest penalty of those that were tried. -/
structure Choice.Good (size : ℕ) (f φ : Picture) (ecc tried : ℕ) (s : Choice) : Prop where
  shows : ∃ g, s.canvas.Shows size g φ ∧ ∀ p ∉ formatCells size, g p = f p
  penalty : 0 < tried → s.minPenalty = penaltyOf size (finished φ f size ecc s.mask)
  start : tried = 0 → s.minPenalty = 2147483647
  among : 0 < tried → s.mask < tried
  least : ∀ i < tried, s.minPenalty ≤ penaltyOf size (finished φ f size ecc i)
  first : 0 < tried → ∀ i < s.mask, s.minPenalty < penaltyOf size (finished φ f size ecc i)

/-- **One more mask is tried**: it is the best one if its penalty is smaller than all before, and
else the one before is still the first of the best. -/
theorem Choice.Good.tryMask (hsize : 21 ≤ size) (hsize' : size ≤ 177)
    (hφ : ∀ q ∈ formatCells size, φ q = true) {ecc i : ℕ} {s : Choice}
    (h : s.Good size f φ ecc i) : (tryMask ecc s i).Good size f φ ecc (i + 1) := by
  obtain ⟨g, hg, hsame⟩ := h.shows
  have hdrawn := hg.drawFormatBits hsize hφ ecc i
  have hpaint := paint_formatModules_eq (by omega) hsame ecc i
  have hmasked := hdrawn.applyMask i
  have hundone := hmasked.applyMask i
  rw [masked_masked] at hundone
  have hpenalty : getPenaltyScore (applyMask (drawFormatBits s.canvas ecc i) i).modules =
      penaltyOf size (finished φ f size ecc i) := by
    rw [hmasked.modules.penalty, hpaint]
    rfl
  have hshows : ∃ g, (applyMask (applyMask (drawFormatBits s.canvas ecc i) i) i).Shows size g φ ∧
      ∀ p ∉ formatCells size, g p = f p := by
    refine ⟨_, hundone, fun p hp => ?_⟩
    have hp' : p ∉ (formatModules size ecc i).map Prod.fst := by
      rwa [places_formatModules (by omega)]
    rw [paint_of_notMem hp', hsame p hp]
  unfold Qr.tryMask
  dsimp only
  rw [hpenalty]
  by_cases hbetter : penaltyOf size (finished φ f size ecc i) < s.minPenalty
  · rw [if_pos hbetter]
    refine ⟨hshows, fun _ => rfl, fun h0 => absurd h0 (Nat.succ_ne_zero i),
      fun _ => Nat.lt_succ_self i, fun j hj => ?_, fun _ j hj => ?_⟩
    · rcases Nat.lt_succ_iff_lt_or_eq.mp hj with hj | rfl
      · exact hbetter.le.trans (h.least j hj)
      · exact le_rfl
    · exact hbetter.trans_le (h.least j hj)
  · -- the first mask is better than the number that the search begins with
    have hpos : 0 < i := by
      by_contra h0
      have hstart := h.start (by omega)
      have hlt := penaltyOf_lt hsize' (finished φ f size ecc i)
      omega
    rw [if_neg hbetter]
    refine ⟨hshows, fun _ => h.penalty hpos, fun h0 => absurd h0 (Nat.succ_ne_zero i),
      fun _ => (h.among hpos).trans (Nat.lt_succ_self i), fun j hj => ?_, fun _ => h.first hpos⟩
    rcases Nat.lt_succ_iff_lt_or_eq.mp hj with hj | rfl
    · exact h.least j hj
    · exact not_lt.mp hbetter

/-- What the loop keeps after any number of masks, from a symbol that has none. -/
theorem Choice.Good.run (hsize : 21 ≤ size) (hsize' : size ≤ 177)
    (hφ : ∀ q ∈ formatCells size, φ q = true) (ecc : ℕ) (h : c.Shows size f φ) (n : ℕ) :
    ((List.range n).foldl (Qr.tryMask ecc) ⟨c, 0, 2147483647⟩).Good size f φ ecc n := by
  induction n with
  | zero =>
    exact ⟨⟨f, h, fun _ _ => rfl⟩, fun h0 => absurd h0 (lt_irrefl 0), fun _ => rfl,
      fun h0 => absurd h0 (lt_irrefl 0), fun i hi => absurd hi (Nat.not_lt_zero i),
      fun h0 => absurd h0 (lt_irrefl 0)⟩
  | succ n ih =>
    rw [List.range_succ, List.foldl_append]
    exact ih.tryMask hsize hsize' hφ

/-- **The trials leave the symbol as it would be with the chosen mask alone**, and the choice is the
first mask with the smallest penalty. -/
theorem Canvas.Shows.selectMask (hsize : 21 ≤ size) (hsize' : size ≤ 177)
    (hφ : ∀ q ∈ formatCells size, φ q = true) (ecc : ℕ) (h : c.Shows size f φ) :
    (selectMask c ecc).2 < 8 ∧
      (selectMask c ecc).1.Shows size (finished φ f size ecc (selectMask c ecc).2) φ ∧
      (∀ i < 8, getPenaltyScore (selectMask c ecc).1.modules ≤
        penaltyOf size (finished φ f size ecc i)) ∧
      ∀ i < (selectMask c ecc).2, getPenaltyScore (selectMask c ecc).1.modules <
        penaltyOf size (finished φ f size ecc i) := by
  have hgood := Choice.Good.run hsize hsize' hφ ecc h 8
  unfold Qr.selectMask
  generalize (List.range 8).foldl (Qr.tryMask ecc) ⟨c, 0, 2147483647⟩ = s at hgood ⊢
  obtain ⟨g, hg, hsame⟩ := hgood.shows
  have hfinal := (hg.drawFormatBits hsize hφ ecc s.mask).applyMask s.mask
  rw [paint_formatModules_eq (by omega) hsame] at hfinal
  have hpenalty := hfinal.modules.penalty.trans (hgood.penalty (by omega)).symm
  dsimp only
  rw [hpenalty]
  exact ⟨hgood.among (by omega), hfinal, hgood.least, hgood.first (by omega)⟩

end Qr

end TollGate
