import Mathlib
import TollGate.Qr.Reader

/-!
# The function patterns

`drawFunctionPatterns` sets the timing, finder and alignment patterns, the format bits and the
version bits, and marks their modules in `isFunction`. What it marks are the modules that a reader
takes for reserved (`Canvas.Shows.drawFunctionPatterns`).

The format bits are drawn last, in two copies, and a reader finds each copy at its places
(`paint_formatModules`).
-/

namespace TollGate

namespace Qr

/-! ### The drawing functions -/

/-- A number stored in a `uint8_t`, in which the source keeps all coordinates: what is too large or
negative wraps around. -/
def toU8 (z : ℤ) : ℕ := (z % 256).toNat

/-- A number stored in an `int8_t`, as the size of the symbol is in `drawVersion`, although the
larger symbols have more than 127 modules a side. -/
def toI8 (n : ℕ) : ℤ := if n % 256 < 128 then n % 256 else (n % 256 : ℕ) - 256

/-- The values of the counters around the centre of a pattern: `for (int8_t i = -r; i <= r;
i++)`. -/
def offsets (r : ℕ) : List ℤ := (List.range (2 * r + 1)).map fun (k : ℕ) => (k : ℤ) - r

/-- The modules of a finder pattern around its centre, each with its colour: rings of dark and
light, the outermost a light one that separates the pattern from the rest. Modules outside of the
symbol are left out. -/
def finderModules (size x y : ℕ) : List (Place × Bool) :=
  (offsets 4).flatMap fun i => (offsets 4).filterMap fun j =>
    let dist := max |i| |j|
    let xx := (x : ℤ) + j
    let yy := (y : ℤ) + i
    if 0 ≤ xx ∧ xx < size ∧ 0 ≤ yy ∧ yy < size then
      some ((toU8 xx, toU8 yy), dist != 2 && dist != 4)
    else none

/-- One of the three patterns in the corners, by which a reader finds the symbol and its
direction. -/
def drawFinderPattern (c : Canvas) (x y : ℕ) : Canvas :=
  drawModules c (finderModules c.modules.bitOffsetOrWidth x y)

/-- The modules of an alignment pattern: a dark centre, a light ring and a dark one. They are all
inside of the symbol, and the source does not ask. -/
def alignmentModules (x y : ℕ) : List (Place × Bool) :=
  (offsets 2).flatMap fun i => (offsets 2).map fun j =>
    ((toU8 (x + j), toU8 (y + i)), max |i| |j| != 1)

/-- One of the small patterns, by which a reader follows a larger symbol that is bent. -/
def drawAlignmentPattern (c : Canvas) (x y : ℕ) : Canvas := drawModules c (alignmentModules x y)

/-- `data` of `drawFormatBits`: the level and the mask in five bits, ten bits more by which a reader
can correct three of the fifteen, and a mask over all that keeps them from being all light. -/
def formatData (ecc mask : ℕ) : ℕ :=
  let data := ecc <<< 3 ||| mask
  let rem := (List.range 10).foldl (fun rem _ => (rem <<< 1) ^^^ ((rem >>> 9) * 0x537)) data
  (data <<< 10 ||| rem) ^^^ 0x5412

/-- The format bits with their places: one copy around the upper left finder pattern, the other
divided between the two other corners, and a module that is always dark. -/
def formatModules (size ecc mask : ℕ) : List (Place × Bool) :=
  let data := formatData ecc mask
  ((List.range 6).map fun i => ((8, i), data.testBit i)) ++
    [((8, 7), data.testBit 6), ((8, 8), data.testBit 7), ((7, 8), data.testBit 8)] ++
    ((List.range' 9 6).map fun i => ((14 - i, 8), data.testBit i)) ++
    ((List.range 8).map fun i => ((size - 1 - i, 8), data.testBit i)) ++
    ((List.range' 8 7).map fun i => ((8, size - 15 + i), data.testBit i)) ++
    [((8, size - 8), true)]

/-- Both copies of the format bits. They are drawn once to reserve their modules, and again for each
mask that is tried. -/
def drawFormatBits (c : Canvas) (ecc mask : ℕ) : Canvas :=
  drawModules c (formatModules c.modules.bitOffsetOrWidth ecc mask)

/-- `data` of `drawVersion`: the version in six bits and twelve more for the correction of
errors. -/
def versionData (version : ℕ) : ℕ :=
  let rem := (List.range 12).foldl (fun rem _ => (rem <<< 1) ^^^ ((rem >>> 11) * 0x1F25)) version
  version <<< 12 ||| rem

/-- The version bits with their places, in a block of three by six modules at the upper right corner
and its mirror image at the lower left one. -/
def versionModules (size version : ℕ) : List (Place × Bool) :=
  (List.range 18).flatMap fun i =>
    let bit := (versionData version).testBit i
    let a := toU8 (toI8 size - 11 + (i % 3 : ℕ))
    let b := i / 3
    [((a, b), bit), ((b, a), bit)]

/-- The two copies of the version bits, which only the symbols from version 7 on have. In the
smaller ones a reader counts the modules. -/
def drawVersion (c : Canvas) (version : ℕ) : Canvas :=
  if version < 7 then c else drawModules c (versionModules c.modules.bitOffsetOrWidth version)

/-- The timing patterns, a row and a column of modules with colours in turn. They run through the
corners too, and the finder patterns are drawn over them. -/
def timingModules (size : ℕ) : List (Place × Bool) :=
  (List.range size).flatMap fun i => [((6, i), i % 2 == 0), ((i, 6), i % 2 == 0)]

/-- The rows and columns that have alignment patterns: `alignPosition` of the source, filled from
its end, with `6` in front. Version 32 is an exception to the formula. -/
def alignPosition (version : ℕ) : List ℕ :=
  let alignCount := version / 7 + 2
  let step :=
    if version ≠ 32 then (version * 4 + alignCount * 2 + 1) / (2 * alignCount - 2) * 2 else 26
  let size := version * 4 + 17
  6 :: ((List.range (alignCount - 1)).map fun i => toU8 ((size : ℤ) - 7 - i * step)).reverse

/-- The centres of the alignment patterns: all pairs of these rows and columns, the three finder
corners skipped. -/
def alignCentres (version : ℕ) : List Place :=
  let position := alignPosition version
  let last := position.length - 1
  (List.range position.length).flatMap fun i =>
    ((List.range position.length).filter fun j =>
      !((i == 0 && j == 0) || (i == 0 && j == last) || (i == last && j == 0))).map fun j =>
        (position.getD i 0, position.getD j 0)

/-- All patterns that do not depend on the data, in the order of the source. Later ones are drawn
over earlier ones where they meet. -/
def drawFunctionPatterns (c : Canvas) (version ecc : ℕ) : Canvas :=
  let size := c.modules.bitOffsetOrWidth
  let c := drawModules c (timingModules size)
  let c := drawFinderPattern c 3 3
  let c := drawFinderPattern c (size - 4) 3
  let c := drawFinderPattern c 3 (size - 4)
  let c :=
    if 1 < version then
      (alignCentres version).foldl (fun c p => drawAlignmentPattern c p.1 p.2) c
    else c
  let c := drawFormatBits c ecc 0
  drawVersion c version

/-! ### Where the patterns are -/

/-- The offsets are the integers from `-r` to `r`, without one left out. -/
theorem mem_offsets {r : ℕ} {d : ℤ} : d ∈ offsets r ↔ -(r : ℤ) ≤ d ∧ d ≤ r := by
  rw [offsets, List.mem_map]
  constructor
  · rintro ⟨k, hk, rfl⟩
    have hk := List.mem_range.mp hk
    omega
  · rintro ⟨hlow, hhigh⟩
    exact ⟨(d + r).toNat, List.mem_range.mpr (by omega), by omega⟩

/-- A coordinate in the range of a byte is stored as it is. -/
theorem toU8_eq {z : ℤ} (h0 : 0 ≤ z) (h : z < 256) : (toU8 z : ℤ) = z := by
  rw [toU8]
  omega

variable {size : ℕ} {x y : ℕ} {p : Place}

/-- To be near is to be at most `r` apart, written with sums on both sides because the coordinates
are natural numbers. -/
theorem near_iff {r a b : ℕ} : Reader.near r a b = true ↔ a ≤ b + r ∧ b ≤ a + r := by
  rw [Reader.near, Bool.and_eq_true, Nat.ble_eq, Nat.ble_eq]

/-- The modules of a finder pattern are those of the symbol that are at most four rows and four
columns from its centre. -/
theorem mem_finder (hsize : size < 256) :
    p ∈ (finderModules size x y).map Prod.fst ↔
      (p.1 < size ∧ p.2 < size) ∧ Reader.near 4 p.1 x ∧ Reader.near 4 p.2 y := by
  rw [near_iff, near_iff]
  simp only [finderModules, List.mem_map, List.mem_flatMap, List.mem_filterMap, mem_offsets]
  constructor
  · rintro ⟨_, ⟨i, hi, j, hj, hsome⟩, rfl⟩
    split at hsome
    · obtain rfl := Option.some.inj hsome
      have hxx := toU8_eq (z := (x : ℤ) + j) (by omega) (by omega)
      have hyy := toU8_eq (z := (y : ℤ) + i) (by omega) (by omega)
      dsimp only
      omega
    · cases hsome
  · rintro ⟨⟨hx, hy⟩, ⟨hx1, hx2⟩, hy1, hy2⟩
    have hxx := toU8_eq (z := (x : ℤ) + (p.1 - x)) (by omega) (by omega)
    have hyy := toU8_eq (z := (y : ℤ) + (p.2 - y)) (by omega) (by omega)
    refine ⟨_, ⟨(p.2 : ℤ) - y, by omega, (p.1 : ℤ) - x, by omega, if_pos (by omega)⟩, ?_⟩
    exact Prod.ext (Int.ofNat_inj.mp (hxx.trans (by omega)))
      (Int.ofNat_inj.mp (hyy.trans (by omega)))

/-- The modules of an alignment pattern are those at most two rows and two columns from its centre,
when the centre is not too near to the end of the bytes. -/
theorem mem_alignment (hx : 2 ≤ x) (hx' : x < 254) (hy : 2 ≤ y) (hy' : y < 254) :
    p ∈ (alignmentModules x y).map Prod.fst ↔ Reader.near 2 p.1 x ∧ Reader.near 2 p.2 y := by
  rw [near_iff, near_iff]
  simp only [alignmentModules, List.mem_map, List.mem_flatMap, mem_offsets]
  constructor
  · rintro ⟨_, ⟨i, hi, j, hj, rfl⟩, rfl⟩
    have hxx := toU8_eq (z := (x : ℤ) + j) (by omega) (by omega)
    have hyy := toU8_eq (z := (y : ℤ) + i) (by omega) (by omega)
    dsimp only
    omega
  · rintro ⟨⟨hx1, hx2⟩, hy1, hy2⟩
    have hxx := toU8_eq (z := (x : ℤ) + (p.1 - x)) (by omega) (by omega)
    have hyy := toU8_eq (z := (y : ℤ) + (p.2 - y)) (by omega) (by omega)
    refine ⟨_, ⟨(p.2 : ℤ) - y, by omega, (p.1 : ℤ) - x, by omega, rfl⟩, ?_⟩
    exact Prod.ext (Int.ofNat_inj.mp (hxx.trans (by omega)))
      (Int.ofNat_inj.mp (hyy.trans (by omega)))

/-- The modules of the timing patterns are those in row 6 or in column 6. -/
theorem mem_timing (hsize : 6 < size) : p ∈ (timingModules size).map Prod.fst ↔
    (p.1 < size ∧ p.2 < size) ∧ (p.1 = 6 ∨ p.2 = 6) := by
  obtain ⟨x, y⟩ := p
  simp only [timingModules, List.mem_map, List.mem_flatMap, List.mem_range, List.mem_cons,
    List.not_mem_nil, or_false]
  constructor
  · rintro ⟨_, ⟨i, hi, rfl | rfl⟩, hp⟩
    · obtain ⟨rfl, rfl⟩ := Prod.mk.inj hp
      exact ⟨⟨hsize, hi⟩, Or.inl rfl⟩
    · obtain ⟨rfl, rfl⟩ := Prod.mk.inj hp
      exact ⟨⟨hi, hsize⟩, Or.inr rfl⟩
  · rintro ⟨⟨hx, hy⟩, rfl | rfl⟩
    · exact ⟨_, ⟨y, hy, Or.inl rfl⟩, rfl⟩
    · exact ⟨_, ⟨x, hx, Or.inr rfl⟩, rfl⟩

/-- The places of the format bits: both copies, in the order of a reader, and the dark module. -/
def formatCells (size : ℕ) : List Place :=
  Reader.formatPlaces ++ Reader.formatPlaces' size ++ [(8, size - 8)]

/-- The places that are drawn are those of a reader, in the same order. What is drawn there does not
matter for this. -/
theorem places_formatModules (hsize : 15 ≤ size) (ecc mask : ℕ) :
    (formatModules size ecc mask).map Prod.fst = formatCells size := by
  have hlast : ∀ i ∈ List.range' 8 7, (8, size - 15 + i) = (8, size - 7 + (i - 8)) := by
    intro i hi
    have hi := List.mem_range'_1.mp hi
    exact congrArg (Prod.mk 8) (by omega)
  simp only [formatModules, List.map_append, List.map_map, Function.comp_def, List.map_cons,
    List.map_nil]
  rw [List.map_congr_left hlast]
  rfl

/-- The first copy is in column 8 and in row 8, within the upper left corner, and leaves out the
timing patterns. -/
theorem mem_formatPlaces : p ∈ Reader.formatPlaces ↔
    (p.1 = 8 ∧ p.2 ≤ 8 ∧ p.2 ≠ 6) ∨ (p.2 = 8 ∧ p.1 ≤ 8 ∧ p.1 ≠ 6) := by
  have hall : ∀ q ∈ Reader.formatPlaces,
      (q.1 = 8 ∧ q.2 ≤ 8 ∧ q.2 ≠ 6) ∨ (q.2 = 8 ∧ q.1 ≤ 8 ∧ q.1 ≠ 6) := by decide
  have hthere : ∀ k < 9, k ≠ 6 → (8, k) ∈ Reader.formatPlaces ∧ (k, 8) ∈ Reader.formatPlaces := by
    decide
  refine ⟨hall p, ?_⟩
  obtain ⟨x, y⟩ := p
  rintro (⟨rfl, hy, hne⟩ | ⟨rfl, hx, hne⟩)
  · exact (hthere y (Nat.lt_succ_of_le hy) hne).1
  · exact (hthere x (Nat.lt_succ_of_le hx) hne).2

/-- The second copy is in column 8 at the lower end and in row 8 at the right end. -/
theorem mem_formatPlaces' (hsize : 15 ≤ size) : p ∈ Reader.formatPlaces' size ↔
    (p.1 = 8 ∧ size - 7 ≤ p.2 ∧ p.2 < size) ∨ (p.2 = 8 ∧ size - 8 ≤ p.1 ∧ p.1 < size) := by
  obtain ⟨x, y⟩ := p
  simp only [Reader.formatPlaces', List.mem_append, List.mem_map, List.mem_range, Prod.mk.injEq]
  constructor
  · rintro (⟨i, hi, h⟩ | ⟨i, hi, h⟩)
    · omega
    · omega
  · rintro (⟨rfl, hy⟩ | ⟨rfl, hx⟩)
    · exact Or.inr ⟨y - (size - 7), by omega, rfl, by omega⟩
    · exact Or.inl ⟨size - 1 - x, by omega, by omega, rfl⟩

/-- All places of the format bits, by their rows and columns: the arms of the two copies and the
dark module between. -/
theorem mem_formatCells (hsize : 15 ≤ size) : p ∈ formatCells size ↔
    (p.1 = 8 ∧ (p.2 ≤ 8 ∧ p.2 ≠ 6 ∨ size - 8 ≤ p.2 ∧ p.2 < size)) ∨
      (p.2 = 8 ∧ (p.1 ≤ 8 ∧ p.1 ≠ 6 ∨ size - 8 ≤ p.1 ∧ p.1 < size)) := by
  rw [formatCells, List.mem_append, List.mem_append, mem_formatPlaces, mem_formatPlaces' hsize,
    List.mem_singleton, Prod.ext_iff]
  dsimp only
  omega

/-- The version bits are in two blocks of three by six modules in front of the finder patterns, in
all sizes up to the largest: the `int8_t` of the source wraps around, but the coordinate that is
computed from it comes out right. -/
theorem mem_version {version : ℕ} (hsize : 21 ≤ size) (hsize' : size ≤ 177) :
    p ∈ (versionModules size version).map Prod.fst ↔
      (size - 11 ≤ p.1 ∧ p.1 ≤ size - 9 ∧ p.2 ≤ 5) ∨
        (p.1 ≤ 5 ∧ size - 11 ≤ p.2 ∧ p.2 ≤ size - 9) := by
  have hplace : ∀ i : ℕ, toU8 (toI8 size - 11 + (i % 3 : ℕ)) = size - 11 + i % 3 := by
    intro i
    have hsmall : i % 3 < 3 := Nat.mod_lt _ (by omega)
    unfold toU8 toI8
    split
    · omega
    · omega
  obtain ⟨x, y⟩ := p
  simp only [versionModules, List.mem_map, List.mem_flatMap, List.mem_range, List.mem_cons,
    List.not_mem_nil, or_false, hplace]
  constructor
  · rintro ⟨_, ⟨i, hi, rfl | rfl⟩, hp⟩
    · obtain ⟨rfl, rfl⟩ := Prod.mk.inj hp
      left
      omega
    · obtain ⟨rfl, rfl⟩ := Prod.mk.inj hp
      right
      omega
  · rintro (⟨hx, hx', hy⟩ | ⟨hx, hy, hy'⟩)
    · refine ⟨_, ⟨3 * y + (x - (size - 11)), by omega, Or.inl rfl⟩, Prod.ext ?_ ?_⟩
      · dsimp only
        omega
      · dsimp only
        omega
    · refine ⟨_, ⟨3 * x + (y - (size - 11)), by omega, Or.inr rfl⟩, Prod.ext ?_ ?_⟩
      · dsimp only
        omega
      · dsimp only
        omega

/-- The computed centres are those of the table of the standard, in all versions from 2 to 11. -/
theorem alignCentres_eq : ∀ v ∈ List.range' 2 10, alignCentres v = Reader.alignmentCentres v := by
  decide +kernel

/-- The centres keep away from the edges of the symbol, so that the patterns around them are
inside. -/
theorem alignmentCentres_bounds : ∀ v ∈ List.range' 2 10, ∀ q ∈ Reader.alignmentCentres v,
    (6 ≤ q.1 ∧ q.1 ≤ Reader.sizeOf v - 7) ∧ 6 ≤ q.2 ∧ q.2 ≤ Reader.sizeOf v - 7 := by
  decide +kernel

/-! ### All patterns together -/

/-- All function modules with their colours, in the order in which they are set, so that the drawing
is one list of writes. -/
def functionModules (size version ecc : ℕ) : List (Place × Bool) :=
  timingModules size ++ finderModules size 3 3 ++ finderModules size (size - 4) 3 ++
    finderModules size 3 (size - 4) ++
    (if 1 < version then (alignCentres version).flatMap fun q => alignmentModules q.1 q.2
      else []) ++
    formatModules size ecc 0 ++ if version < 7 then [] else versionModules size version

/-- Drawing does not change the size of the symbol, which each of the drawing functions reads from
the grid. -/
theorem width_drawModules (c : Canvas) (ms : List (Place × Bool)) :
    (drawModules c ms).modules.bitOffsetOrWidth = c.modules.bitOffsetOrWidth := by
  induction ms generalizing c with
  | nil => rfl
  | cons m ms ih => exact ih (setFunctionModule c m.1.1 m.1.2 m.2)

/-- The loop over the alignment patterns is one list of writes too. -/
theorem foldl_drawAlignmentPattern (c : Canvas) (qs : List Place) :
    qs.foldl (fun c q => drawAlignmentPattern c q.1 q.2) c =
      drawModules c (qs.flatMap fun q => alignmentModules q.1 q.2) := by
  induction qs generalizing c with
  | nil => rfl
  | cons q qs ih =>
    rw [List.foldl_cons, ih, List.flatMap_cons, drawModules_append]
    rfl

/-- Nothing to draw. -/
theorem drawModules_nil (c : Canvas) : drawModules c [] = c := rfl

/-- **All patterns are one list of writes**, whatever the version: the branches of the source only
decide what is in the list. -/
theorem drawFunctionPatterns_eq (c : Canvas) (version ecc : ℕ) :
    drawFunctionPatterns c version ecc =
      drawModules c (functionModules c.modules.bitOffsetOrWidth version ecc) := by
  simp only [functionModules, drawModules_append]
  unfold drawFunctionPatterns drawFormatBits drawVersion drawFinderPattern
  simp only [foldl_drawAlignmentPattern]
  by_cases halign : 1 < version
  · by_cases hversion : version < 7
    · simp only [if_pos halign, if_pos hversion, width_drawModules, drawModules_nil]
    · simp only [if_pos halign, if_neg hversion, width_drawModules]
  · have hversion : version < 7 := by omega
    simp only [if_neg halign, if_pos hversion, width_drawModules, drawModules_nil]

/-- What a reader takes for reserved, as a proposition: the timing patterns, the three corners, the
version bits, and what is near the centre of an alignment pattern. -/
theorem reserved_iff {version : ℕ} : Reader.reserved version p = true ↔
    p.1 = 6 ∨ p.2 = 6 ∨ Reader.inCorner (Reader.sizeOf version) p.1 p.2 = true ∨
      Reader.inVersion version (Reader.sizeOf version) p.1 p.2 = true ∨
      ∃ q ∈ Reader.alignmentCentres version,
        Reader.near 2 p.1 q.1 = true ∧ Reader.near 2 p.2 q.2 = true := by
  simp only [Reader.reserved, Bool.or_eq_true, List.any_eq_true, Bool.and_eq_true, Nat.beq_eq,
    or_assoc]

/-- The corners, as inequalities. -/
theorem inCorner_iff : Reader.inCorner size x y = true ↔
    x ≤ 8 ∧ y ≤ 8 ∨ size - 8 ≤ x ∧ y ≤ 8 ∨ x ≤ 8 ∧ size - 8 ≤ y := by
  simp only [Reader.inCorner, Bool.or_eq_true, Bool.and_eq_true, Nat.ble_eq, or_assoc]

/-- The areas of the version bits, as inequalities. -/
theorem inVersion_iff {version : ℕ} : Reader.inVersion version size x y = true ↔
    7 ≤ version ∧ ((x ≤ size - 10 + 1 ∧ size - 10 ≤ x + 1) ∧ y ≤ 5 ∨
      x ≤ 5 ∧ y ≤ size - 10 + 1 ∧ size - 10 ≤ y + 1) := by
  simp only [Reader.inVersion, Bool.or_eq_true, Bool.and_eq_true, Nat.ble_eq, near_iff]

/-- **The function modules are the reserved ones**: what the drawing functions write to is what the
reader skips, pattern by pattern. -/
theorem mem_functionModules {version : ℕ} (ecc : ℕ) (h1 : 1 ≤ version) (h11 : version ≤ 11) :
    p ∈ (functionModules (Reader.sizeOf version) version ecc).map Prod.fst ↔
      (p.1 < Reader.sizeOf version ∧ p.2 < Reader.sizeOf version) ∧
        Reader.reserved version p = true := by
  have hsize : Reader.sizeOf version = 4 * version + 17 := rfl
  set size := Reader.sizeOf version with hset
  have halign : (p ∈ (if 1 < version then
      (alignCentres version).flatMap fun q => alignmentModules q.1 q.2 else []).map Prod.fst) ↔
        ∃ q ∈ Reader.alignmentCentres version,
          Reader.near 2 p.1 q.1 = true ∧ Reader.near 2 p.2 q.2 = true := by
    by_cases hlarge : 1 < version
    · have hmem : version ∈ List.range' 2 10 := List.mem_range'_1.mpr (by omega)
      rw [if_pos hlarge, alignCentres_eq version hmem, List.map_flatMap, List.mem_flatMap]
      refine exists_congr fun q => and_congr_right fun hq => ?_
      have hbounds := alignmentCentres_bounds version hmem q hq
      exact mem_alignment (by omega) (by omega) (by omega) (by omega)
    · obtain rfl : version = 1 := by omega
      simp [Reader.alignmentCentres, Reader.alignmentTable]
  have hversion : (p ∈ (if version < 7 then [] else versionModules size version).map Prod.fst) ↔
      Reader.inVersion version size p.1 p.2 = true := by
    rw [inVersion_iff]
    by_cases hsmall : version < 7
    · rw [if_pos hsmall]
      simp only [List.map_nil, List.not_mem_nil, false_iff]
      omega
    · rw [if_neg hsmall, mem_version (by omega) (by omega)]
      omega
  simp only [functionModules, List.map_append, List.mem_append, halign, hversion,
    places_formatModules (show 15 ≤ size by omega) ecc 0,
    mem_formatCells (show 15 ≤ size by omega), mem_timing (show 6 < size by omega),
    mem_finder (show size < 256 by omega), near_iff (r := 4), reserved_iff, inCorner_iff,
    inVersion_iff, ← hset]
  have hcentre : (∃ q ∈ Reader.alignmentCentres version,
      Reader.near 2 p.1 q.1 = true ∧ Reader.near 2 p.2 q.2 = true) → p.1 < size ∧ p.2 < size := by
    rintro ⟨q, hq, hx, hy⟩
    by_cases hlarge : 1 < version
    · have hbounds := alignmentCentres_bounds version (List.mem_range'_1.mpr (by omega)) q hq
      rw [near_iff] at hx hy
      omega
    · obtain rfl : version = 1 := by omega
      exact absurd hq (by simp [Reader.alignmentCentres, Reader.alignmentTable])
  clear halign hversion
  constructor
  · rintro ((((((⟨hin, h⟩ | ⟨hin, h⟩) | ⟨hin, h⟩) | ⟨hin, h⟩) | h) | h) | h)
    · exact ⟨hin, h.imp_right Or.inl⟩
    · exact ⟨hin, Or.inr (Or.inr (Or.inl (by omega)))⟩
    · exact ⟨hin, Or.inr (Or.inr (Or.inl (by omega)))⟩
    · exact ⟨hin, Or.inr (Or.inr (Or.inl (by omega)))⟩
    · exact ⟨hcentre h, Or.inr (Or.inr (Or.inr (Or.inr h)))⟩
    · exact ⟨by omega, Or.inr (Or.inr (Or.inl (by omega)))⟩
    · exact ⟨by omega, Or.inr (Or.inr (Or.inr (Or.inl h)))⟩
  · rintro ⟨hin, h | h | h | h | h⟩
    · exact Or.inl (Or.inl (Or.inl (Or.inl (Or.inl (Or.inl ⟨hin, Or.inl h⟩)))))
    · exact Or.inl (Or.inl (Or.inl (Or.inl (Or.inl (Or.inl ⟨hin, Or.inr h⟩)))))
    · -- a corner is its finder pattern, the format bits, and one module of each timing pattern
      by_cases htiming : p.1 = 6 ∨ p.2 = 6
      · exact Or.inl (Or.inl (Or.inl (Or.inl (Or.inl (Or.inl ⟨hin, htiming⟩)))))
      · by_cases hformat : p.1 = 8 ∨ p.2 = 8
        · exact Or.inl (Or.inr (by omega))
        · rcases h with h | h | h
          · exact Or.inl (Or.inl (Or.inl (Or.inl (Or.inl (Or.inr ⟨hin, by omega⟩)))))
          · exact Or.inl (Or.inl (Or.inl (Or.inl (Or.inr ⟨hin, by omega⟩))))
          · exact Or.inl (Or.inl (Or.inl (Or.inr ⟨hin, by omega⟩)))
    · exact Or.inr h
    · exact Or.inl (Or.inl (Or.inr h))

/-- **What the patterns reserve** is what a reader takes for reserved, on a canvas with nothing
reserved before. Which colours they have is left open here. -/
theorem Canvas.Shows.drawFunctionPatterns {c : Canvas} {f : Picture} {version : ℕ} (ecc : ℕ)
    (h1 : 1 ≤ version) (h11 : version ≤ 11)
    (h : c.Shows (Reader.sizeOf version) f fun _ => false) :
    ∃ f', (drawFunctionPatterns c version ecc).Shows (Reader.sizeOf version) f'
      (Reader.reserved version) := by
  have hinside : Inside (Reader.sizeOf version)
      (functionModules (Reader.sizeOf version) version ecc) := fun m hm =>
    ((mem_functionModules ecc h1 h11).mp (List.mem_map_of_mem hm)).1
  have hdraw := h.drawModules hinside
  rw [drawFunctionPatterns_eq, h.modules.width]
  refine ⟨_, hdraw.modules, hdraw.isFunction.congr fun x hx y hy => ?_⟩
  rw [Bool.false_or, Bool.eq_iff_iff, decide_eq_true_eq, mem_functionModules ecc h1 h11]
  exact and_iff_right ⟨hx, hy⟩

/-! ### The format bits -/

/-- No module has two format bits, so that each can be read. -/
theorem nodup_formatCells (hsize : 21 ≤ size) : (formatCells size).Nodup := by
  have hfirst : Reader.formatPlaces.Nodup := by decide
  have hrow : ((List.range 8).map fun i => ((size - 1 - i, 8) : Place)).Nodup := by
    refine List.Nodup.map_on (fun i hi j hj heq => ?_) List.nodup_range
    have hi := List.mem_range.mp hi
    have hj := List.mem_range.mp hj
    have hplace := congrArg Prod.fst heq
    dsimp only at hplace
    omega
  have hcolumn : ((List.range 7).map fun i => ((8, size - 7 + i) : Place)).Nodup := by
    refine List.Nodup.map_on (fun i hi j hj heq => ?_) List.nodup_range
    have hplace := congrArg Prod.snd heq
    dsimp only at hplace
    omega
  refine List.Nodup.append (List.Nodup.append hfirst (List.Nodup.append hrow hcolumn ?_) ?_)
    (List.nodup_singleton _) ?_
  · intro p hp hp'
    obtain ⟨i, hi, rfl⟩ := List.mem_map.mp hp
    obtain ⟨j, hj, hplace⟩ := List.mem_map.mp hp'
    have hi := List.mem_range.mp hi
    have hcol := congrArg Prod.fst hplace
    dsimp only at hcol
    omega
  · intro p hp hp'
    have hsmall := mem_formatPlaces.mp hp
    rcases List.mem_append.mp hp' with hp' | hp'
    · obtain ⟨i, hi, rfl⟩ := List.mem_map.mp hp'
      have hi := List.mem_range.mp hi
      dsimp only at hsmall
      omega
    · obtain ⟨i, hi, rfl⟩ := List.mem_map.mp hp'
      dsimp only at hsmall
      omega
  · intro p hp hp'
    obtain rfl := List.mem_singleton.mp hp'
    rcases List.mem_append.mp hp with hp | hp
    · have hsmall := mem_formatPlaces.mp hp
      dsimp only at hsmall
      omega
    · rcases List.mem_append.mp hp with hp | hp
      · obtain ⟨i, hi, hplace⟩ := List.mem_map.mp hp
        have hi := List.mem_range.mp hi
        have hcol := congrArg Prod.fst hplace
        dsimp only at hcol
        omega
      · obtain ⟨i, hi, hplace⟩ := List.mem_map.mp hp
        have hrow := congrArg Prod.snd hplace
        dsimp only at hrow
        omega

/-- The words of the source are those of a reader, for all levels and masks. -/
theorem formatData_eq : ∀ level ∈ List.range 4, ∀ mask ∈ List.range 8,
    formatData level mask = Reader.formatWord level mask := by
  decide +kernel

/-- The format bits are inside of the symbol, whatever they are. -/
theorem inside_formatModules (hsize : 21 ≤ size) (ecc mask : ℕ) :
    Inside size (formatModules size ecc mask) := by
  intro m hm
  have hplace : m.1 ∈ formatCells size := by
    rw [← places_formatModules (by omega) ecc mask]
    exact List.mem_map_of_mem hm
  have hcell := (mem_formatCells (by omega)).mp hplace
  omega

/-- **Both copies of the format bits are where a reader looks for them**, in a picture that had
anything there before. -/
theorem paint_formatModules (f : Picture) (hsize : 21 ≤ size) (ecc mask : ℕ) :
    Reader.formatPlaces.map (paint f (formatModules size ecc mask)) =
        Reader.formatBits (formatData ecc mask) ∧
      (Reader.formatPlaces' size).map (paint f (formatModules size ecc mask)) =
        Reader.formatBits (formatData ecc mask) := by
  have hnodup : ((formatModules size ecc mask).map Prod.fst).Nodup := by
    rw [places_formatModules (by omega)]
    exact nodup_formatCells hsize
  have hthere : ∀ {p on}, (p, on) ∈ formatModules size ecc mask →
      paint f (formatModules size ecc mask) p = on := paint_of_mem hnodup
  constructor
  · have hbits : ∀ i < 15, (Reader.formatPlaces.getD i (0, 0), (formatData ecc mask).testBit i) ∈
        formatModules size ecc mask := by
      intro i hi
      have hmiddle : List.range' 9 6 = [9, 10, 11, 12, 13, 14] := rfl
      interval_cases i <;> simp [formatModules, Reader.formatPlaces, hmiddle]
    have hplaces : Reader.formatPlaces =
        (List.range 15).map fun i => Reader.formatPlaces.getD i (0, 0) := by decide
    rw [hplaces, List.map_map, Reader.formatBits]
    exact List.map_congr_left fun i hi => hthere (hbits i (List.mem_range.mp hi))
  · have hsplit : Reader.formatBits (formatData ecc mask) =
        (List.range 8).map (formatData ecc mask).testBit ++
          (List.range 7).map fun i => (formatData ecc mask).testBit (8 + i) := by
      rw [Reader.formatBits, show (15 : ℕ) = 8 + 7 from rfl, List.range_add, List.map_append,
        List.map_map]
      rfl
    rw [hsplit, Reader.formatPlaces', List.map_append, List.map_map, List.map_map]
    refine congrArg₂ (· ++ ·) (List.map_congr_left fun i hi => hthere ?_)
      (List.map_congr_left fun i hi => hthere ?_)
    · have hi := List.mem_range.mp hi
      simp only [formatModules, List.mem_append, List.mem_map]
      left; left; right
      exact ⟨i, List.mem_range.mpr hi, rfl⟩
    · have hi := List.mem_range.mp hi
      simp only [formatModules, List.mem_append, List.mem_map]
      left; right
      exact ⟨8 + i, List.mem_range'_1.mpr (by omega), Prod.ext (Prod.ext rfl (by
        show size - 15 + (8 + i) = size - 7 + i
        omega)) rfl⟩

/-- Drawing the format bits takes nothing else, and reserves no new modules when their places are
reserved already. -/
theorem Canvas.Shows.drawFormatBits {c : Canvas} {f φ : Picture} (h : c.Shows size f φ)
    (hsize : 21 ≤ size) (hφ : ∀ q ∈ formatCells size, φ q = true) (ecc mask : ℕ) :
    (drawFormatBits c ecc mask).Shows size (paint f (formatModules size ecc mask)) φ := by
  have hdraw := h.drawModules (inside_formatModules hsize ecc mask)
  rw [Qr.drawFormatBits, h.modules.width]
  refine ⟨hdraw.modules, hdraw.isFunction.congr fun x hx y hy => ?_⟩
  rw [places_formatModules (by omega)]
  by_cases hcell : (x, y) ∈ formatCells size
  · rw [hφ _ hcell, Bool.true_or]
  · rw [decide_eq_false hcell, Bool.or_false]

/-! ### Wrong modules in the format information -/

/-- Words of the format information differ in seven places at least, by a look at all pairs of the
32 words. -/
theorem formatWord_distance :
    ∀ a ∈ List.range 4 ×ˢ List.range 8, ∀ b ∈ List.range 4 ×ˢ List.range 8,
    a ≠ b → 7 ≤ ReedSolomon.distance (Reader.formatBits (Reader.formatWord a.1 a.2))
      (Reader.formatBits (Reader.formatWord b.1 b.2)) := by
  decide +kernel

/-- The format information has fifteen bits. -/
theorem length_formatBits (word : ℕ) : (Reader.formatBits word).length = 15 := by
  rw [Reader.formatBits, List.length_map, List.length_range]

/-- **Up to three wrong modules** are corrected: no other word is as near, so the first word that is
near is the right one. -/
theorem readFormat_of_near {level mask : ℕ} (hlevel : level < 4) (hmask : mask < 8)
    {bits : List Bool} (hlen : bits.length = 15)
    (hnear : ReedSolomon.distance (Reader.formatBits (Reader.formatWord level mask)) bits ≤ 3) :
    Reader.readFormat bits = some (level, mask) := by
  have hmem : (level, mask) ∈ List.range 4 ×ˢ List.range 8 :=
    List.mem_product.mpr ⟨List.mem_range.mpr hlevel, List.mem_range.mpr hmask⟩
  cases hfind : Reader.readFormat bits with
  | none =>
    unfold Reader.readFormat at hfind
    have hno := List.find?_eq_none.mp hfind (level, mask) hmem
    exact absurd (decide_eq_true hnear) hno
  | some q =>
    unfold Reader.readFormat at hfind
    have hq := List.find?_some hfind
    rw [decide_eq_true_eq] at hq
    by_contra hne
    -- the two words would be within six places of each other
    have hdist := formatWord_distance q (List.mem_of_find?_eq_some hfind) (level, mask) hmem
      fun heq => hne (congrArg some heq)
    have htriangle := ReedSolomon.distance_triangle
      (u := Reader.formatBits (Reader.formatWord q.1 q.2)) (v := bits)
      (w := Reader.formatBits (Reader.formatWord level mask))
      ((length_formatBits _).trans hlen.symm) (hlen.trans (length_formatBits _).symm)
    rw [ReedSolomon.distance_comm bits] at htriangle
    dsimp only at hdist hq
    omega

end Qr

end TollGate
