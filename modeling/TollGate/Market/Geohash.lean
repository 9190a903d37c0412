import TollGate.Lib.Base64
import TollGate.Lib.Bisection
import TollGate.Lib.BitString
import TollGate.Lib.CTypes
import TollGate.Lib.Run

/-!
# Geohashes

`geohash_encode` locates a place by halving the longitudes and the latitudes in turn. It writes a
bit for each halving into 16 bytes, and then reads them in groups of five, each of which gives a
letter. The numbers are exact here.

The letters stand for the bits of the place (`hashBits_geohashEncode`). So a shorter geohash is the
beginning of a longer one, the cell that the letters lead to contains the place
(`geohashEncode_cell`), and places with one geohash are near to each other
(`abs_sub_le_of_geohashEncode_eq`).
-/

namespace TollGate

namespace Market

open Bisection BitString

/-! ### The encoder -/

/-- `BASE32`. -/
def base32 : CStr := cstr "0123456789bcdefghjkmnpqrstuvwxyz"

/-- `lon_range` before the loop. -/
def lonWorld : Range ℚ := ⟨-180, 180⟩

/-- `lat_range` before the loop. -/
def latWorld : Range ℚ := ⟨-90, 90⟩

/-- `(range[0] + range[1]) / 2.0`. -/
def middle (lo hi : ℚ) : ℚ := (lo + hi) / 2

/-- The variables of the loop over the bits. -/
structure Bisecting where
  latRange : Range ℚ
  lonRange : Range ℚ
  hashBytes : List UInt8
  size_hashBytes : hashBytes.length = 16

/-- Before the loop. -/
def Bisecting.start : Bisecting := ⟨latWorld, lonWorld, List.replicate 16 0, List.length_replicate⟩

/-- One turn of the loop. -/
def turn (lat lon : ℚ) (s : Bisecting) (i : ℕ) : Bisecting :=
  -- the longitudes begin
  if i % 2 = 0 then
    let mid := middle s.lonRange.lo s.lonRange.hi
    if mid ≤ lon then
      { latRange := s.latRange
        lonRange := { s.lonRange with lo := mid }
        hashBytes := setBit s.hashBytes i
        size_hashBytes := (length_setBit _ _).trans s.size_hashBytes }
    else { s with lonRange := { s.lonRange with hi := mid } }
  else
    let mid := middle s.latRange.lo s.latRange.hi
    if mid ≤ lat then
      { latRange := { s.latRange with lo := mid }
        lonRange := s.lonRange
        hashBytes := setBit s.hashBytes i
        size_hashBytes := (length_setBit _ _).trans s.size_hashBytes }
    else { s with latRange := { s.latRange with hi := mid } }

/-- `val` for the letter at a place. -/
def groupValue (hashBytes : List UInt8) (i : ℕ) : UInt32 :=
  let byteIdx := i * 5 / 8
  let bitOffset := i * 5 % 8
  let val := (hashBytes.getD byteIdx 0).toUInt32 <<< 16
  -- the last letters have no bytes behind theirs
  let val :=
    if byteIdx + 1 < 16 then val ||| ((hashBytes.getD (byteIdx + 1) 0).toUInt32 <<< 8) else val
  let val := if byteIdx + 2 < 16 then val ||| (hashBytes.getD (byteIdx + 2) 0).toUInt32 else val
  (val >>> UInt32.ofNat (24 - 5 - bitOffset)) &&& 0x1F

/-- `geohash_encode`. -/
def geohashEncode (lat lon : ℚ) (precision : ℕ) : CStr :=
  let bitCount := precision * 5
  let hashBytes := (StepRun.run (turn lat lon) .start (List.range bitCount)).hashBytes
  (List.range precision).map fun i => base32.getD (groupValue hashBytes i).toNat 0

/-! ### The decoder -/

/-- The bits that letters stand for, five for each. -/
def hashBits : CStr → Option (List Bool)
  | [] => some []
  | c :: hash => do
    let digit ← base32.idxOf? c
    let bits ← hashBits hash
    some (bitsOf 5 digit ++ bits)

/-- The longitudes and latitudes that a geohash leads to. The source has no decoder; this is the
usual one. -/
def decodeCell (hash : CStr) : Option (Range ℚ × Range ℚ) :=
  (hashBits hash).map (narrow middle lonWorld latWorld)

/-! ### The loop over the bits -/

/-- The bits of a place. -/
abbrev placeBits (lat lon : ℚ) (n : ℕ) : List Bool := bisect middle lonWorld latWorld lon lat n

variable {lat lon : ℚ}

/-- A turn for the longitude. -/
theorem turn_of_even (lat lon : ℚ) (s : Bisecting) {i : ℕ} (h : i % 2 = 0) :
    (turn lat lon s i).lonRange = s.lonRange.part middle (s.lonRange.side middle lon) ∧
      (turn lat lon s i).latRange = s.latRange ∧
      (turn lat lon s i).hashBytes =
        if s.lonRange.side middle lon then setBit s.hashBytes i else s.hashBytes := by
  rw [turn, if_pos h]
  -- the middle belongs to the upper half
  by_cases hmid : middle s.lonRange.lo s.lonRange.hi ≤ lon
  · have hside : s.lonRange.side middle lon = true := decide_eq_true hmid
    rw [hside, if_pos hmid]
    exact ⟨rfl, rfl, rfl⟩
  · have hside : s.lonRange.side middle lon = false := decide_eq_false hmid
    rw [hside, if_neg hmid]
    exact ⟨rfl, rfl, rfl⟩

/-- A turn for the latitude. -/
theorem turn_of_odd (lat lon : ℚ) (s : Bisecting) {i : ℕ} (h : i % 2 ≠ 0) :
    (turn lat lon s i).lonRange = s.lonRange ∧
      (turn lat lon s i).latRange = s.latRange.part middle (s.latRange.side middle lat) ∧
      (turn lat lon s i).hashBytes =
        if s.latRange.side middle lat then setBit s.hashBytes i else s.hashBytes := by
  rw [turn, if_neg h]
  by_cases hmid : middle s.latRange.lo s.latRange.hi ≤ lat
  · have hside : s.latRange.side middle lat = true := decide_eq_true hmid
    rw [hside, if_pos hmid]
    exact ⟨rfl, rfl, rfl⟩
  · have hside : s.latRange.side middle lat = false := decide_eq_false hmid
    rw [hside, if_neg hmid]
    exact ⟨rfl, rfl, rfl⟩

/-- Where the loop stands after some turns. -/
structure Reached (lat lon : ℚ) (n : ℕ) (s : Bisecting) : Prop where
  lonRange : s.lonRange = (narrow middle lonWorld latWorld (placeBits lat lon n)).1
  latRange : s.latRange = (narrow middle lonWorld latWorld (placeBits lat lon n)).2
  holds : Holds s.hashBytes (placeBits lat lon n)

theorem Reached.start : Reached lat lon 0 .start := ⟨rfl, rfl, holds_replicate_zero 16⟩

/-- A turn writes the next bit of the place. -/
theorem Reached.turn {n : ℕ} {s : Bisecting} (hn : n < 128) (h : Reached lat lon n s) :
    Reached lat lon (n + 1) (turn lat lon s n) := by
  have hlength : (placeBits lat lon n).length = n := length_bisect _ _ _ _ _ n
  -- below 128 there is a byte for the bit
  have hwrite := h.holds.write (by rw [hlength, s.size_hashBytes]; omega)
  rw [hlength] at hwrite
  by_cases heven : n % 2 = 0
  · -- the ranges are those of the bits so far, so that the side is the next bit
    obtain ⟨hlon, hlat, hbytes⟩ := turn_of_even lat lon s heven
    have hbits :
        placeBits lat lon (n + 1) = placeBits lat lon n ++ [s.lonRange.side middle lon] := by
      rw [placeBits, bisect_concat, if_pos heven, h.lonRange]
    have hranges := narrow_concat middle lonWorld latWorld (placeBits lat lon n)
      (s.lonRange.side middle lon)
    rw [hlength, if_pos heven, ← hbits, ← h.lonRange, ← h.latRange] at hranges
    refine ⟨?_, ?_, ?_⟩
    · rw [hlon, hranges]
    · rw [hlat, hranges]
    · rw [hbytes, hbits]
      exact hwrite _
  · obtain ⟨hlon, hlat, hbytes⟩ := turn_of_odd lat lon s heven
    have hbits :
        placeBits lat lon (n + 1) = placeBits lat lon n ++ [s.latRange.side middle lat] := by
      rw [placeBits, bisect_concat, if_neg heven, h.latRange]
    have hranges := narrow_concat middle lonWorld latWorld (placeBits lat lon n)
      (s.latRange.side middle lat)
    rw [hlength, if_neg heven, ← hbits, ← h.lonRange, ← h.latRange] at hranges
    refine ⟨?_, ?_, ?_⟩
    · rw [hlon, hranges]
    · rw [hlat, hranges]
    · rw [hbytes, hbits]
      exact hwrite _

/-- The loop, as far as there is room for the bits. -/
theorem reached_turns (lat lon : ℚ) {n : ℕ} (hn : n ≤ 128) :
    Reached lat lon n (StepRun.run (turn lat lon) .start (List.range n)) := by
  induction n with
  | zero => exact Reached.start
  | succ n ih =>
    rw [List.range_succ, StepRun.run_concat]
    exact (ih (Nat.le_of_succ_le hn)).turn hn

/-! ### The letters -/

/-- The number behind a letter is the group of bits at its place. -/
theorem toNat_groupValue {hashBytes : List UInt8} (hsize : hashBytes.length = 16) (i : ℕ) :
    (groupValue hashBytes i).toNat = group hashBytes 5 (i * 5) := by
  -- what lies behind the bytes would be zero
  have hread : ∀ (val : UInt32) (k : ℕ) (f : UInt8 → UInt32), f 0 = 0 →
      (if k < 16 then val ||| f (hashBytes.getD k 0) else val) =
        val ||| f (hashBytes.getD k 0) := by
    intro val k f hf
    split
    · rfl
    · next hk =>
      rw [List.getD_eq_default _ _ (by rw [hsize]; exact Nat.le_of_not_lt hk), hf, UInt32.or_zero]
  have hword : groupValue hashBytes i =
      (Base64.joinBytes (hashBytes.getD (i * 5 / 8) 0) (hashBytes.getD (i * 5 / 8 + 1) 0)
        (hashBytes.getD (i * 5 / 8 + 2) 0) >>> UInt32.ofNat (24 - 5 - i * 5 % 8)) &&& 0x1F := by
    unfold groupValue Base64.joinBytes
    dsimp only
    rw [hread _ (i * 5 / 8 + 1) (fun b => b.toUInt32 <<< 8) rfl,
      hread _ (i * 5 / 8 + 2) UInt8.toUInt32 rfl]
  calc (groupValue hashBytes i).toNat
      = (word hashBytes (i * 5 / 8) / 2 ^ (24 - 5 - i * 5 % 8)) &&& 31 := by
        rw [hword, UInt32.toNat_and, Base64.toNat_shiftRight _ (by omega), Base64.toNat_joinBytes,
          Nat.add_assoc, Nat.mul_comm _ (2 ^ 16), Nat.mul_comm _ (2 ^ 8)]
        rfl
    _ = group hashBytes 5 (i * 5) := Nat.and_two_pow_sub_one_eq_mod _ 5

theorem idxOf_base32 : ∀ v < 32, base32.idxOf? (base32.getD v 0) = some v := by
  decide

@[simp] theorem length_geohashEncode (lat lon : ℚ) (precision : ℕ) :
    (geohashEncode lat lon precision).length = precision := by
  rw [geohashEncode, List.length_map, List.length_range]

/-- Letters lead to the groups they were made from. -/
theorem hashBits_letters {v : ℕ → ℕ} (hv : ∀ i, v i < 32) (places : List ℕ) :
    hashBits (places.map fun i => base32.getD (v i) 0) =
      some (places.flatMap fun i => bitsOf 5 (v i)) := by
  induction places with
  | nil => rfl
  | cons i places ih =>
    rw [List.map_cons, hashBits, idxOf_base32 _ (hv i), ih]
    rfl

/-- **The letters stand for the bits of the place.** -/
theorem hashBits_geohashEncode (lat lon : ℚ) {p : ℕ} (hp : p ≤ 25) :
    hashBits (geohashEncode lat lon p) = some (placeBits lat lon (p * 5)) := by
  -- at most 125 bits, and there is room for 128
  have hreached := reached_turns lat lon (n := p * 5) (by omega)
  unfold geohashEncode
  simp only [toNat_groupValue (Bisecting.size_hashBytes _)]
  rw [hashBits_letters (fun i => group_lt _ 5 _),
    hreached.holds.flatMap_group (by omega) (length_bisect _ _ _ _ _ _)]

/-- A shorter geohash is the beginning of a longer one. -/
theorem take_geohashEncode (lat lon : ℚ) {p q : ℕ} (hpq : p ≤ q) (hq : q ≤ 25) :
    (geohashEncode lat lon q).take p = geohashEncode lat lon p := by
  have hp := reached_turns lat lon (n := p * 5) (by omega)
  have hreached := reached_turns lat lon (n := q * 5) (by omega)
  unfold geohashEncode
  simp only [toNat_groupValue (Bisecting.size_hashBytes _)]
  rw [← List.map_take, List.take_range, Nat.min_eq_left hpq]
  refine List.map_congr_left fun i hi => ?_
  have hi := List.mem_range.mp hi
  -- the group lies in the bits that both have
  rw [hp.holds.group_eq hreached.holds (by omega)
    (take_bisect middle lonWorld latWorld lon lat (by omega)) (by omega)]

/-- The cell of a place. -/
theorem decodeCell_geohashEncode (lat lon : ℚ) {p : ℕ} (hp : p ≤ 25) :
    decodeCell (geohashEncode lat lon p) =
      some (narrow middle lonWorld latWorld (placeBits lat lon (p * 5))) := by
  rw [decodeCell, hashBits_geohashEncode lat lon hp]
  rfl

/-- Places with one geohash are near to each other. -/
theorem abs_sub_le_of_geohashEncode_eq {lat' lon' : ℚ} (hlat : latWorld.Contains lat)
    (hlon : lonWorld.Contains lon) (hlat' : latWorld.Contains lat')
    (hlon' : lonWorld.Contains lon') {p : ℕ} (hp : p ≤ 25)
    (h : geohashEncode lat lon p = geohashEncode lat' lon' p) :
    |lon - lon'| ≤ 360 / 2 ^ ((p * 5 + 1) / 2) ∧ |lat - lat'| ≤ 180 / 2 ^ (p * 5 / 2) := by
  have hbits : placeBits lat lon (p * 5) = placeBits lat' lon' (p * 5) :=
    Option.some.inj (by rw [← hashBits_geohashEncode _ _ hp, h, hashBits_geohashEncode _ _ hp])
  obtain ⟨hx, hy⟩ := contains_narrow middle hlon hlat (p * 5)
  obtain ⟨hx', hy'⟩ := contains_narrow middle hlon' hlat' (p * 5)
  -- both places lie in the cell, which is as wide as this
  obtain ⟨hlonWidth, hlatWidth⟩ :=
    width_narrow (fun _ _ => rfl) lonWorld latWorld (placeBits lat lon (p * 5))
  rw [length_bisect] at hlonWidth hlatWidth
  have hlonWorld : lonWorld.width = 360 := by norm_num [lonWorld, Range.width]
  have hlatWorld : latWorld.width = 180 := by norm_num [latWorld, Range.width]
  rw [hlonWorld] at hlonWidth
  rw [hlatWorld] at hlatWidth
  rw [← hlonWidth, ← hlatWidth]
  rw [← placeBits, ← hbits] at hx' hy'
  exact ⟨hx.abs_sub_le hx', hy.abs_sub_le hy'⟩

/-- **Geohashes.** At up to 25 letters, a geohash begins with the shorter ones, and the cell that
its letters lead to contains the place. -/
theorem geohashEncode_cell (lat lon : ℚ) (hlat : -90 ≤ lat ∧ lat ≤ 90)
    (hlon : -180 ≤ lon ∧ lon ≤ 180) :
    (∀ p q, p ≤ q → q ≤ 25 → geohashEncode lat lon p = (geohashEncode lat lon q).take p) ∧
      ∀ q ≤ 25, (geohashEncode lat lon q).length = q ∧
        ∃ cell, decodeCell (geohashEncode lat lon q) = some cell ∧
          cell.1.Contains lon ∧ cell.2.Contains lat := by
  constructor
  · intro p q hpq hq
    exact (take_geohashEncode lat lon hpq hq).symm
  · intro q hq
    refine ⟨length_geohashEncode lat lon q, _, decodeCell_geohashEncode lat lon hq, ?_⟩
    have hx : lonWorld.Contains lon := hlon
    have hy : latWorld.Contains lat := hlat
    exact contains_narrow middle hx hy (q * 5)

/-- The place of Munich, whose geohash the tests have. -/
theorem geohashEncode_munich :
    geohashEncode (481351 / 10000) (115820 / 10000) 9 = cstr "u281zd9z2" ∧
      geohashEncode (481351 / 10000) (115820 / 10000) 4 =
        (geohashEncode (481351 / 10000) (115820 / 10000) 9).take 4 ∧
      ∃ cell, decodeCell (geohashEncode (481351 / 10000) (115820 / 10000) 9) = some cell ∧
        cell.1.Contains (115820 / 10000) ∧ cell.2.Contains (481351 / 10000) := by
  have hevaluate : geohashEncode (481351 / 10000) (115820 / 10000) 9 = cstr "u281zd9z2" := by
    norm_num [geohashEncode, List.range_succ, turn, middle, Bisecting.start, lonWorld, latWorld]
    decide
  obtain ⟨hshorter, hcell⟩ :=
    geohashEncode_cell (481351 / 10000) (115820 / 10000) (by norm_num) (by norm_num)
  exact ⟨hevaluate, hshorter 4 9 (by omega) (by omega), (hcell 9 (by omega)).2⟩

end Market

end TollGate
