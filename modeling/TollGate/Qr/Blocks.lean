import Mathlib
import TollGate.Qr.Correction

/-!
# Blocks of codewords

`performErrorCorrection` deals the data codewords out, the first one of every block, then the second
ones, and so on, and behind them the codewords for error correction in the same way. The blocks have
two lengths, the longer ones behind. A reader that deals them out again has each block with its
remainder (`Layout.fullBlock`), and the blocks one after the other are the data
(`Layout.joinBlocks`).
-/

namespace TollGate

namespace Qr

open ReedSolomon

/-! ### The tables -/

/-- The codewords for error correction in all blocks of a symbol together, by the level and the
version. The levels are in the order medium, low, high, quartile. -/
def numErrorCorrectionCodewords : List (List ℕ) := [
  [10, 16, 26, 36, 48, 64, 72, 88, 110, 130, 150, 176, 198, 216, 240, 280, 308, 338, 364, 416,
    442, 476, 504, 560, 588, 644, 700, 728, 784, 812, 868, 924, 980, 1036, 1064, 1120, 1204, 1260,
    1316, 1372],
  [7, 10, 15, 20, 26, 36, 40, 48, 60, 72, 80, 96, 104, 120, 132, 144, 168, 180, 196, 224, 224,
    252, 270, 300, 312, 336, 360, 390, 420, 450, 480, 510, 540, 570, 570, 600, 630, 660, 720, 750],
  [17, 28, 44, 64, 88, 112, 130, 156, 192, 224, 264, 308, 352, 384, 432, 480, 532, 588, 650, 700,
    750, 816, 900, 960, 1050, 1110, 1200, 1260, 1350, 1440, 1530, 1620, 1710, 1800, 1890, 1980,
    2100, 2220, 2310, 2430],
  [13, 22, 36, 52, 72, 96, 108, 132, 160, 192, 224, 260, 288, 320, 360, 408, 448, 504, 546, 600,
    644, 690, 750, 810, 870, 952, 1020, 1050, 1140, 1200, 1290, 1350, 1440, 1530, 1590, 1680,
    1770, 1860, 1950, 2040]]

/-- The number of blocks of a symbol, by the level and the version, with the levels in the same
order. -/
def numErrorCorrectionBlocks : List (List ℕ) := [
  [1, 1, 1, 2, 2, 4, 4, 4, 5, 5, 5, 8, 9, 9, 10, 10, 11, 13, 14, 16, 17, 17, 18, 20, 21, 23, 25,
    26, 28, 29, 31, 33, 35, 37, 38, 40, 43, 45, 47, 49],
  [1, 1, 1, 1, 1, 2, 2, 2, 2, 4, 4, 4, 4, 4, 6, 6, 6, 6, 7, 8, 8, 9, 9, 10, 12, 12, 12, 13, 14,
    15, 16, 17, 18, 19, 19, 20, 21, 22, 24, 25],
  [1, 1, 2, 4, 4, 4, 5, 6, 8, 8, 11, 11, 16, 16, 18, 16, 19, 21, 25, 25, 25, 34, 30, 32, 35, 37,
    40, 42, 45, 48, 51, 54, 57, 60, 63, 66, 70, 74, 77, 81],
  [1, 1, 2, 2, 4, 4, 6, 6, 8, 8, 8, 10, 12, 16, 12, 17, 16, 18, 21, 20, 23, 23, 25, 27, 29, 34,
    34, 35, 38, 40, 43, 45, 48, 51, 53, 56, 59, 62, 65, 68]]

/-- The modules of a symbol that are free for data, by the version. The number is not always a
multiple of eight: a few of the smaller versions have some modules left over. -/
def numRawDataModules : List ℕ := [
  208, 359, 567, 807, 1079, 1383, 1568, 1936, 2336, 2768, 3232, 3728, 4256, 4651, 5243, 5867, 6523,
  7211, 7931, 8683, 9252, 10068, 10916, 11796, 12708, 13652, 14628, 15371, 16411, 17483, 18587,
  19723, 20891, 22091, 23008, 24272, 25568, 26896, 28256, 29648]

/-! ### The function -/

/-- The loops that interleave: the array, the next place in it, and where the next codeword is in
the data, with the step from there to the one of the next block. -/
structure Interleaving where
  result : List UInt8
  offset : ℕ
  index : ℕ
  stride : ℕ

/-- The body of the loops, where `grow` says at which block `stride` is to be incremented: the
blocks from there on are longer by one, so they begin further apart. -/
def interleaveStep (dataBytes : List UInt8) (grow : ℕ) (s : Interleaving) (blockNum : ℕ) :
    Interleaving :=
  let stride := if blockNum = grow then s.stride + 1 else s.stride
  ⟨s.result.set s.offset (dataBytes.getD s.index 0), s.offset + 1, s.index + stride, stride⟩

/-- Interleave all short blocks: the first codewords of all blocks, then the second ones, and so on,
as far as the short blocks go. -/
def interleaveShort (dataBytes : List UInt8) (numBlocks numShortBlocks shortDataBlockLen : ℕ)
    (result : List UInt8) : List UInt8 × ℕ :=
  (List.range shortDataBlockLen).foldl (fun s i =>
    let s := (List.range numBlocks).foldl (interleaveStep dataBytes numShortBlocks)
      ⟨s.1, s.2, i, shortDataBlockLen⟩
    (s.result, s.offset)) (result, 0)

/-- Interleave long blocks: the last codeword of each, which the short ones do not have. -/
def interleaveLong (dataBytes : List UInt8) (numBlocks numShortBlocks shortDataBlockLen : ℕ)
    (s : List UInt8 × ℕ) : List UInt8 × ℕ :=
  let s := (List.range (numBlocks - numShortBlocks)).foldl (interleaveStep dataBytes 0)
    ⟨s.1, s.2, shortDataBlockLen * (numShortBlocks + 1), shortDataBlockLen⟩
  (s.result, s.offset)

/-- The loop over the blocks that adds the codewords for error correction: the array, the place of
the block in the data, and `blockSize`, which grows by one where the long blocks begin. -/
def correctionStep (dataBytes coeff : List UInt8) (blockEccLen numBlocks numShortBlocks offset : ℕ)
    (s : List UInt8 × ℕ × ℕ) (blockNum : ℕ) : List UInt8 × ℕ × ℕ :=
  let blockSize := if blockNum = numShortBlocks then s.2.2 + 1 else s.2.2
  (rsGetRemainder blockEccLen coeff ((dataBytes.drop s.2.1).take blockSize) s.1
    (offset + blockNum) numBlocks, s.2.1 + blockSize, blockSize)

/-- The codewords of the symbol, made of the data codewords: the data of all blocks interleaved, and
behind them the remainders of all blocks, interleaved too. They are written into an array of the
capacity of the buffer, which is then copied over it. -/
def performErrorCorrection (version ecc : ℕ) (data : BitBucket) : BitBucket :=
  let numBlocks := (numErrorCorrectionBlocks.getD ecc []).getD (version - 1) 0
  let totalEcc := (numErrorCorrectionCodewords.getD ecc []).getD (version - 1) 0
  let moduleCount := numRawDataModules.getD (version - 1) 0
  let blockEccLen := totalEcc / numBlocks
  let numShortBlocks := numBlocks - moduleCount / 8 % numBlocks
  let shortBlockLen := moduleCount / 8 / numBlocks
  let shortDataBlockLen := shortBlockLen - blockEccLen
  let result := List.replicate data.capacityBytes 0
  let s := interleaveShort data.data numBlocks numShortBlocks shortDataBlockLen result
  let s := interleaveLong data.data numBlocks numShortBlocks shortDataBlockLen s
  let t := (List.range numBlocks).foldl
    (correctionStep data.data (rsInit blockEccLen) blockEccLen numBlocks numShortBlocks s.2)
    (s.1, 0, shortDataBlockLen)
  { data with data := t.1, bitOffsetOrWidth := moduleCount }

/-! ### Dealing out -/

/-- The lengths of the blocks: `a` short ones, and `c` that are longer by one. -/
def blockLens (a c s : ℕ) : List ℕ := List.replicate a s ++ List.replicate c (s + 1)

/-- Blocks of one length are short ones all, as the remainders of the blocks are, so what is shown
of the data codewords can be used for them. -/
theorem replicate_eq_blockLens (n s : ℕ) : List.replicate n s = blockLens n 0 s := by
  rw [blockLens, List.replicate_zero, List.append_nil]

/-- The place of a block in the data, where the blocks are one after the other. -/
def blockStart (a s b : ℕ) : ℕ := b * s + (b - a)

variable {a c s b : ℕ}

/-- The length of a block, by its place among the short or the long ones. -/
theorem getD_blockLens (hb : b < a + c) :
    (blockLens a c s).getD b 0 = if b < a then s else s + 1 := by
  rw [blockLens, List.getD_eq_getElem?_getD]
  by_cases h : b < a
  · rw [if_pos h, List.getElem?_append_left (by rwa [List.length_replicate]),
      List.getElem?_replicate_of_lt h]
    rfl
  · rw [if_neg h, List.getElem?_append_right (by rw [List.length_replicate]; omega),
      List.length_replicate, List.getElem?_replicate_of_lt (by omega)]
    rfl

/-- Without long blocks all of them have the same length. -/
theorem getD_blockLens_zero {n : ℕ} (hb : b < n) : (blockLens n 0 s).getD b 0 = s := by
  rw [getD_blockLens hb, if_pos hb]

/-- There are as many lengths as blocks. -/
theorem length_blockLens : (blockLens a c s).length = a + c := by simp [blockLens]

/-- The codewords of all blocks together. -/
theorem sum_blockLens : (blockLens a c s).sum = (a + c) * s + c := by
  simp only [blockLens, List.sum_append, List.sum_replicate, smul_eq_mul]
  ring

/-- The largest of equal numbers, which says how many rounds a dealing has. -/
theorem foldl_max_replicate (n x m : ℕ) :
    (List.replicate n x).foldl max m = if n = 0 then m else max m x := by
  induction n generalizing m with
  | zero => rfl
  | succ n ih =>
    rw [List.replicate_succ, List.foldl_cons, ih, if_neg (Nat.succ_ne_zero n)]
    split
    · rfl
    · rw [max_assoc, max_self]

/-- The dealing in two parts, as the source has it: the codewords that all blocks have, and those of
the long blocks only. -/
theorem dealing_blockLens (ha : 0 < a) :
    Reader.dealing (blockLens a c s) =
      ((List.range s).flatMap fun i => (List.range (a + c)).map fun b => (b, i)) ++
        (List.range c).map fun k => (a + k, s) := by
  have hall : ∀ i ∈ List.range s, ((List.range (a + c)).filter fun b =>
      decide (i < (blockLens a c s).getD b 0)) = List.range (a + c) := by
    intro i hi
    refine List.filter_eq_self.mpr fun b hb => decide_eq_true ?_
    have hi := List.mem_range.mp hi
    rw [getD_blockLens (List.mem_range.mp hb)]
    split
    · omega
    · omega
  have hlong : ((List.range (a + c)).filter fun b =>
      decide (s < (blockLens a c s).getD b 0)) = (List.range c).map (a + ·) := by
    rw [List.range_add, List.filter_append]
    have hnone : ((List.range a).filter fun b => decide (s < (blockLens a c s).getD b 0)) = [] := by
      refine List.filter_eq_nil_iff.mpr fun b hb => ?_
      have hb := List.mem_range.mp hb
      rw [getD_blockLens (by omega), if_pos hb]
      simp
    have hself : (((List.range c).map (a + ·)).filter fun b =>
        decide (s < (blockLens a c s).getD b 0)) = (List.range c).map (a + ·) := by
      refine List.filter_eq_self.mpr fun b hb => decide_eq_true ?_
      obtain ⟨k, hk, rfl⟩ := List.mem_map.mp hb
      have hk := List.mem_range.mp hk
      rw [getD_blockLens (by omega), if_neg (by omega)]
      exact Nat.lt_succ_self s
    rw [hnone, hself, List.nil_append]
  have hmax : (blockLens a c s).foldl max 0 = if c = 0 then s else s + 1 := by
    rw [blockLens, List.foldl_append, foldl_max_replicate, foldl_max_replicate, if_neg ha.ne']
    split
    · omega
    · omega
  rw [Reader.dealing, hmax, length_blockLens]
  by_cases hc : c = 0
  · rw [if_pos hc, hc, List.range_zero, List.map_nil, List.append_nil]
    subst hc
    exact List.flatMap_congr fun i hi => by rw [hall i hi]
  · rw [if_neg hc, List.range_succ, List.flatMap_append, List.flatMap_singleton, hlong,
      List.map_map]
    refine congrArg₂ (· ++ ·) (List.flatMap_congr fun i hi => ?_) rfl
    rw [hall i hi]

/-- Each codeword is dealt out once. -/
theorem length_dealing (ha : 0 < a) :
    (Reader.dealing (blockLens a c s)).length = (blockLens a c s).sum := by
  rw [dealing_blockLens ha, List.length_append, List.length_map, List.length_range, sum_blockLens,
    List.length_flatMap]
  simp only [List.length_map, List.length_range, List.map_const', List.sum_replicate, smul_eq_mul]
  ring

/-- What is picked by a key from a list that was made of the keys is what belongs to the keys that
were picked. What is behind it in the list is not looked at. -/
theorem filterMap_zip {α : Type*} (b : ℕ) (places : List (ℕ × ℕ)) (g : ℕ × ℕ → α) (rest : List α) :
    (places.zip (places.map g ++ rest)).filterMap (fun p => if p.1.1 = b then some p.2 else none) =
      (places.filter fun p => p.1 = b).map g := by
  induction places with
  | nil => rfl
  | cons p places ih =>
    rw [List.map_cons, List.cons_append, List.zip_cons_cons, List.filterMap_cons]
    by_cases hp : p.1 = b
    · simp only [if_pos hp, ih]
      rw [List.filter_cons_of_pos (by simpa using hp), List.map_cons]
    · simp only [if_neg hp, ih]
      rw [List.filter_cons_of_neg (by simpa using hp)]

/-- In each round of the dealing a block gets one codeword. -/
theorem filter_range_map {n : ℕ} (hb : b < n) (i : ℕ) :
    ((List.range n).map fun b' => (b', i)).filter (fun p => p.1 = b) = [(b, i)] := by
  rw [List.filter_map]
  have hone : ((List.range n).filter fun b' => decide (b' = b)) = [b] := by
    rw [List.filter_eq, List.count_eq_one_of_mem List.nodup_range (List.mem_range.mpr hb)]
    rfl
  exact congrArg (List.map fun b' => (b', i)) hone

/-- The places of a block in the dealing: its codewords come in their order, whatever lies
between. -/
theorem filter_dealing (ha : 0 < a) (hb : b < a + c) :
    (Reader.dealing (blockLens a c s)).filter (fun p => p.1 = b) =
      (List.range ((blockLens a c s).getD b 0)).map fun i => (b, i) := by
  have hlong : ((List.range c).map fun k => (a + k, s)).filter (fun p => p.1 = b) =
      if b < a then [] else [(b, s)] := by
    by_cases h : b < a
    · rw [if_pos h]
      refine List.filter_eq_nil_iff.mpr fun p hp => ?_
      obtain ⟨k, _, rfl⟩ := List.mem_map.mp hp
      simp only [decide_eq_true_eq]
      omega
    · have hshift : (List.range c).map (fun k => (a + k, s)) =
          ((List.range c).map fun k => (k, s)).map fun p : ℕ × ℕ => (a + p.1, p.2) := by
        rw [List.map_map]
        rfl
      have hpred : ((fun p : ℕ × ℕ => decide (p.1 = b)) ∘ fun p : ℕ × ℕ => (a + p.1, p.2)) =
          fun p => decide (p.1 = b - a) := by
        funext p
        exact decide_eq_decide.mpr (by
          dsimp only
          omega)
      rw [if_neg h, hshift, List.filter_map, hpred, filter_range_map (by omega), List.map_singleton]
      exact congrArg (fun n => [(n, s)]) (by omega)
  rw [dealing_blockLens ha, List.filter_append, List.filter_flatMap, hlong, getD_blockLens hb]
  have hshort : ((List.range s).flatMap fun i =>
      ((List.range (a + c)).map fun b' => (b', i)).filter (fun p => p.1 = b)) =
        (List.range s).map fun i => (b, i) := by
    rw [← List.flatMap_pure_eq_map]
    exact List.flatMap_congr fun i _ => filter_range_map hb i
  rw [hshort]
  split
  · rw [List.append_nil]
  · rw [List.range_succ, List.map_append, List.map_singleton]

/-- **What a block gets** of codewords that were dealt out, whatever is behind them. -/
theorem blockOf_dealing {α : Type*} (ha : 0 < a) (hb : b < a + c) (g : ℕ × ℕ → α) (rest : List α) :
    Reader.blockOf (blockLens a c s) ((Reader.dealing (blockLens a c s)).map g ++ rest) b =
      (List.range ((blockLens a c s).getD b 0)).map fun i => g (b, i) := by
  rw [Reader.blockOf, filterMap_zip, filter_dealing ha hb, List.map_map]
  rfl

/-! ### The loops deal out -/

/-- An array of `cap` bytes that begins with `out` and is zero from there on, as the loops fill it
from the front. -/
def filled (cap : ℕ) (out : List UInt8) : List UInt8 := out ++ List.replicate (cap - out.length) 0

/-- A byte at the next place of the array. -/
theorem set_filled (cap : ℕ) {out : List UInt8} (h : out.length < cap) (x : UInt8) :
    (filled cap out).set out.length x = filled cap (out ++ [x]) := by
  obtain ⟨n, hn⟩ : ∃ n, cap - out.length = n + 1 := ⟨cap - out.length - 1, by omega⟩
  have hrest : cap - (out ++ [x]).length = n := by
    rw [List.length_append, List.length_singleton]
    omega
  rw [filled, filled, hrest, hn, List.set_append_right _ _ le_rfl, Nat.sub_self,
    List.replicate_succ, List.set_cons_zero, List.append_assoc, List.singleton_append]

variable {D : List UInt8} {cap : ℕ}

/-- One row of the interleaving: from the start of the first block on, each next block is `s`
further, and one more behind a long block. -/
theorem foldl_interleaveStep (D out : List UInt8) (grow index s : ℕ) {n : ℕ}
    (hroom : out.length + n ≤ cap) :
    (List.range n).foldl (interleaveStep D grow) ⟨filled cap out, out.length, index, s⟩ =
      ⟨filled cap (out ++ (List.range n).map fun b => D.getD (index + b * s + (b - grow)) 0),
        out.length + n, index + n * s + (n - grow), if n ≤ grow then s else s + 1⟩ := by
  induction n with
  | zero => simp
  | succ n ih =>
    have hlen : (out ++ (List.range n).map fun b => D.getD (index + b * s + (b - grow)) 0).length =
        out.length + n := by
      rw [List.length_append, List.length_map, List.length_range]
    have hset := set_filled cap (hlen.trans_lt (by omega)) (D.getD (index + n * s + (n - grow)) 0)
    rw [hlen] at hset
    rw [List.range_succ, List.foldl_append, ih (by omega), List.foldl_cons, List.foldl_nil,
      interleaveStep, List.map_append, List.map_singleton, ← List.append_assoc, ← hset]
    have hstride : (if n = grow then (if n ≤ grow then s else s + 1) + 1
        else if n ≤ grow then s else s + 1) = if n + 1 ≤ grow then s else s + 1 := by
      split_ifs <;> omega
    have hindex : index + n * s + (n - grow) + (if n + 1 ≤ grow then s else s + 1) =
        index + (n + 1) * s + (n + 1 - grow) := by
      rw [Nat.succ_mul]
      split
      · omega
      · omega
    simp only [hstride, hindex]
    rfl

/-- The codeword at a place of the dealing, found in the data, where the blocks are one after the
other. -/
def codewordAt (D : List UInt8) (a s : ℕ) (p : ℕ × ℕ) : UInt8 := D.getD (blockStart a s p.1 + p.2) 0

/-- The number of codewords that some rows have. -/
theorem length_rows (D : List UInt8) (a c s n : ℕ) :
    (((List.range n).flatMap fun i => (List.range (a + c)).map fun b => (b, i)).map
      (codewordAt D a s)).length = (a + c) * n := by
  rw [List.length_map, List.length_flatMap]
  simp only [List.length_map, List.length_range, List.map_const', List.sum_replicate, smul_eq_mul]
  ring

/-- The first loops write the rows that all blocks have, from the beginning of the array. -/
theorem interleaveShort_eq (D : List UInt8) (hroom : (a + c) * s ≤ cap) :
    interleaveShort D (a + c) a s (filled cap []) =
      (filled cap (((List.range s).flatMap fun i => (List.range (a + c)).map fun b => (b, i)).map
        (codewordAt D a s)), (a + c) * s) := by
  have hrun : ∀ n ≤ s, (List.range n).foldl (fun t i =>
      let t := (List.range (a + c)).foldl (interleaveStep D a) ⟨t.1, t.2, i, s⟩
      (t.result, t.offset)) (filled cap [], 0) =
        (filled cap (((List.range n).flatMap fun i => (List.range (a + c)).map fun b => (b, i)).map
          (codewordAt D a s)), (a + c) * n) := by
    intro n hn
    induction n with
    | zero => rfl
    | succ n ih =>
      have hlen := length_rows D a c s n
      set out := ((List.range n).flatMap fun i => (List.range (a + c)).map fun b => (b, i)).map
        (codewordAt D a s) with hout
      have hle : (a + c) * (n + 1) ≤ (a + c) * s := Nat.mul_le_mul_left _ hn
      rw [Nat.mul_succ] at hle
      have hrow := foldl_interleaveStep D out a n s (show out.length + (a + c) ≤ cap by omega)
      rw [List.range_succ, List.foldl_append, ih (by omega), List.foldl_cons, List.foldl_nil]
      dsimp only
      rw [← hlen, hrow]
      refine Prod.ext ?_ ?_
      · rw [List.flatMap_append, List.map_append, ← hout, List.flatMap_singleton, List.map_map]
        refine congrArg (fun row => filled cap (out ++ row)) (List.map_congr_left fun b _ => ?_)
        refine congrArg (D.getD · 0) ?_
        show n + b * s + (b - a) = b * s + (b - a) + n
        omega
      · dsimp only
        rw [hlen, Nat.mul_succ]
  exact hrun s le_rfl

/-- **The data codewords are dealt out**: both pairs of loops together write them in the order in
which a reader takes them back. -/
theorem interleaveLong_eq (D : List UInt8) (ha : 0 < a) (hroom : (blockLens a c s).sum ≤ cap) :
    interleaveLong D (a + c) a s (interleaveShort D (a + c) a s (filled cap [])) =
      (filled cap ((Reader.dealing (blockLens a c s)).map (codewordAt D a s)),
        (blockLens a c s).sum) := by
  rw [sum_blockLens] at hroom
  rw [interleaveShort_eq D (c := c) (by omega), interleaveLong, sum_blockLens, dealing_blockLens ha]
  have hlen := length_rows D a c s s
  set out := ((List.range s).flatMap fun i => (List.range (a + c)).map fun b => (b, i)).map
    (codewordAt D a s) with hout
  have hrow := foldl_interleaveStep D out 0 (s * (a + 1)) s (show out.length + c ≤ cap by omega)
  dsimp only
  rw [Nat.add_sub_cancel_left, ← hlen, hrow]
  refine Prod.ext ?_ rfl
  rw [List.map_append, ← hout, List.map_map]
  refine congrArg (fun row => filled cap (out ++ row)) (List.map_congr_left fun k _ => ?_)
  refine congrArg (D.getD · 0) ?_
  simp only [blockStart, Nat.sub_zero, Nat.add_sub_cancel_left]
  ring

/-! ### The codewords for error correction -/

/-- The data codewords of a block, which are next to each other in the data. -/
def blockData (D : List UInt8) (a s b len : ℕ) : List UInt8 := (D.drop (blockStart a s b)).take len

/-- What the loop has when `n` blocks are done: their remainders, zeros where those of the other
blocks will be, and everything in front as it was. -/
structure Corrected (D coeff front : List UInt8) (a c s cap n : ℕ) (result : List UInt8) :
    Prop where
  length : result.length = cap
  kept : ∀ q < front.length, result.getD q 0 = front.getD q 0
  done : ∀ b < n, lane coeff.length (a + c) (front.length + b) result =
    remainder (inField coeff) (inField (blockData D a s b ((blockLens a c s).getD b 0)))
  todo : ∀ b, n ≤ b → b < a + c → lane coeff.length (a + c) (front.length + b) result =
    List.replicate coeff.length 0

variable {coeff front result : List UInt8} {n : ℕ}

/-- The remainders are interleaved, so those of different blocks have no place in common. -/
theorem lane_ne {B b b' j j' base : ℕ} (hb : b < B) (hb' : b' < B) (hne : b ≠ b') :
    base + b + j * B ≠ base + b' + j' * B := by
  intro heq
  have hmod : (j * B + b) % B = (j' * B + b') % B := congrArg (· % B) (by omega)
  rw [Nat.mul_add_mod_of_lt hb, Nat.mul_add_mod_of_lt hb'] at hmod
  exact hne hmod

/-- **One more block**: its remainder is written between those of the others, and nothing else
is. -/
theorem Corrected.step (h : Corrected D coeff front a c s cap n result) (hn : n < a + c)
    (hcoeff : coeff ≠ []) (hroom : front.length + coeff.length * (a + c) ≤ cap) :
    Corrected D coeff front a c s cap (n + 1)
      (rsGetRemainder coeff.length coeff (blockData D a s n ((blockLens a c s).getD n 0)) result
        (front.length + n) (a + c)) := by
  have hpos := List.length_pos_iff.mpr hcoeff
  have hlast : front.length + n + (coeff.length - 1) * (a + c) < result.length := by
    obtain ⟨d, hd⟩ : ∃ d, coeff.length = d + 1 := ⟨coeff.length - 1, by omega⟩
    rw [hd, Nat.succ_mul] at hroom
    rw [h.length, hd, Nat.add_sub_cancel]
    omega
  have hother : ∀ b < a + c, b ≠ n → ∀ r data,
      lane coeff.length (a + c) (front.length + b)
        (rsGetRemainder coeff.length coeff data r (front.length + n) (a + c)) =
      lane coeff.length (a + c) (front.length + b) r := by
    intro b hb hne r data
    refine List.map_congr_left fun j _ => ?_
    rw [getD_rsGetRemainder (fun j' _ => lane_ne hn hb (Ne.symm hne)) hpos]
  refine ⟨length_rsGetRemainder.trans h.length, fun q hq => ?_, fun b hb => ?_, fun b hb hb' => ?_⟩
  · rw [getD_rsGetRemainder (fun j _ => by omega) hpos]
    exact h.kept q hq
  · rcases Nat.lt_succ_iff_lt_or_eq.mp hb with hb | rfl
    · rw [hother b (by omega) (by omega)]
      exact h.done b hb
    · rw [lane_rsGetRemainder hpos rfl (by omega) hlast, h.todo b le_rfl hn, remainder,
        length_inField]
  · rw [hother b hb' (by omega)]
    exact h.todo b (by omega) hb'

/-- The loop over the blocks, by induction on how many are done. The place in the data and the
length of the next block go with it. -/
theorem correctionStep_run (hcoeff : coeff ≠ []) (hfront : front.length = (blockLens a c s).sum)
    (hroom : front.length + coeff.length * (a + c) ≤ cap) :
    ∀ n ≤ a + c, ∃ result, Corrected D coeff front a c s cap n result ∧
      (List.range n).foldl (correctionStep D coeff coeff.length (a + c) a front.length)
        (filled cap front, 0, s) = (result, blockStart a s n, if n ≤ a then s else s + 1) := by
  intro n hn
  induction n with
  | zero =>
    refine ⟨filled cap front, ⟨?_, fun q hq => ?_, fun b hb => absurd hb (Nat.not_lt_zero b),
      fun b _ _ => ?_⟩, ?_⟩
    · rw [filled, List.length_append, List.length_replicate]
      omega
    · rw [filled, List.getD_append _ _ _ _ hq]
    · refine List.ext_getElem (by simp [lane]) fun j hj hj' => ?_
      have hzero : (filled cap front).getD (front.length + b + j * (a + c)) 0 = 0 := by
        rw [filled, List.getD_append_right _ _ _ _ (by omega), List.getD_eq_getElem?_getD,
          List.getElem?_replicate]
        split
        · rfl
        · rfl
      simp only [lane, List.getElem_map, List.getElem_range, List.getElem_replicate, hzero]
      rfl
    · simp [blockStart]
  | succ n ih =>
    obtain ⟨result, hresult, hfold⟩ := ih (by omega)
    refine ⟨_, hresult.step (by omega) hcoeff hroom, ?_⟩
    have hsize : (if n = a then (if n ≤ a then s else s + 1) + 1 else if n ≤ a then s else s + 1) =
        (blockLens a c s).getD n 0 := by
      rw [getD_blockLens (by omega)]
      split_ifs <;> omega
    have hstart : blockStart a s n + (blockLens a c s).getD n 0 = blockStart a s (n + 1) := by
      rw [getD_blockLens (by omega), blockStart, blockStart, Nat.succ_mul]
      split
      · omega
      · omega
    have hlast : (blockLens a c s).getD n 0 = if n + 1 ≤ a then s else s + 1 := by
      rw [getD_blockLens (by omega)]
      rfl
    rw [List.range_succ, List.foldl_append, hfold, List.foldl_cons, List.foldl_nil, correctionStep]
    dsimp only
    rw [hsize, hstart, ← hlast]
    rfl

/-! ### What a reader finds -/

/-- The bytes behind the data, dealt out again: they are interleaved like the data, with blocks of
one length. -/
theorem take_result {result : List UInt8} {total B E : ℕ} (hB : 0 < B)
    (hlen : total + E * B ≤ result.length) :
    (result.take (total + E * B)).drop total =
      (Reader.dealing (List.replicate B E)).map fun p => result.getD (total + p.1 + p.2 * B) 0 := by
  have hlens := replicate_eq_blockLens B E
  have hflat := BitString.flatMap_range_mul (fun i => result.getD (total + i) 0) B E
  rw [hlens, dealing_blockLens hB, List.range_zero, List.map_nil, List.append_nil, Nat.add_zero,
    List.map_flatMap]
  have hrows : ((List.range E).flatMap fun j => ((List.range B).map fun b => (b, j)).map
      fun p => result.getD (total + p.1 + p.2 * B) 0) =
        (List.range (E * B)).map fun i => result.getD (total + i) 0 := by
    rw [← hflat]
    refine List.flatMap_congr fun j _ => ?_
    rw [List.map_map]
    refine List.map_congr_left fun b _ => ?_
    exact congrArg (result.getD · 0) (by dsimp only; omega)
  rw [hrows]
  refine List.ext_getElem (by simp; omega) fun i hi hi' => ?_
  have hi' : i < E * B := by simpa using hi'
  rw [List.getElem_drop, List.getElem_take, List.getElem_map, List.getElem_range,
    List.getD_eq_getElem _ _ (by omega)]

/-- The codewords of a block by their places in it. -/
theorem map_blockData {D : List UInt8} {len : ℕ} (hD : blockStart a s b + len ≤ D.length) :
    (List.range len).map (fun i => codewordAt D a s (b, i)) = blockData D a s b len := by
  refine List.ext_getElem (by simp [blockData]; omega) fun i hi hi' => ?_
  have hi : i < len := by simpa using hi
  have hplace : blockStart a s b + i < D.length := by omega
  simp only [List.getElem_map, List.getElem_range, codewordAt, List.getD_eq_getElem _ _ hplace]
  simp [blockData]

/-- A block ends where the data end at the latest. -/
theorem blockStart_le (hb : b < a + c) :
    blockStart a s b + (blockLens a c s).getD b 0 ≤ (blockLens a c s).sum := by
  have hrow : (b + 1) * s ≤ (a + c) * s := Nat.mul_le_mul_right s hb
  rw [Nat.succ_mul] at hrow
  rw [getD_blockLens hb, sum_blockLens, blockStart]
  split
  · omega
  · omega

/-- The blocks one after the other are the data. -/
theorem flatMap_blockData (D : List UInt8) (a c s : ℕ) :
    ((List.range (a + c)).flatMap fun b => blockData D a s b ((blockLens a c s).getD b 0)) =
      D.take (blockLens a c s).sum := by
  have hrun : ∀ n ≤ a + c, ((List.range n).flatMap fun b =>
      blockData D a s b ((blockLens a c s).getD b 0)) = D.take (blockStart a s n) := by
    intro n hn
    induction n with
    | zero => simp [blockStart]
    | succ n ih =>
      have hstart : blockStart a s (n + 1) = blockStart a s n + (blockLens a c s).getD n 0 := by
        rw [getD_blockLens (by omega), blockStart, blockStart, Nat.succ_mul]
        split
        · omega
        · omega
      rw [List.range_succ, List.flatMap_append, ih (by omega), List.flatMap_singleton, hstart,
        List.take_add, blockData]
  have hsum : blockStart a s (a + c) = (blockLens a c s).sum := by
    rw [sum_blockLens, blockStart, Nat.add_sub_cancel_left]
  rw [hrun _ le_rfl, hsum]

/-! ### The function as a whole -/

/-- What the tables say about a version and a level: `a` short blocks with `s` data codewords each,
`c` long ones, and `E` codewords for error correction in each of them. -/
structure Layout (version ecc a c s E : ℕ) : Prop where
  numBlocks : (numErrorCorrectionBlocks.getD ecc []).getD (version - 1) 0 = a + c
  short : a + c - numRawDataModules.getD (version - 1) 0 / 8 % (a + c) = a
  blockEccLen : (numErrorCorrectionCodewords.getD ecc []).getD (version - 1) 0 / (a + c) = E
  data : numRawDataModules.getD (version - 1) 0 / 8 / (a + c) - E = s
  total : (blockLens a c s).sum + E * (a + c) = numRawDataModules.getD (version - 1) 0 / 8
  some_short : 0 < a
  some_ecc : 0 < E

variable {version ecc E : ℕ} {data : BitBucket}

/-- The codewords that are drawn: as many as the symbol has room for, from the front of the
array. -/
def drawnCodewords (version : ℕ) (data : BitBucket) : List UInt8 :=
  data.data.take (numRawDataModules.getD (version - 1) 0 / 8)

/-- After the function, the array has the remainders of all blocks behind the data that were dealt
out. -/
theorem Layout.corrected (h : Layout version ecc a c s E)
    (hcap : numRawDataModules.getD (version - 1) 0 / 8 ≤ data.capacityBytes) :
    Corrected data.data (rsInit E)
      ((Reader.dealing (blockLens a c s)).map (codewordAt data.data a s)) a c s data.capacityBytes
      (a + c) (performErrorCorrection version ecc data).data := by
  have hlen := length_rsInit h.some_ecc
  have hne : rsInit E ≠ [] := List.ne_nil_of_length_pos (by rw [hlen]; exact h.some_ecc)
  have hfront : ((Reader.dealing (blockLens a c s)).map (codewordAt data.data a s)).length =
      (blockLens a c s).sum := by
    rw [List.length_map, length_dealing h.some_short]
  have hroom : ((Reader.dealing (blockLens a c s)).map (codewordAt data.data a s)).length +
      (rsInit E).length * (a + c) ≤ data.capacityBytes := by
    rw [hfront, hlen, h.total]
    exact hcap
  obtain ⟨result, hresult, hfold⟩ := correctionStep_run (D := data.data) hne hfront hroom _ le_rfl
  have hzero : List.replicate data.capacityBytes 0 = filled data.capacityBytes [] := rfl
  have hdealt := interleaveLong_eq data.data h.some_short
    ((Nat.le_add_right _ _).trans (h.total.trans_le hcap))
  unfold performErrorCorrection
  dsimp only
  rw [h.numBlocks, h.short, h.blockEccLen, h.data, hzero, hdealt, ← hfront]
  rw [hlen] at hfold
  rw [hfold]
  exact hresult

/-- The codewords that are drawn: the data and the remainders, both dealt out. -/
theorem Layout.drawnCodewords_eq (h : Layout version ecc a c s E)
    (hcap : numRawDataModules.getD (version - 1) 0 / 8 ≤ data.capacityBytes) :
    drawnCodewords version (performErrorCorrection version ecc data) =
      (Reader.dealing (blockLens a c s)).map (codewordAt data.data a s) ++
        (Reader.dealing (List.replicate (a + c) E)).map fun p =>
          (performErrorCorrection version ecc data).data.getD
            ((blockLens a c s).sum + p.1 + p.2 * (a + c)) 0 := by
  have hdone := h.corrected hcap
  have hlen : (blockLens a c s).sum + E * (a + c) ≤
      (performErrorCorrection version ecc data).data.length := by
    rw [hdone.length, h.total]
    exact hcap
  have ha := h.some_short
  have hfront : (Reader.dealing (blockLens a c s)).length = (blockLens a c s).sum :=
    length_dealing ha
  rw [drawnCodewords, ← h.total, ← List.take_append_drop (blockLens a c s).sum
    ((performErrorCorrection version ecc data).data.take _), take_result (by omega) hlen]
  refine congrArg (· ++ _) (List.ext_getElem ?_ fun i hi hi' => ?_)
  · rw [List.length_take, List.length_take, List.length_map, hfront]
    omega
  · have hkept := hdone.kept i (by rwa [List.length_map] at hi' ⊢)
    rw [List.length_map, hfront] at hi'
    rw [List.getElem_take, List.getElem_take]
    rwa [List.getD_eq_getElem _ _ (by omega), List.getD_eq_getElem _ _ (by
      rw [List.length_map, hfront]
      exact hi')] at hkept

/-- A reader that deals the codewords out again gets the data of each block. -/
theorem Layout.blockOf_drawn (h : Layout version ecc a c s E)
    (hcap : numRawDataModules.getD (version - 1) 0 / 8 ≤ data.capacityBytes)
    (hdata : data.data.length = data.capacityBytes) {b : ℕ} (hb : b < a + c) :
    Reader.blockOf (blockLens a c s)
        (drawnCodewords version (performErrorCorrection version ecc data)) b =
      blockData data.data a s b ((blockLens a c s).getD b 0) := by
  have htotal := h.total
  have hstart := blockStart_le (s := s) hb
  rw [h.drawnCodewords_eq hcap, blockOf_dealing h.some_short hb, map_blockData (by omega)]

/-- **The data come back when the codewords are dealt out again** and the blocks put one after the
other. -/
theorem Layout.joinBlocks (h : Layout version ecc a c s E)
    (hcap : numRawDataModules.getD (version - 1) 0 / 8 ≤ data.capacityBytes)
    (hdata : data.data.length = data.capacityBytes) :
    Reader.joinBlocks (blockLens a c s)
        (drawnCodewords version (performErrorCorrection version ecc data)) =
      data.data.take (blockLens a c s).sum := by
  rw [Reader.joinBlocks, length_blockLens, ← flatMap_blockData]
  exact List.flatMap_congr fun b hb => h.blockOf_drawn hcap hdata (List.mem_range.mp hb)

/-- **Each block is a codeword** of the code with the roots `2⁰`, `2¹` and so on: its data with the
remainder of their division behind them. -/
theorem Layout.fullBlock (h : Layout version ecc a c s E)
    (hcap : numRawDataModules.getD (version - 1) 0 / 8 ≤ data.capacityBytes)
    (hdata : data.data.length = data.capacityBytes) {b : ℕ} (hb : b < a + c) :
    inField (Reader.fullBlock E (blockLens a c s)
        (drawnCodewords version (performErrorCorrection version ecc data)) b) =
      codeword (monicTail (roots E))
        (inField (blockData data.data a s b ((blockLens a c s).getD b 0))) := by
  have htotal := h.total
  have hstart := blockStart_le (s := s) hb
  have hremainder := (h.corrected hcap).done b hb
  have hlens := replicate_eq_blockLens (a + c) E
  have hdrop : (drawnCodewords version (performErrorCorrection version ecc data)).drop
      (blockLens a c s).sum = (Reader.dealing (blockLens (a + c) 0 E)).map (fun p =>
        (performErrorCorrection version ecc data).data.getD
          ((blockLens a c s).sum + p.1 + p.2 * (a + c)) 0) ++ [] := by
    rw [h.drawnCodewords_eq hcap, List.drop_left' (by
      rw [List.length_map, length_dealing h.some_short]), hlens, List.append_nil]
  have hneg : ∀ w : List GF256, w.map Neg.neg = w := fun w => List.map_id w
  rw [Reader.fullBlock, h.blockOf_drawn hcap hdata hb, length_blockLens, hlens, hdrop,
    blockOf_dealing (by omega) (by omega), getD_blockLens_zero hb, codeword,
    hneg, ← rsInit_eq h.some_ecc, ← hremainder, length_rsInit h.some_ecc, inField, inField, lane,
    List.map_append, List.map_map, List.length_map, length_dealing h.some_short]
  rfl

/-- Short blocks, long blocks, data codewords and codewords for error correction at the level L, for
the versions that the display uses. Only version 10 has blocks of two lengths. -/
def lowLayout : ℕ → ℕ × ℕ × ℕ × ℕ
  | 1 => (1, 0, 19, 7)
  | 2 => (1, 0, 34, 10)
  | 3 => (1, 0, 55, 15)
  | 4 => (1, 0, 80, 20)
  | 5 => (1, 0, 108, 26)
  | 6 => (2, 0, 68, 18)
  | 7 => (2, 0, 78, 20)
  | 8 => (2, 0, 97, 24)
  | 9 => (2, 0, 116, 30)
  | 10 => (2, 2, 68, 18)
  | 11 => (4, 0, 81, 20)
  | _ => (0, 0, 0, 0)

/-- The tables of the source say this, version by version. -/
theorem layout_low {v : ℕ} (h : v ∈ List.range' 1 11) :
    Layout v 1 (lowLayout v).1 (lowLayout v).2.1 (lowLayout v).2.2.1 (lowLayout v).2.2.2 := by
  constructor
  all_goals
    revert v
    decide

/-- The layouts are those of the standard, from which a reader knows how to deal the codewords
out. -/
theorem blockTable_eq : ∀ v ∈ List.range' 1 11, Reader.blockTable v =
    ((lowLayout v).2.2.2, blockLens (lowLayout v).1 (lowLayout v).2.1 (lowLayout v).2.2.1) := by
  decide

end Qr

end TollGate
