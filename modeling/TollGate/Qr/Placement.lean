import Mathlib
import TollGate.Qr.Patterns

/-!
# The codewords in the symbol

`drawCodewords` goes through the columns in pairs, upwards and downwards in turn, and gives the next
bit to each module that no function pattern has. The order is the one a reader follows
(`zigzag_eq`), no module comes twice (`nodup_scanOrder`), and the modules that are left are as many
as the table of the source says (`length_dataPlaces`). So a reader finds the bits again
(`map_paint_zip`).
-/

namespace TollGate

namespace Qr

open BitString

/-- The right columns of the pairs, `right -= 2` from the right edge on, with `5` in place of `6`,
where the column of the timing pattern is. -/
def rightColumns (right : ℕ) : List ℕ :=
  if h : 1 ≤ right then
    let r := if right = 6 then 5 else right
    r :: rightColumns (r - 2)
  else []
termination_by right
decreasing_by
  split
  · omega
  · omega

/-- The modules in the order of the loops: pairs of columns from the right, each followed upwards or
downwards, and in each row the right module first. -/
def zigzag (size : ℕ) : List Place :=
  (rightColumns (size - 1)).flatMap fun right =>
    (List.range size).flatMap fun vert =>
      (List.range 2).map fun j =>
        let x := right - j
        let upwards := xor (right &&& 2 == 0) (decide (x < 6))
        (x, if upwards then size - 1 - vert else vert)

/-- The body of the loops of `drawCodewords`: the grid, and the index into the data. A reserved
module is skipped, and so are those behind the last bit. -/
def placeBit (isFunction codewords : BitBucket) (s : BitBucket × ℕ) (p : Place) : BitBucket × ℕ :=
  if !bbGetBit isFunction p.1 p.2 && decide (s.2 < codewords.bitOffsetOrWidth) then
    (bbSetBit s.1 p.1 p.2 (bitAt codewords.data s.2), s.2 + 1)
  else s

/-- The bits of the codewords in the modules that are free, in the order of the loops. -/
def drawCodewords (c : Canvas) (codewords : BitBucket) : Canvas :=
  { c with
    modules := ((zigzag c.modules.bitOffsetOrWidth).foldl (placeBit c.isFunction codewords)
      (c.modules, 0)).1 }

/-! ### The order -/

/-- The columns by their number, as a reader has them, for symbols of an odd size. -/
theorem rightColumns_even (m : ℕ) (h : 3 ≤ m) :
    rightColumns (2 * m) = (List.range m).map (Reader.rightColumn (2 * m + 1)) := by
  induction m, h using Nat.le_induction with
  | base => simp [rightColumns, Reader.rightColumn, List.range_succ]
  | succ m hm ih =>
    have hne : 2 * (m + 1) ≠ 6 := by omega
    rw [rightColumns, dif_pos (by omega)]
    simp only [if_neg hne]
    rw [show 2 * (m + 1) - 2 = 2 * m by omega, ih, List.range_succ_eq_map, List.map_cons,
      List.map_map]
    refine congrArg₂ _ ?_ (List.map_congr_left fun k _ => ?_)
    · unfold Reader.rightColumn
      split
      · omega
      · omega
    · simp only [Reader.rightColumn, Function.comp_apply]
      split
      · split
        · omega
        · omega
      · split
        · omega
        · omega

/-- The test of the source for the direction, by a bit of the column, as a statement about its
half. -/
theorem and_two_eq_zero (n : ℕ) : (n &&& 2 == 0) = decide (n / 2 % 2 = 0) := by
  have hand : n &&& 2 = (n.testBit 1).toNat * 2 := Nat.and_two_pow n 1
  rw [hand, Nat.testBit_eq_decide_div_mod_eq, pow_one]
  rcases Nat.mod_two_eq_zero_or_one (n / 2) with hbit | hbit
  · simp [hbit]
  · simp [hbit]

/-- The direction alternates: the left half has it the other way round, which makes up for the
column that is left out. -/
theorem upwards_eq (version : ℕ) {k j : ℕ} (hk : k < 2 * version + 8) (hj : j < 2) :
    xor (Reader.rightColumn (Reader.sizeOf version) k &&& 2 == 0)
      (decide (Reader.rightColumn (Reader.sizeOf version) k - j < 6)) = decide (k % 2 = 0) := by
  have hsize : Reader.sizeOf version = 4 * version + 17 := rfl
  rw [and_two_eq_zero, Reader.rightColumn, hsize]
  by_cases hleft : 4 * version + 17 - 1 - 2 * k ≤ 6
  · rw [if_pos hleft, decide_eq_true (by omega : 4 * version + 17 - 2 - 2 * k - j < 6),
      Bool.xor_true,
      ← decide_not]
    exact decide_eq_decide.mpr (by omega)
  · rw [if_neg hleft, decide_eq_false (by omega : ¬4 * version + 17 - 1 - 2 * k - j < 6),
      Bool.xor_false]
    exact decide_eq_decide.mpr (by omega)

/-- **The modules come in the order of a reader.** -/
theorem zigzag_eq (version : ℕ) :
    zigzag (Reader.sizeOf version) = Reader.scanOrder (Reader.sizeOf version) := by
  have hpairs : (Reader.sizeOf version - 1) / 2 = 2 * version + 8 := by
    rw [Reader.sizeOf]
    omega
  have hright : rightColumns (Reader.sizeOf version - 1) =
      (List.range (2 * version + 8)).map (Reader.rightColumn (Reader.sizeOf version)) := by
    have heven := rightColumns_even (2 * version + 8) (by omega)
    have hsize : 2 * (2 * version + 8) + 1 = Reader.sizeOf version := by
      rw [Reader.sizeOf]
      omega
    rwa [← hsize]
  rw [zigzag, Reader.scanOrder, hright, hpairs, List.flatMap_map]
  refine List.flatMap_congr fun k hk => List.flatMap_congr fun vert _ => ?_
  have hk := List.mem_range.mp hk
  have h0 := upwards_eq version hk (j := 0) (by omega)
  have h1 := upwards_eq version hk (j := 1) (by omega)
  rw [Nat.sub_zero] at h0
  simp only [List.range_succ, List.range_zero, List.nil_append, List.map_cons, List.map_nil,
    List.cons_append, h0, h1, decide_eq_true_eq, Nat.sub_zero]

/-- No module comes twice. -/
theorem nodup_scanOrder (version : ℕ) : (Reader.scanOrder (Reader.sizeOf version)).Nodup := by
  have hsize : Reader.sizeOf version = 4 * version + 17 := rfl
  rw [Reader.scanOrder, List.nodup_flatMap]
  constructor
  · intro k hk
    have hk := List.mem_range.mp hk
    have hright : 1 ≤ Reader.rightColumn (Reader.sizeOf version) k := by
      rw [Reader.rightColumn]
      split
      · omega
      · omega
    rw [List.nodup_flatMap]
    constructor
    · intro vert _
      refine List.nodup_cons.mpr ⟨fun hmem => ?_, List.nodup_singleton _⟩
      have hcol := congrArg Prod.fst (List.mem_singleton.mp hmem)
      dsimp only at hcol
      omega
    · -- another row
      refine List.pairwise_lt_range.imp_of_mem fun {i j} hi hj hlt p hp hp' => ?_
      have hi := List.mem_range.mp hi
      have hj := List.mem_range.mp hj
      have hrow : ∀ {vert}, p ∈ [(Reader.rightColumn (Reader.sizeOf version) k, vert),
          (Reader.rightColumn (Reader.sizeOf version) k - 1, vert)] → p.2 = vert := by
        intro vert hmem
        rcases List.mem_cons.mp hmem with rfl | hmem
        · rfl
        · rw [List.mem_singleton.mp hmem]
      have h1 := hrow hp
      have h2 := hrow hp'
      split at h1
      · rw [if_pos ‹_›] at h2
        omega
      · rw [if_neg ‹_›] at h2
        omega
  · -- other columns
    refine List.pairwise_lt_range.imp_of_mem fun {k l} hk hl hlt p hp hp' => ?_
    have hcol : ∀ {k}, (p ∈ (List.range (Reader.sizeOf version)).flatMap fun vert =>
        let row := if k % 2 = 0 then Reader.sizeOf version - 1 - vert else vert
        [(Reader.rightColumn (Reader.sizeOf version) k, row),
          (Reader.rightColumn (Reader.sizeOf version) k - 1, row)]) →
        p.1 = Reader.rightColumn (Reader.sizeOf version) k ∨
          p.1 = Reader.rightColumn (Reader.sizeOf version) k - 1 := by
      intro k hmem
      obtain ⟨vert, _, hmem⟩ := List.mem_flatMap.mp hmem
      rcases List.mem_cons.mp hmem with rfl | hmem
      · exact Or.inl rfl
      · rw [List.mem_singleton.mp hmem]
        exact Or.inr rfl
    have hk := List.mem_range.mp hk
    have hl := List.mem_range.mp hl
    have h1 := hcol hp
    have h2 := hcol hp'
    unfold Reader.rightColumn at h1 h2
    split at h1
    · rw [if_pos (by omega)] at h2
      omega
    · split at h2
      · omega
      · omega

/-- All modules that come are inside of the symbol. -/
theorem mem_scanOrder_lt {version : ℕ} {p : Place}
    (h : p ∈ Reader.scanOrder (Reader.sizeOf version)) :
    p.1 < Reader.sizeOf version ∧ p.2 < Reader.sizeOf version := by
  have hsize : Reader.sizeOf version = 4 * version + 17 := rfl
  obtain ⟨k, hk, h⟩ := List.mem_flatMap.mp h
  obtain ⟨vert, hvert, h⟩ := List.mem_flatMap.mp h
  have hk := List.mem_range.mp hk
  have hvert := List.mem_range.mp hvert
  have hright : Reader.rightColumn (Reader.sizeOf version) k < Reader.sizeOf version := by
    rw [Reader.rightColumn]
    split
    · omega
    · omega
  have hrow : (if k % 2 = 0 then Reader.sizeOf version - 1 - vert else vert) <
      Reader.sizeOf version := by
    split
    · omega
    · omega
  rcases List.mem_cons.mp h with rfl | h
  · exact ⟨hright, hrow⟩
  · rw [List.mem_singleton.mp h]
    exact ⟨by dsimp only; omega, hrow⟩

/-! ### The bits -/

variable {size : ℕ} {f φ : Picture}

/-- What is left of the bits goes to the modules that are free, in their order, by induction on the
modules that are still to come. -/
theorem foldl_placeBit {isFunction : BitBucket} (hφ : isFunction.Shows size φ)
    (codewords : BitBucket) (ps : List Place) (hps : ∀ p ∈ ps, p.1 < size ∧ p.2 < size)
    {modules : BitBucket} {f : Picture}
    (h : modules.Shows size f) (i : ℕ) :
    (ps.foldl (placeBit isFunction codewords) (modules, i)).1.Shows size
      (paint f ((ps.filter fun p => !φ p).zip
        (((List.range codewords.bitOffsetOrWidth).map (bitAt codewords.data)).drop i))) := by
  induction ps generalizing modules f i with
  | nil => exact h
  | cons p ps ih =>
    obtain ⟨hx, hy⟩ := hps p List.mem_cons_self
    have hrest := fun q hq => hps q (List.mem_cons_of_mem _ hq)
    have hbit : bbGetBit isFunction p.1 p.2 = φ p := hφ.bits p.1 hx p.2 hy
    rw [List.foldl_cons]
    by_cases hfree : φ p = true
    · have hstep : placeBit isFunction codewords (modules, i) p = (modules, i) := by
        simp [placeBit, hbit, hfree]
      rw [hstep, List.filter_cons_of_neg (by simp [hfree])]
      exact ih hrest h i
    · rw [Bool.not_eq_true] at hfree
      rw [List.filter_cons_of_pos (by simp [hfree])]
      by_cases hlt : i < codewords.bitOffsetOrWidth
      · have hstep : placeBit isFunction codewords (modules, i) p =
            (bbSetBit modules p.1 p.2 (bitAt codewords.data i), i + 1) := by
          simp [placeBit, hbit, hfree, hlt]
        have hdrop : ((List.range codewords.bitOffsetOrWidth).map (bitAt codewords.data)).drop i =
            bitAt codewords.data i ::
              ((List.range codewords.bitOffsetOrWidth).map (bitAt codewords.data)).drop
                (i + 1) := by
          rw [List.drop_eq_getElem_cons (by simpa using hlt), List.getElem_map, List.getElem_range]
        rw [hstep, hdrop, List.zip_cons_cons, paint_cons]
        exact ih hrest (h.setBit hx hy _) (i + 1)
      · have hstep : placeBit isFunction codewords (modules, i) p = (modules, i) := by
          simp [placeBit, hlt]
        have hdrop : ((List.range codewords.bitOffsetOrWidth).map (bitAt codewords.data)).drop i =
            [] := List.drop_eq_nil_of_le (by simpa using hlt)
        have hdone := ih hrest h i
        rw [hdrop, List.zip_nil_right] at hdone
        rwa [hstep, hdrop, List.zip_nil_right]

/-- The picture of a symbol with its bits: each module that is free for data has its bit, as far as
there are bits. -/
theorem Canvas.Shows.drawCodewords {c : Canvas} {version : ℕ}
    (h : c.Shows (Reader.sizeOf version) f (Reader.reserved version)) (codewords : BitBucket) :
    (drawCodewords c codewords).Shows (Reader.sizeOf version)
      (paint f ((Reader.dataPlaces version).zip
        ((List.range codewords.bitOffsetOrWidth).map (bitAt codewords.data))))
      (Reader.reserved version) := by
  refine ⟨?_, h.isFunction⟩
  have hrun := foldl_placeBit h.isFunction codewords
    (Reader.scanOrder (Reader.sizeOf version)) (fun p hp => mem_scanOrder_lt hp) h.modules 0
  rw [List.drop_zero] at hrun
  rw [Qr.drawCodewords, h.modules.width, zigzag_eq]
  exact hrun

/-- No module with data comes twice. -/
theorem nodup_dataPlaces (version : ℕ) : (Reader.dataPlaces version).Nodup :=
  (nodup_scanOrder version).filter _

/-- **The bits are read where they were placed**, since no module has two of them. -/
theorem map_paint_zip {ps : List Place} (hnodup : ps.Nodup) {bits : List Bool}
    (hlen : ps.length = bits.length) (f : Picture) : ps.map (paint f (ps.zip bits)) = bits := by
  refine List.ext_getElem (by rw [List.length_map, hlen]) fun i hi hi' => ?_
  have hp : i < ps.length := by rwa [List.length_map] at hi
  rw [List.getElem_map]
  refine paint_of_mem ?_ ?_
  · rwa [List.map_fst_zip hlen.le]
  · have hzip : i < (ps.zip bits).length := by
      rw [List.length_zip, ← hlen, min_self]
      exact hp
    have hget := List.getElem_mem hzip
    rwa [List.getElem_zip] at hget

end Qr

end TollGate
