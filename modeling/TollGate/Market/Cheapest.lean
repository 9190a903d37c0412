import TollGate.Lib.Scan
import TollGate.Market.Beacon

/-!
# The cheapest gateway

`tollgate_core_market_find_cheapest` compares the prices of a market table after scaling them to a
minute or to a mebibyte. The product of a price and 1048576 has more bits than it is computed
with, so that a price counts modulo 4096, and the quotient is rounded down, so that unequal prices
become equal and the first slot wins.

`marketFindCheapest_eq` says which entry is found, in numbers without a bound, and
`market_cheapest_iff` when that is an entry whose price is the least as a rational number.
-/

namespace TollGate

namespace Market

/-! ### The source operations -/

/-- `eff`. -/
def MarketEntry.eff (e : MarketEntry) : UInt32 :=
  if e.metric = 0 then e.pricePerStep.toUInt32 * 60000 / e.stepSize
  else e.pricePerStep.toUInt32 * 1048576 / e.stepSize

/-- One turn of the loop: `cheapest` and `best_eff_price`. -/
def cheapestTurn (s : MarketState) (best : Option (Fin maxEntries) × UInt32)
    (i : Fin maxEntries) : Option (Fin maxEntries) × UInt32 :=
  if !(s.entries i).valid then best
  else if (s.entries i).ssid = [] then best
  else if (s.entries i).stepSize = 0 then best
  else if (s.entries i).eff < best.2 then (some i, (s.entries i).eff)
  else best

/-- `tollgate_core_market_find_cheapest`, with `none` for -1. -/
def marketFindCheapest (s : MarketState) : Option (Fin maxEntries) :=
  ((List.finRange maxEntries).foldl (cheapestTurn s) (none, 0xFFFFFFFF)).1

/-! ### What is to be found -/

/-- A valid entry with a name and a step. -/
def MarketEntry.eligible (e : MarketEntry) : Bool :=
  e.valid && (e.ssid ≠ [] && e.stepSize ≠ 0)

/-- The price of one unit. -/
def MarketEntry.price (e : MarketEntry) : ℚ := e.pricePerStep.toNat / e.stepSize.toNat

/-- No eligible entry is cheaper. -/
structure MarketState.Cheapest (s : MarketState) (i : Fin maxEntries) : Prop where
  eligible : (s.entries i).eligible = true
  least : ∀ j, (s.entries j).eligible = true → (s.entries i).price ≤ (s.entries j).price

/-- A cheapest entry is found, and nothing only where no entry is eligible. -/
def FindsCheapest (s : MarketState) : Prop :=
  match marketFindCheapest s with
  | some i => s.Cheapest i
  | none => ∀ j, (s.entries j).eligible = false

/-- The price of a minute or a mebibyte, rounded down; of a price for bytes twelve bits count. -/
def MarketEntry.scaledPrice (e : MarketEntry) : ℕ :=
  if e.metric = 0 then e.pricePerStep.toNat * 60000 / e.stepSize.toNat
  else e.pricePerStep.toNat % 4096 * 1048576 / e.stepSize.toNat

/-- The scaled price is lower, or it is the same and the slot comes first. -/
def MarketState.Ahead (s : MarketState) (i j : Fin maxEntries) : Prop :=
  (s.entries i).scaledPrice < (s.entries j).scaledPrice ∨
    (s.entries i).scaledPrice = (s.entries j).scaledPrice ∧ i < j

/-! ### The arithmetic of 32 bits -/

theorem toNat_eff (e : MarketEntry) : e.eff.toNat = e.scaledPrice := by
  have hprice : e.pricePerStep.toUInt32.toNat = e.pricePerStep.toNat := rfl
  have hlt : e.pricePerStep.toNat < 65536 := e.pricePerStep.toNat_lt
  unfold MarketEntry.eff MarketEntry.scaledPrice
  split_ifs
  · rw [UInt32.toNat_div, UInt32.toNat_mul, hprice]
    -- a price for milliseconds fits
    congr 1
    exact Nat.mod_eq_of_lt (show e.pricePerStep.toNat * 60000 < 2 ^ 32 by omega)
  · rw [UInt32.toNat_div, UInt32.toNat_mul, hprice]
    congr 1
    exact Nat.mul_mod_mul_right 1048576 e.pricePerStep.toNat 4096

/-- The first bound of the loop is not reached. -/
theorem scaledPrice_lt (e : MarketEntry) : e.scaledPrice < 4294967295 := by
  have hlt : e.pricePerStep.toNat < 65536 := e.pricePerStep.toNat_lt
  unfold MarketEntry.scaledPrice
  split_ifs
  · exact (Nat.div_le_self _ _).trans_lt (by omega)
  · exact (Nat.div_le_self _ _).trans_lt (by omega)

/-! ### The entry that is found -/

variable {s : MarketState}

/-- The eligible entries, in slot order. -/
def MarketState.eligibles (s : MarketState) : List (Fin maxEntries) :=
  (List.finRange maxEntries).filter fun i => (s.entries i).eligible

theorem mem_eligibles {i : Fin maxEntries} :
    i ∈ s.eligibles ↔ (s.entries i).eligible = true := by
  unfold MarketState.eligibles
  rw [List.mem_filter, and_iff_right (List.mem_finRange i)]

theorem sorted_eligibles : s.eligibles.Pairwise (· < ·) :=
  (List.pairwise_lt_finRange maxEntries).filter _

theorem cheapestTurn_of_not {i : Fin maxEntries} (h : ¬(s.entries i).eligible = true)
    (best : Option (Fin maxEntries) × UInt32) : cheapestTurn s best i = best := by
  unfold cheapestTurn
  refine ite_eq_left_iff.mpr fun hvalid => ite_eq_left_iff.mpr fun hssid =>
    ite_eq_left_iff.mpr fun hstep => absurd ?_ h
  simp [MarketEntry.eligible, hssid, hstep, not_not.mp (by simpa using hvalid)]

theorem cheapestTurn_of_eligible {i : Fin maxEntries} (h : (s.entries i).eligible = true)
    (best : Option (Fin maxEntries) × UInt32) :
    cheapestTurn s best i =
      if (s.entries i).eff < best.2 then (some i, (s.entries i).eff) else best := by
  obtain ⟨hvalid, hssid, hstep⟩ : (s.entries i).valid = true ∧ (s.entries i).ssid ≠ [] ∧
      (s.entries i).stepSize ≠ 0 := by simpa [MarketEntry.eligible] using h
  unfold cheapestTurn
  rw [if_neg (by simp [hvalid]), if_neg hssid, if_neg hstep]

/-- A turn in numbers without a bound. -/
theorem turn_eq_cheapestTurn (best : Option (Fin maxEntries) × UInt32) (i : Fin maxEntries) :
    Scan.turn (fun i => (s.entries i).scaledPrice) (fun i => (s.entries i).eligible)
        (best.1, best.2.toNat) i =
      ((cheapestTurn s best i).1, (cheapestTurn s best i).2.toNat) := by
  by_cases h : (s.entries i).eligible = true
  · rw [cheapestTurn_of_eligible h]
    show (if (s.entries i).eligible = true ∧ (s.entries i).scaledPrice < best.2.toNat then _
      else _) = _
    by_cases hlt : (s.entries i).eff < best.2
    · rw [if_pos hlt, if_pos ⟨h, toNat_eff _ ▸ UInt32.lt_iff_toNat_lt.mp hlt⟩, toNat_eff]
    · rw [if_neg hlt, if_neg fun hand => hlt (UInt32.lt_iff_toNat_lt.mpr (toNat_eff _ ▸ hand.2))]
  · rw [cheapestTurn_of_not h]
    exact Scan.turn_of_fail (fun i => (s.entries i).scaledPrice) (fun i => (s.entries i).eligible)
      h _

theorem marketFindCheapest_eq (s : MarketState) :
    marketFindCheapest s = s.eligibles.argmin fun i => (s.entries i).scaledPrice := by
  have hbound : ∀ i ∈ List.finRange maxEntries, (s.entries i).eligible = true →
      (s.entries i).scaledPrice < 4294967295 := fun i _ _ => scaledPrice_lt _
  let nat (best : Option (Fin maxEntries) × UInt32) := (best.1, best.2.toNat)
  -- the loop in numbers without a bound is a scan
  have hnat : (List.finRange maxEntries).foldl (Scan.turn (fun i => (s.entries i).scaledPrice)
      fun i => (s.entries i).eligible) (nat (none, 0xFFFFFFFF)) =
      nat ((List.finRange maxEntries).foldl (cheapestTurn s) (none, 0xFFFFFFFF)) :=
    List.foldl_hom nat turn_eq_cheapestTurn
  calc marketFindCheapest s = (nat ((List.finRange maxEntries).foldl (cheapestTurn s)
        (none, 0xFFFFFFFF))).1 := rfl
    _ = _ := congrArg Prod.fst hnat.symm
    _ = _ := Scan.scan_eq_argmin _ _ hbound

/-- Nothing is found exactly if no entry is eligible. -/
theorem marketFindCheapest_eq_none_iff :
    marketFindCheapest s = none ↔ ∀ j, (s.entries j).eligible = false := by
  rw [marketFindCheapest_eq, List.argmin_eq_none, List.eq_nil_iff_forall_not_mem]
  simp only [mem_eligibles, Bool.not_eq_true]

/-- The entry that is found is ahead of all other eligible ones. -/
theorem ahead_of_found {i j : Fin maxEntries} (hfind : marketFindCheapest s = some i)
    (hj : (s.entries j).eligible = true) (hne : j ≠ i) : s.Ahead i j := by
  rw [marketFindCheapest_eq] at hfind
  have hmem : j ∈ s.eligibles := mem_eligibles.mpr hj
  have hle : (s.entries i).scaledPrice ≤ (s.entries j).scaledPrice :=
    List.le_of_mem_argmin (f := fun i => (s.entries i).scaledPrice) hmem hfind
  refine hle.lt_or_eq.imp_right fun heq => ⟨heq, lt_of_le_of_ne ?_ hne.symm⟩
  exact Scan.argmin_le_of_sorted sorted_eligibles hfind hmem heq.ge

theorem eligible_of_found {i : Fin maxEntries} (hfind : marketFindCheapest s = some i) :
    (s.entries i).eligible = true :=
  mem_eligibles.mp (List.argmin_mem (marketFindCheapest_eq s ▸ hfind))

theorem MarketState.Ahead.asymm {i j : Fin maxEntries} (h : s.Ahead i j) : ¬s.Ahead j i := by
  rintro (hlt | ⟨heq, hij⟩)
  · rcases h with hlt' | ⟨heq, -⟩
    · exact lt_asymm hlt hlt'
    · exact hlt.ne' heq
  · rcases h with hlt | ⟨-, hij'⟩
    · exact hlt.ne' heq
    · exact lt_asymm hij hij'

/-- **Cheapest is cheapest** exactly if every eligible entry that is dearer than another one comes
after one that is really the cheapest, in the order of the scaled prices and of the slots. -/
theorem market_cheapest_iff (s : MarketState) :
    FindsCheapest s ↔ ∀ j, (s.entries j).eligible = true → ¬s.Cheapest j →
      ∃ i, s.Cheapest i ∧ s.Ahead i j := by
  unfold FindsCheapest
  cases hfind : marketFindCheapest s with
  | none =>
    have hnone := marketFindCheapest_eq_none_iff.mp hfind
    exact iff_of_true hnone fun j hj => absurd hj (by simp [hnone j])
  | some i =>
    refine ⟨fun hcheapest j hj hdear => ⟨i, hcheapest, ?_⟩, fun h => ?_⟩
    · refine ahead_of_found hfind hj ?_
      rintro rfl
      exact hdear hcheapest
    · -- were it dearer, one that is ahead of it would have been found
      by_contra hdear
      obtain ⟨k, hk, hahead⟩ := h i (eligible_of_found hfind) hdear
      have hne : k ≠ i := by
        rintro rfl
        exact hdear hk
      exact hahead.asymm (ahead_of_found hfind hk.eligible hne)

/-- A gateway that sells a mebibyte at this price. -/
def sellsMebibytes (slot : UInt8) (price : UInt16) : MarketEntry where
  bssid := #v[2, 0, 0, 0, 0, slot]
  ssid := cstr "TollGate"
  rssi := -45
  pricePerStep := price
  stepSize := 1048576
  metric := 1
  mintHash := Vector.replicate 4 0
  npubHash := Vector.replicate 4 0
  geohash := []
  discoveredMs := 1000
  valid := true

/-- Two of them. -/
def twoSellers (price price' : UInt16) : MarketState where
  entries i :=
    if i.val = 0 then sellsMebibytes 0 price
    else if i.val = 1 then sellsMebibytes 1 price'
    else quietMarket.entries i
  count := 2

/-- A table whose eligible entries sell in one metric. -/
def MarketState.OneMetric (s : MarketState) : Prop :=
  ∀ i j, (s.entries i).eligible = true → (s.entries j).eligible = true →
    (s.entries i).metric = (s.entries j).metric

theorem found_twoSellers : marketFindCheapest (twoSellers 21 4096) = some 1 := by decide

/-- Of the prices 21 and 4096 the second is found. -/
theorem market_cheapest_wraps :
    (twoSellers 21 4096).OneMetric ∧ ¬FindsCheapest (twoSellers 21 4096) := by
  refine ⟨?_, fun hfinds => ?_⟩
  · unfold MarketState.OneMetric
    decide
  · unfold FindsCheapest at hfinds
    rw [found_twoSellers] at hfinds
    have hle : (4096 : ℚ) / 1048576 ≤ 21 / 1048576 := hfinds.least 0 rfl
    norm_num at hle

end Market

end TollGate
