import TollGate.Lib.Run
import TollGate.Lib.Scan
import TollGate.Lib.Slots
import TollGate.Market.Beacon

/-!
# The market table

`tollgate_core_market_parse_ie` puts what a beacon says into a table of ten entries, one for each
BSSID, and `tollgate_core_market_update_ssid` adds the name of the network when a scan has seen
it. The number of valid entries is kept in a counter beside the table.

`MarketState.WellFormed` is what every run keeps: the BSSIDs of the valid entries are distinct and
the counter is right. A new sender takes a free slot, and in a full table that of the entry that
was heard first (`PlaceFor`); the clock may jump and readings may be equal. `market_table` puts
the two together for every run.
-/

namespace TollGate

namespace Market

open StepRun

/-! ### The source operations -/

/-- `tollgate_core_market_update_ssid`; its loop is that of `find_entry_by_bssid`. -/
def marketUpdateSsid (s : MarketState) (bssid : Vector UInt8 6) (ssid : Vector UInt8 32)
    (rssi : Int8) : MarketState :=
  match findEntryByBssid s bssid with
  | some i =>
    let entry := { s.entries i with ssid := ssid.toList.takeWhile (· ≠ 0), rssi := rssi }
    { s with entries := Function.update s.entries i entry }
  | none => s

/-- What changes the table: an element that is heard, with the reading of the clock, and a network
that a scan has seen. -/
inductive MarketOp where
  | parseIe (sa : Vector UInt8 6) (ie : Option VendorIe) (rssi : Int32)
      (selfNpubHash : Option (Vector UInt8 4)) (nowMs : Int64)
  | updateSsid (bssid : Vector UInt8 6) (ssid : Vector UInt8 32) (rssi : Int8)

/-- One call. -/
def marketStep (s : MarketState) : MarketOp → MarketState
  | .parseIe sa ie rssi selfNpubHash nowMs => marketParseIe s sa ie rssi selfNpubHash nowMs
  | .updateSsid bssid ssid rssi => marketUpdateSsid s bssid ssid rssi

/-! ### What the table is to be -/

/-- The number of valid entries. -/
def MarketState.validCount (s : MarketState) : ℕ :=
  (Finset.univ.filter fun i => (s.entries i).valid = true).card

/-- There is a valid entry with this BSSID. -/
def MarketState.Knows (s : MarketState) (bssid : Vector UInt8 6) : Prop :=
  ∃ i, (s.entries i).valid = true ∧ (s.entries i).bssid = bssid

/-- One entry for each BSSID, and a counter that is right. -/
structure MarketState.WellFormed (s : MarketState) : Prop where
  distinct : ∀ i j, (s.entries i).valid = true → (s.entries j).valid = true →
    (s.entries i).bssid = (s.entries j).bssid → i = j
  count : s.count = s.validCount
  bounded : s.count ≤ maxEntries

/-- An element is accepted: it is a price of this version, and not the receiver's own. -/
structure Accepts (ie : VendorIe) (selfNpubHash : Option (Vector UInt8 4)) : Prop where
  length : payloadSize ≤ ie.payloadLen
  oui : ie.vendorOui = tollgateOui
  type : ie.vendorOuiType = 0x01
  version : (PricePayload.ofBytes ie.payload).version = 1
  foreign : selfNpubHash ≠ some (PricePayload.ofBytes ie.payload).npubHash

/-- The slot for a sender: its own, for a new one a free slot, and without a free slot that of
the entry that was heard first. -/
inductive PlaceFor (s : MarketState) (sa : Vector UInt8 6) (i : Fin maxEntries) : Prop
  | own (hvalid : (s.entries i).valid = true) (hbssid : (s.entries i).bssid = sa)
  | free (hnew : ¬s.Knows sa) (hfree : (s.entries i).valid = false)
  | oldest (hnew : ¬s.Knows sa) (hfull : ∀ j, (s.entries j).valid = true)
      (hleast : ∀ j, (s.entries i).discoveredMs ≤ (s.entries j).discoveredMs)

/-! ### The slot that is found -/

variable {s : MarketState} {sa : Vector UInt8 6} {i : Fin maxEntries}

theorem findEntryByBssid_some (h : findEntryByBssid s sa = some i) :
    (s.entries i).valid = true ∧ (s.entries i).bssid = sa := by
  simpa using Fin.eq_true_of_find?_eq_some h

theorem findEntryByBssid_none (h : findEntryByBssid s sa = none) : ¬s.Knows sa := by
  rintro ⟨i, hvalid, hbssid⟩
  have hnot := Fin.eq_false_of_find?_eq_none h i
  rw [hvalid, hbssid, beq_self_eq_true] at hnot
  exact absurd hnot (by decide)

/-- The scan of a full table. -/
theorem findFreeSlot_oldest (hfull : ∀ j, (s.entries j).valid = true) (j : Fin maxEntries) :
    (s.entries (findFreeSlot s)).discoveredMs ≤ (s.entries j).discoveredMs := by
  have hnone : (Fin.find? fun i => !(s.entries i).valid) = none :=
    Fin.find?_eq_none_iff.mpr fun i => by rw [hfull i]; rfl
  have hscan : findFreeSlot s = (List.finRange maxEntries).tail.foldl
      (Scan.better fun i => (s.entries i).discoveredMs.toInt) ⟨0, maxEntries_pos⟩ := by
    unfold findFreeSlot
    rw [hnone]
    dsimp only
    congr 1
    funext oldest i
    exact if_congr Int64.lt_iff_toInt_lt rfl rfl
  rw [Int64.le_iff_toInt_le, hscan]
  -- the first slot is the first candidate
  exact Scan.foldl_better_le (fun i => (s.entries i).discoveredMs.toInt) (List.mem_finRange j)

theorem findFreeSlot_place (hnew : ¬s.Knows sa) : PlaceFor s sa (findFreeSlot s) := by
  cases hfind : Fin.find? fun i => !(s.entries i).valid with
  | some i =>
    have hslot : findFreeSlot s = i := by
      unfold findFreeSlot
      rw [hfind]
    have hfree := Fin.eq_true_of_find?_eq_some hfind
    rw [hslot]
    exact .free hnew (by simpa using hfree)
  | none =>
    have hfull : ∀ j, (s.entries j).valid = true := fun j => by
      simpa using Fin.eq_false_of_find?_eq_none hfind j
    exact .oldest hnew hfull (findFreeSlot_oldest hfull)

/-! ### What a write does to the counter -/

/-- The valid entries in their slots. -/
def MarketState.live (s : MarketState) : Slots MarketEntry maxEntries := fun i =>
  if (s.entries i).valid = true then some (s.entries i) else none

theorem validCount_eq_used (s : MarketState) : s.validCount = s.live.used := by
  unfold MarketState.validCount Slots.used
  refine congrArg Finset.card (Finset.filter_congr fun i _ => ?_)
  by_cases hvalid : (s.entries i).valid = true <;> simp [MarketState.live, hvalid]

variable {e : MarketEntry} {n : ℕ}

theorem live_update (he : e.valid = true) :
    MarketState.live ⟨Function.update s.entries i e, n⟩ = s.live.put i e := by
  funext j
  by_cases hji : j = i
  · subst hji
    simp [MarketState.live, Slots.put, he]
  · simp [MarketState.live, Slots.put, hji]

theorem validCount_replace (hvalid : (s.entries i).valid = true) (he : e.valid = true) :
    MarketState.validCount ⟨Function.update s.entries i e, n⟩ = s.validCount := by
  rw [validCount_eq_used, validCount_eq_used, live_update he]
  exact Slots.used_put_of_some (if_pos hvalid)

theorem validCount_fill (hfree : (s.entries i).valid = false) (he : e.valid = true) :
    MarketState.validCount ⟨Function.update s.entries i e, n⟩ = s.validCount + 1 := by
  rw [validCount_eq_used, validCount_eq_used, live_update he]
  exact Slots.used_put (if_neg (by simp [hfree]))

theorem validCount_le (s : MarketState) : s.validCount ≤ maxEntries :=
  validCount_eq_used s ▸ Slots.used_le

theorem validCount_full (hfull : ∀ j, (s.entries j).valid = true) : s.validCount = maxEntries := by
  unfold MarketState.validCount
  rw [Finset.filter_true_of_mem fun i _ => hfull i, Finset.card_fin]

/-! ### What a write keeps -/

/-- No other entry has the BSSID that is written. -/
theorem distinct_update (h : s.WellFormed)
    (hother : ∀ j, j ≠ i → (s.entries j).valid = true → (s.entries j).bssid ≠ e.bssid) :
    ∀ j k, (Function.update s.entries i e j).valid = true →
      (Function.update s.entries i e k).valid = true →
      (Function.update s.entries i e j).bssid = (Function.update s.entries i e k).bssid →
      j = k := by
  intro j k hj hk heq
  by_cases hji : j = i
  · subst hji
    by_contra hjk
    rw [Function.update_of_ne (Ne.symm hjk)] at hk heq
    rw [Function.update_self] at heq
    exact hother k (Ne.symm hjk) hk heq.symm
  · rw [Function.update_of_ne hji] at hj heq
    by_cases hki : k = i
    · subst hki
      rw [Function.update_self] at heq
      exact absurd heq (hother j hji hj)
    · rw [Function.update_of_ne hki] at hk heq
      exact h.distinct j k hj hk heq

/-- An entry is written over a valid one, with its BSSID or one that no entry has. -/
theorem MarketState.WellFormed.replace (h : s.WellFormed) (hvalid : (s.entries i).valid = true)
    (he : e.valid = true) (hkey : (s.entries i).bssid = e.bssid ∨ ¬s.Knows e.bssid) :
    MarketState.WellFormed ⟨Function.update s.entries i e, s.count⟩ := by
  refine ⟨distinct_update h ?_, h.count.trans (validCount_replace hvalid he).symm, h.bounded⟩
  intro j hji hj heq
  rcases hkey with hsame | hnew
  · exact hji (h.distinct j i hj hvalid (heq.trans hsame.symm))
  · exact hnew ⟨j, hj, heq⟩

/-- An entry with a new BSSID is written to a free slot. -/
theorem MarketState.WellFormed.fill (h : s.WellFormed) (hfree : (s.entries i).valid = false)
    (he : e.valid = true) (hnew : ¬s.Knows e.bssid) :
    MarketState.WellFormed ⟨Function.update s.entries i e, s.count + 1⟩ := by
  have hcount : s.count + 1 =
      MarketState.validCount ⟨Function.update s.entries i e, s.count + 1⟩ := by
    rw [validCount_fill hfree he, h.count]
  refine ⟨distinct_update h ?_, hcount, hcount.trans_le (validCount_le _)⟩
  intro j _ hj heq
  exact hnew ⟨j, hj, heq⟩

/-! ### What an element does -/

section Element

variable {ie : VendorIe} {rssi : Int32} {selfNpubHash : Option (Vector UInt8 4)} {nowMs : Int64}

theorem marketParseIe_rejected (h : ¬Accepts ie selfNpubHash) :
    marketParseIe s sa (some ie) rssi selfNpubHash nowMs = s := by
  unfold marketParseIe
  dsimp only
  -- past the five checks the element is accepted
  refine ite_eq_left_iff.mpr fun hlength => ite_eq_left_iff.mpr fun houi =>
    ite_eq_left_iff.mpr fun htype => ite_eq_left_iff.mpr fun hversion =>
    ite_eq_left_iff.mpr fun hself => absurd ⟨not_lt.mp hlength, ?_, ?_, ?_, hself⟩ h
  · exact not_not.mp houi
  · exact not_not.mp htype
  · exact not_not.mp hversion

theorem marketParseIe_accepted (h : Accepts ie selfNpubHash) :
    marketParseIe s sa (some ie) rssi selfNpubHash nowMs =
      let entry := .ofPayload sa (.ofBytes ie.payload) rssi nowMs
      match findEntryByBssid s sa with
      | some i => ⟨Function.update s.entries i entry, s.count⟩
      | none => ⟨Function.update s.entries (findFreeSlot s) entry,
          if s.count < maxEntries then s.count + 1 else s.count⟩ := by
  unfold marketParseIe
  dsimp only
  refine (if_neg (not_lt.mpr h.length)).trans <| (if_neg (not_not.mpr h.oui)).trans <|
    (if_neg (not_not.mpr h.type)).trans <| (if_neg (not_not.mpr h.version)).trans <|
    (if_neg h.foreign).trans ?_
  cases findEntryByBssid s sa <;> rfl

/-- An accepted element is written to one slot, the one for its sender. -/
theorem marketParseIe_place (h : Accepts ie selfNpubHash) :
    ∃ i, PlaceFor s sa i ∧ (marketParseIe s sa (some ie) rssi selfNpubHash nowMs).entries =
      Function.update s.entries i (.ofPayload sa (.ofBytes ie.payload) rssi nowMs) := by
  rw [marketParseIe_accepted h]
  cases hfind : findEntryByBssid s sa with
  | some i =>
    obtain ⟨hvalid, hbssid⟩ := findEntryByBssid_some hfind
    exact ⟨i, .own hvalid hbssid, rfl⟩
  | none => exact ⟨findFreeSlot s, findFreeSlot_place (findEntryByBssid_none hfind), rfl⟩

theorem MarketState.WellFormed.parseIe (h : s.WellFormed) (ie : Option VendorIe) :
    (marketParseIe s sa ie rssi selfNpubHash nowMs).WellFormed := by
  cases ie with
  | none => exact h
  | some ie =>
    by_cases haccepts : Accepts ie selfNpubHash
    · rw [marketParseIe_accepted haccepts]
      cases hfind : findEntryByBssid s sa with
      | some i =>
        obtain ⟨hvalid, hbssid⟩ := findEntryByBssid_some hfind
        exact h.replace hvalid rfl (Or.inl hbssid)
      | none =>
        have hnew : ¬s.Knows sa := findEntryByBssid_none hfind
        dsimp only
        cases findFreeSlot_place hnew with
        | own hvalid hbssid => exact absurd ⟨_, hvalid, hbssid⟩ hnew
        | free _ hfree =>
          -- with a free slot the counter is not at its bound
          have hfill := h.fill hfree rfl hnew (e := .ofPayload sa (.ofBytes ie.payload) rssi nowMs)
          rwa [if_pos (Nat.lt_of_succ_le hfill.bounded)]
        | oldest _ hfull _ =>
          have hcount : s.count = maxEntries := h.count.trans (validCount_full hfull)
          rw [if_neg (hcount ▸ lt_irrefl _)]
          exact h.replace (hfull _) rfl (Or.inr hnew)
    · rw [marketParseIe_rejected haccepts]
      exact h

end Element

/-- A name is written to the entry of its BSSID. -/
theorem MarketState.WellFormed.updateSsid (h : s.WellFormed) (bssid : Vector UInt8 6)
    (ssid : Vector UInt8 32) (rssi : Int8) : (marketUpdateSsid s bssid ssid rssi).WellFormed := by
  unfold marketUpdateSsid
  cases hfind : findEntryByBssid s bssid with
  | some i =>
    have hvalid := (findEntryByBssid_some hfind).1
    exact h.replace hvalid hvalid (Or.inl rfl)
  | none => exact h

theorem MarketState.WellFormed.step (h : s.WellFormed) (op : MarketOp) :
    (marketStep s op).WellFormed := by
  cases op with
  | parseIe sa ie rssi selfNpubHash nowMs => exact h.parseIe ie
  | updateSsid bssid ssid rssi => exact h.updateSsid bssid ssid rssi

/-- As `tollgate_core_market_init` leaves the table. -/
theorem quietMarket_wellFormed : quietMarket.WellFormed := by
  refine ⟨fun i j hi _ _ => absurd hi Bool.false_ne_true, ?_, Nat.zero_le _⟩
  rfl

/-- **The market table**, after every run: one entry for each BSSID, and a counter that is right
and in its bound. An element that is rejected changes nothing. One that is accepted changes one
entry only: that of its BSSID, for a new BSSID a free slot, and only in a full table the entry
that was heard first. -/
theorem market_table (ops : List MarketOp) :
    let s := run marketStep quietMarket ops
    s.WellFormed ∧
      (∀ sa ie rssi selfNpubHash nowMs, (∀ v, ie = some v → ¬Accepts v selfNpubHash) →
        marketParseIe s sa ie rssi selfNpubHash nowMs = s) ∧
      ∀ sa ie rssi selfNpubHash nowMs, Accepts ie selfNpubHash →
        ∃ i, PlaceFor s sa i ∧ (marketParseIe s sa (some ie) rssi selfNpubHash nowMs).entries =
          Function.update s.entries i (.ofPayload sa (.ofBytes ie.payload) rssi nowMs) := by
  refine ⟨run_induction (P := MarketState.WellFormed) (fun s op h => h.step op)
    quietMarket_wellFormed ops, ?_, ?_⟩
  · intro sa ie rssi selfNpubHash nowMs hrejected
    cases ie with
    | none => rfl
    | some v => exact marketParseIe_rejected (hrejected v rfl)
  · intro sa ie rssi selfNpubHash nowMs haccepts
    exact marketParseIe_place haccepts

end Market

end TollGate
