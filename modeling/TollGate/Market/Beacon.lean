import TollGate.Lib.ByteOrder
import TollGate.Lib.CText

/-!
# Price beacons

A gateway tells its price in a vendor element of its beacons (`tollgate_core_beacon_build_ie`),
and who hears it keeps an entry for the sender (`tollgate_core_market_parse_ie`). The element is
a packed record, little-endian on both sides; its fields are narrower than those of the
configuration.

An element is read as it was sent (`beacon_read_as_sent`) up to the price, of which it has 16
bits.
-/

namespace TollGate

namespace Market

open CStr

/-! ### The element -/

/-- `TOLLGATE_IE_GEOHASH_MAX`. -/
abbrev geohashMax : ℕ := 9

/-- `TOLLGATE_IE_PAYLOAD_SIZE`. -/
abbrev payloadSize : ℕ := 26

/-- `tollgate_price_payload_t`. -/
@[ext] structure PricePayload where
  version : UInt8
  metric : UInt8
  pricePerStep : UInt16
  stepSize : UInt32
  mintHash : Vector UInt8 4
  geohashLen : UInt8
  geohash : Vector UInt8 geohashMax
  npubHash : Vector UInt8 4

/-- The bytes of the packed record. -/
def PricePayload.bytes (p : PricePayload) : List UInt8 :=
  [p.version, p.metric] ++ le16 p.pricePerStep ++ le32 p.stepSize ++ p.mintHash.toList ++
    [p.geohashLen] ++ p.geohash.toList ++ p.npubHash.toList

/-- The `n` bytes at a place. -/
def fieldAt (place n : ℕ) (buf : List UInt8) : Vector UInt8 n :=
  Vector.ofFn fun i => buf.getD (place + i) 0

/-- The record that a cast of the pointer reads. -/
def PricePayload.ofBytes (buf : List UInt8) : PricePayload where
  version := buf.getD 0 0
  metric := buf.getD 1 0
  pricePerStep := ofBe16 (buf.getD 3 0) (buf.getD 2 0)
  stepSize := ofBe32 (buf.getD 7 0) (buf.getD 6 0) (buf.getD 5 0) (buf.getD 4 0)
  mintHash := fieldAt 8 4 buf
  geohashLen := buf.getD 12 0
  geohash := fieldAt 13 geohashMax buf
  npubHash := fieldAt 22 4 buf

/-- `tollgate_price_ie_t`. -/
structure PriceIe where
  elementId : UInt8
  length : UInt8
  vendorOui : Vector UInt8 3
  vendorOuiType : UInt8
  payload : PricePayload

/-- The bytes of the element. -/
def PriceIe.bytes (ie : PriceIe) : List UInt8 :=
  [ie.elementId, ie.length] ++ ie.vendorOui.toList ++ [ie.vendorOuiType] ++ ie.payload.bytes

/-- `TOLLGATE_OUI_0`, `TOLLGATE_OUI_1`, `TOLLGATE_OUI_2`. -/
def tollgateOui : Vector UInt8 3 := #v[0xC0, 0xFF, 0xEE]

/-! ### The sender -/

/-- `tollgate_beacon_config_t`. -/
structure BeaconConfig where
  mintUrl : CStr
  metric : CStr
  pricePerStep : Int32
  stepSizeMs : Int32
  stepSizeBytes : Int32
  geohash : CStr
  npubHex : Option CStr
  identityInitialized : Bool

section Sender

variable (sha256 : List UInt8 → Vector UInt8 32)

/-- `tollgate_core_beacon_hash_mint`, `tollgate_core_beacon_hash_npub`. -/
def shortHash (text : CStr) : Vector UInt8 4 := fieldAt 0 4 (sha256 text).toList

/-- The hash that stands for the sender. -/
def BeaconConfig.npubHash (cfg : BeaconConfig) : Vector UInt8 4 :=
  match cfg.npubHex with
  | some npubHex =>
    if cfg.identityInitialized then shortHash sha256 npubHex else Vector.replicate 4 0
  | none => Vector.replicate 4 0

/-- `tollgate_core_beacon_build_ie`. -/
def beaconBuildIe (cfg : BeaconConfig) : PriceIe :=
  let isBytes := cfg.metric = cstr "bytes"
  let geohashLen := min cfg.geohash.length geohashMax
  { elementId := 0xDD
    length := UInt8.ofNat (4 + payloadSize)
    vendorOui := tollgateOui
    vendorOuiType := 0x01
    payload :=
      { version := 1
        metric := if isBytes then 1 else 0
        pricePerStep := cfg.pricePerStep.toUInt32.toUInt16
        stepSize := (if isBytes then cfg.stepSizeBytes else cfg.stepSizeMs).toUInt32
        mintHash := shortHash sha256 cfg.mintUrl
        geohashLen := UInt8.ofNat geohashLen
        -- the rest of the field is filled with zeros
        geohash := fieldAt 0 geohashMax (cfg.geohash.take geohashLen)
        npubHash := cfg.npubHash sha256 } }

end Sender

/-! ### The receiver -/

/-- `tollgate_vendor_ie_t`. -/
structure VendorIe where
  vendorOui : Vector UInt8 3
  vendorOuiType : UInt8
  payload : List UInt8
  payloadLen : ℕ

/-- What `vendor_ie_cb` makes of the bytes of an element. The length in it counts four bytes
before the payload. -/
def VendorIe.ofBytes (buf : List UInt8) : VendorIe where
  vendorOui := fieldAt 2 3 buf
  vendorOuiType := buf.getD 5 0
  payload := buf.drop 6
  payloadLen := ((buf.getD 1 0).toUInt32 - 4).toNat

/-- `tollgate_market_entry_t`. -/
structure MarketEntry where
  bssid : Vector UInt8 6
  ssid : CStr
  rssi : Int8
  pricePerStep : UInt16
  stepSize : UInt32
  metric : UInt8
  mintHash : Vector UInt8 4
  npubHash : Vector UInt8 4
  geohash : CStr
  discoveredMs : Int64
  valid : Bool

/-- `TG_MARKET_MAX_ENTRIES`. -/
abbrev maxEntries : ℕ := 10

/-- `tollgate_market_t`. -/
structure MarketState where
  entries : Fin maxEntries → MarketEntry
  count : ℕ

/-- `find_entry_by_bssid`. -/
def findEntryByBssid (s : MarketState) (bssid : Vector UInt8 6) : Option (Fin maxEntries) :=
  Fin.find? fun i => (s.entries i).valid && (s.entries i).bssid == bssid

theorem maxEntries_pos : 0 < maxEntries := by decide

/-- `find_free_slot`: a free one, or the oldest. -/
def findFreeSlot (s : MarketState) : Fin maxEntries :=
  match Fin.find? fun i => !(s.entries i).valid with
  | some i => i
  | none => (List.finRange maxEntries).tail.foldl (fun oldest i =>
      if (s.entries i).discoveredMs < (s.entries oldest).discoveredMs then i else oldest)
        ⟨0, maxEntries_pos⟩

/-- The entry that a payload becomes. -/
def MarketEntry.ofPayload (sa : Vector UInt8 6) (p : PricePayload) (rssi : Int32)
    (nowMs : Int64) : MarketEntry where
  bssid := sa
  ssid := []
  rssi := rssi.toInt8
  pricePerStep := p.pricePerStep
  stepSize := p.stepSize
  metric := p.metric
  mintHash := p.mintHash
  npubHash := p.npubHash
  geohash := (p.geohash.toList.take (min p.geohashLen.toNat geohashMax)).takeWhile (· ≠ 0)
  discoveredMs := nowMs
  valid := true

/-- `tollgate_core_market_parse_ie`. -/
def marketParseIe (s : MarketState) (sa : Vector UInt8 6) (ie : Option VendorIe) (rssi : Int32)
    (selfNpubHash : Option (Vector UInt8 4)) (nowMs : Int64) : MarketState :=
  match ie with
  | none => s
  | some ie =>
    if ie.payloadLen < payloadSize then s
    else if ie.vendorOui ≠ tollgateOui then s
    else if ie.vendorOuiType ≠ 0x01 then s
    else
      let payload := PricePayload.ofBytes ie.payload
      if payload.version ≠ 1 then s
      else if selfNpubHash = some payload.npubHash then s
      else
        let entry := MarketEntry.ofPayload sa payload rssi nowMs
        match findEntryByBssid s sa with
        | some i => { s with entries := Function.update s.entries i entry }
        | none =>
          { entries := Function.update s.entries (findFreeSlot s) entry
            count := if s.count < maxEntries then s.count + 1 else s.count }

/-! ### The packed record -/

theorem fieldAt_append {n place : ℕ} {front : List UInt8} (hfront : front.length = place)
    (field : Vector UInt8 n) (back : List UInt8) :
    fieldAt place n (front ++ (field.toList ++ back)) = field := by
  refine Vector.ext fun i hi => ?_
  have hfield : i < field.toList.length := by rwa [Vector.length_toList]
  rw [fieldAt, Vector.getElem_ofFn, List.getD_eq_getElem?_getD,
    List.getElem?_append_right (by omega), ← hfront, Nat.add_sub_cancel_left,
    List.getElem?_append_left hfield, List.getElem?_eq_getElem hfield, Option.getD_some,
    Vector.getElem_toList]

theorem getD_append_cons {place : ℕ} {front : List UInt8} (hfront : front.length = place)
    (b : UInt8) (back : List UInt8) : (front ++ b :: back).getD place 0 = b := by
  rw [List.getD_eq_getElem?_getD, List.getElem?_append_right (by omega), hfront, Nat.sub_self]
  rfl

section Record

variable (p : PricePayload)

/-- The bytes before the first field that is an array. -/
def PricePayload.head : List UInt8 :=
  [p.version, p.metric] ++ le16 p.pricePerStep ++ le32 p.stepSize

theorem PricePayload.length_head : p.head.length = 8 := rfl

theorem mintHash_ofBytes : fieldAt 8 4 p.bytes = p.mintHash := by
  have hbytes : p.bytes = p.head ++ (p.mintHash.toList ++
      ([p.geohashLen] ++ p.geohash.toList ++ p.npubHash.toList)) := by
    simp only [PricePayload.bytes, PricePayload.head, List.append_assoc]
  rw [hbytes]
  exact fieldAt_append p.length_head _ _

theorem geohashLen_ofBytes : p.bytes.getD 12 0 = p.geohashLen := by
  have hbytes : p.bytes = (p.head ++ p.mintHash.toList) ++
      ([p.geohashLen] ++ (p.geohash.toList ++ p.npubHash.toList)) := by
    simp only [PricePayload.bytes, PricePayload.head, List.append_assoc]
  rw [hbytes]
  refine getD_append_cons ?_ _ _
  rw [List.length_append, p.length_head, Vector.length_toList]

theorem geohash_ofBytes : fieldAt 13 geohashMax p.bytes = p.geohash := by
  have hbytes : p.bytes = (p.head ++ p.mintHash.toList ++ [p.geohashLen]) ++
      (p.geohash.toList ++ p.npubHash.toList) := by
    simp only [PricePayload.bytes, PricePayload.head, List.append_assoc]
  rw [hbytes]
  refine fieldAt_append ?_ _ _
  rw [List.length_append, List.length_append, p.length_head, Vector.length_toList,
    List.length_singleton]

theorem npubHash_ofBytes : fieldAt 22 4 p.bytes = p.npubHash := by
  have hbytes : p.bytes = (p.head ++ p.mintHash.toList ++ [p.geohashLen] ++ p.geohash.toList) ++
      (p.npubHash.toList ++ []) := by
    simp only [PricePayload.bytes, PricePayload.head, List.append_assoc, List.append_nil]
  rw [hbytes]
  refine fieldAt_append ?_ _ _
  rw [List.length_append, List.length_append, List.length_append, p.length_head,
    Vector.length_toList, Vector.length_toList, List.length_singleton]
  rfl

/-- The record is read as it was written. -/
theorem PricePayload.ofBytes_bytes : ofBytes p.bytes = p :=
  PricePayload.ext rfl rfl (ofBe16_be16 p.pricePerStep) (ofBe32_be32 p.stepSize)
    (mintHash_ofBytes p) (geohashLen_ofBytes p) (geohash_ofBytes p) (npubHash_ofBytes p)

end Record

/-- The element is taken apart as it was put together. -/
theorem VendorIe.ofBytes_bytes (ie : PriceIe) (hlength : 4 ≤ ie.length) :
    ofBytes ie.bytes = ⟨ie.vendorOui, ie.vendorOuiType, ie.payload.bytes, ie.length.toNat - 4⟩ := by
  have hfront : ([ie.elementId, ie.length] ++ ie.vendorOui.toList).length = 5 := by
    rw [List.length_append, Vector.length_toList]
    rfl
  have hbytes : ie.bytes = [ie.elementId, ie.length] ++
      (ie.vendorOui.toList ++ ([ie.vendorOuiType] ++ ie.payload.bytes)) := by
    simp only [PriceIe.bytes, List.append_assoc]
  have houi : fieldAt 2 3 ie.bytes = ie.vendorOui := by
    rw [hbytes]
    exact fieldAt_append rfl _ _
  have htype : ie.bytes.getD 5 0 = ie.vendorOuiType := by
    rw [hbytes, ← List.append_assoc]
    exact getD_append_cons hfront _ _
  have hpayload : ie.bytes.drop 6 = ie.payload.bytes := by
    rw [hbytes, ← List.append_assoc, ← List.append_assoc]
    exact List.drop_left' (by rw [List.length_append, hfront, List.length_singleton])
  have hlen : (ie.length.toUInt32 - 4).toNat = ie.length.toNat - 4 := by
    rw [UInt32.toNat_sub_of_le]
    · rfl
    · exact UInt32.le_iff_toNat_le.mpr (UInt8.le_iff_toNat_le.mp hlength)
  unfold ofBytes
  rw [houi, htype, hpayload, ← hlen]
  rfl

/-! ### What is read of a beacon -/

/-- The entry of a price that is heard goes to one slot, and no other slot changes. -/
theorem marketParseIe_price (s : MarketState) (sa : Vector UInt8 6) {p : PricePayload}
    (hversion : p.version = 1) (rssi : Int32) {selfNpubHash : Option (Vector UInt8 4)}
    (hself : selfNpubHash ≠ some p.npubHash) (nowMs : Int64) :
    ∃ i, (marketParseIe s sa (some ⟨tollgateOui, 0x01, p.bytes, payloadSize⟩) rssi selfNpubHash
      nowMs).entries = Function.update s.entries i (.ofPayload sa p rssi nowMs) := by
  unfold marketParseIe
  dsimp only
  rw [if_neg (lt_irrefl _), if_neg (not_not.mpr rfl), if_neg (not_not.mpr rfl),
    PricePayload.ofBytes_bytes, if_neg (not_not.mpr hversion), if_neg hself]
  cases findEntryByBssid s sa with
  | some i => exact ⟨i, rfl⟩
  | none => exact ⟨findFreeSlot s, rfl⟩

/-- The step size of the metric that is told. -/
def BeaconConfig.stepSize (cfg : BeaconConfig) : Int32 :=
  if cfg.metric = cstr "bytes" then cfg.stepSizeBytes else cfg.stepSizeMs

/-- The entry holds what was sent; of the price it holds 16 bits. -/
structure ReadAsSent (sha256 : List UInt8 → Vector UInt8 32) (cfg : BeaconConfig)
    (e : MarketEntry) : Prop where
  valid : e.valid = true
  price : (e.pricePerStep.toNat : ℤ) = cfg.pricePerStep.toInt % 65536
  stepSize : (e.stepSize.toNat : ℤ) = cfg.stepSize.toInt
  metric : e.metric = if cfg.metric = cstr "bytes" then 1 else 0
  mintHash : e.mintHash = shortHash sha256 cfg.mintUrl
  npubHash : e.npubHash = cfg.npubHash sha256
  geohash : e.geohash = cfg.geohash.take geohashMax

theorem toNat_toUInt32 {i : Int32} (h : 0 ≤ i.toInt) : (i.toUInt32.toNat : ℤ) = i.toInt := by
  have hcond := BitVec.toInt_eq_toNat_cond i.toBitVec
  have hlt := i.toBitVec.isLt
  have hint : i.toInt = i.toBitVec.toInt := rfl
  have hnat : i.toUInt32.toNat = i.toBitVec.toNat := rfl
  rw [hint] at h ⊢
  rw [hnat]
  split_ifs at hcond <;> omega

/-- A text that fits a field is its first bytes. -/
theorem take_fieldAt {n : ℕ} {text : List UInt8} (h : text.length ≤ n) :
    (fieldAt 0 n text).toList.take text.length = text := by
  have hlength : ((fieldAt 0 n text).toList.take text.length).length = text.length := by
    rw [List.length_take, Vector.length_toList, min_eq_left h]
  refine List.ext_getElem hlength fun i hi hi' => ?_
  have hfield : ∀ h : i < n, (fieldAt 0 n text)[i] = text.getD (0 + i) 0 := fun h =>
    Vector.getElem_ofFn h
  rw [List.getElem_take, Vector.getElem_toList, hfield, Nat.zero_add, List.getD_eq_getElem?_getD,
    List.getElem?_eq_getElem hi', Option.getD_some]

/-- The geohash is in its field up to the length that is told. -/
theorem geohash_ofPayload (sha256 : List UInt8 → Vector UInt8 32) {cfg : BeaconConfig}
    (hgeohash : 0 ∉ cfg.geohash) (sa : Vector UInt8 6) (rssi : Int32) (nowMs : Int64) :
    (MarketEntry.ofPayload sa (beaconBuildIe sha256 cfg).payload rssi nowMs).geohash =
      cfg.geohash.take geohashMax := by
  have hle : min cfg.geohash.length geohashMax ≤ 9 := min_le_right _ _
  have hlen : (UInt8.ofNat (min cfg.geohash.length geohashMax)).toNat =
      min cfg.geohash.length geohashMax :=
    UInt8.toNat_ofNat_of_lt' (hle.trans_lt (by decide))
  have htext : (cfg.geohash.take geohashMax).length = min cfg.geohash.length geohashMax := by
    rw [List.length_take, min_comm]
  have htake : cfg.geohash.take (min cfg.geohash.length geohashMax) =
      cfg.geohash.take geohashMax := by
    rw [← List.take_take]
    exact List.take_of_length_le (htext.trans_le (min_le_left _ _))
  show ((fieldAt 0 geohashMax (cfg.geohash.take (min cfg.geohash.length geohashMax))).toList.take
    (min (UInt8.ofNat (min cfg.geohash.length geohashMax)).toNat geohashMax)).takeWhile (· ≠ 0) = _
  rw [hlen, min_eq_left hle, htake, ← htext, take_fieldAt (htext.trans_le hle),
    List.takeWhile_eq_self_iff.mpr]
  intro b hb
  exact decide_eq_true fun hzero => hgeohash (hzero ▸ List.mem_of_mem_take hb)

/-- **Price beacons are read as sent**, up to the price, of which 16 bits are sent. For every
configuration with a step size that is not negative, and every receiver that is not the sender,
whatever it has heard before. -/
theorem beacon_read_as_sent (sha256 : List UInt8 → Vector UInt8 32) (cfg : BeaconConfig)
    (hprice : 0 ≤ cfg.pricePerStep.toInt) (hstep : 0 ≤ cfg.stepSize.toInt)
    (hgeohash : 0 ∉ cfg.geohash) (s : MarketState) (sa : Vector UInt8 6) (rssi : Int32)
    (selfNpubHash : Option (Vector UInt8 4)) (hself : selfNpubHash ≠ some (cfg.npubHash sha256))
    (nowMs : Int64) :
    ∃ i e, (marketParseIe s sa (some (.ofBytes (beaconBuildIe sha256 cfg).bytes)) rssi
        selfNpubHash nowMs).entries = Function.update s.entries i e ∧
      e.bssid = sa ∧ ReadAsSent sha256 cfg e := by
  obtain ⟨i, hentries⟩ := marketParseIe_price s sa
    (show (beaconBuildIe sha256 cfg).payload.version = 1 from rfl) rssi hself nowMs
  rw [VendorIe.ofBytes_bytes _ (show (4 : UInt8) ≤ 30 by decide)]
  refine ⟨i, _, hentries, rfl, rfl, ?_, ?_, rfl, rfl, rfl, ?_⟩
  · -- the cast keeps the low half
    show ((cfg.pricePerStep.toUInt32.toUInt16).toNat : ℤ) = _
    rw [UInt32.toNat_toUInt16, Int.natCast_mod, toNat_toUInt32 hprice]
    rfl
  · exact toNat_toUInt32 hstep
  · exact geohash_ofPayload sha256 hgeohash sa rssi nowMs

/-- A gateway that sells bytes. -/
def sampleBeacon : BeaconConfig where
  mintUrl := cstr "m"
  metric := cstr "bytes"
  pricePerStep := 21
  stepSizeMs := 60000
  stepSizeBytes := 1000000
  geohash := cstr "u281w0dfzx"
  npubHex := some (cstr "02")
  identityInitialized := true

/-- SHA-256 of its url, and of its key. -/
def sampleSha256 (text : List UInt8) : Vector UInt8 32 :=
  if text = cstr "m" then fieldAt 0 32 [98, 198, 106, 122, 93, 215, 12, 49, 70, 97, 128, 99, 195,
    68, 229, 49, 230, 212, 181, 158, 55, 152, 8, 68, 60, 233, 98, 179, 171, 214, 60, 90]
  else fieldAt 0 32 [169, 83, 240, 154, 27, 107, 103, 37, 184, 25, 86, 233, 173, 11, 30, 180, 158,
    58, 212, 0, 4, 192, 67, 7, 239, 138, 246, 36, 106, 5, 65, 22]

/-- A market that has heard nobody. -/
def quietMarket : MarketState where
  entries _ :=
    { bssid := Vector.replicate 6 0, ssid := [], rssi := 0, pricePerStep := 0, stepSize := 0,
      metric := 0, mintHash := Vector.replicate 4 0, npubHash := Vector.replicate 4 0,
      geohash := [], discoveredMs := 0, valid := false }
  count := 0

/-- What it has heard after a beacon from one address. -/
def heardBeacon (cfg : BeaconConfig) : MarketState :=
  marketParseIe quietMarket #v[2, 0, 0, 0, 0, 1] (some (.ofBytes (beaconBuildIe sampleSha256
    cfg).bytes)) (-45) none 1000

theorem beacon_read_as_sent_sample :
    ∃ i e, (heardBeacon sampleBeacon).entries = Function.update quietMarket.entries i e ∧
      e.bssid = #v[2, 0, 0, 0, 0, 1] ∧ ReadAsSent sampleSha256 sampleBeacon e :=
  beacon_read_as_sent sampleSha256 sampleBeacon (by decide) (by decide) (by decide) quietMarket
    #v[2, 0, 0, 0, 0, 1] (-45) none (by simp) 1000

/-- Of a price of 65557 the entry holds 21. -/
theorem beacon_price_cut :
    let cfg := { sampleBeacon with pricePerStep := 65557 }
    ((heardBeacon cfg).entries 0).valid = true ∧
      ((heardBeacon cfg).entries 0).pricePerStep = 21 ∧
      ∀ i, (((heardBeacon cfg).entries i).pricePerStep.toNat : ℤ) ≠ cfg.pricePerStep.toInt := by
  decide

end Market

end TollGate
