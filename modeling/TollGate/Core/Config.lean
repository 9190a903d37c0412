import TollGate.Core.Payment

/-!
# The configuration

The fields of `tollgate_config_t` that payments and sessions read, and the platform
callbacks of `tollgate_esp_platform.c` that serve them. There is one record,
`g_config`; `tollgate_config_get` returns its address and never `NULL`, so the
defaults of the callbacks for a missing configuration are not reached.
-/

namespace TollGate

/-- The part of `tollgate_config_t` that payments and sessions read. -/
structure Config where
  mintUrl : CStr
  /-- `accepted_mints`, up to `accepted_mint_count`. -/
  acceptedMints : List CStr
  pricePerStep : Int32
  stepSizeMs : Int32
  stepSizeBytes : Int32
  metric : CStr
  clientEnabled : Bool
  payoutEnabled : Bool

/-- The size of the field `metric`. -/
def Config.metricSize : ℕ := 16

/-- What session operations read when the platform is the ESP one: `esp_get_metric`
returns the configured metric. -/
def Config.env (cfg : Config) (now : Int64) (macForIp : Ip → Option CStr) : Env :=
  ⟨now, some cfg.metric, macForIp⟩

/-- `esp_get_price_sats`: the configured price as a `uint16_t`. -/
def Config.espGetPriceSats (cfg : Config) : UInt16 := cfg.pricePerStep.toInt16.toUInt16

/-- The payment callbacks of `tollgate_esp_platform.c`. -/
def Config.espPlatform (cfg : Config) : Core.Platform where
  getPriceSats := some cfg.espGetPriceSats
  getStepMs := some cfg.stepSizeMs
  getMintUrl := some (some cfg.mintUrl)
  getMetric := some cfg.metric
  getStepBytes := some cfg.stepSizeBytes
  spendProofs := some fun _ => true

/-- Within the range of the callback's `uint16_t` the price survives the cast. -/
theorem Config.espGetPriceSats_toUInt64 {cfg : Config} (h0 : 0 ≤ cfg.pricePerStep.toInt)
    (h1 : cfg.pricePerStep.toInt ≤ 65535) :
    cfg.espGetPriceSats.toUInt64 = Core.Platform.toUInt64 cfg.pricePerStep := by
  -- a non-negative number is extended with zeros, at any width
  have hmsb : cfg.pricePerStep.toBitVec.msb = false := by
    rw [BitVec.msb_eq_toInt, decide_eq_false_iff_not]
    exact not_lt.mpr h0
  have hext : ∀ w, (cfg.pricePerStep.toBitVec.signExtend w).toNat =
      cfg.pricePerStep.toBitVec.toNat % 2 ^ w := by
    intro w
    rw [BitVec.toNat_signExtend, hmsb, BitVec.toNat_setWidth]
    rfl
  have hnat : cfg.pricePerStep.toBitVec.toNat ≤ 65535 := by
    have hcond := BitVec.toInt_eq_toNat_cond cfg.pricePerStep.toBitVec
    have hlt := cfg.pricePerStep.toBitVec.isLt
    change cfg.pricePerStep.toInt = _ at hcond
    split at hcond <;> omega
  apply UInt64.toNat_inj.mp
  rw [UInt16.toNat_toUInt64]
  change (cfg.pricePerStep.toBitVec.signExtend 16).toNat =
    (cfg.pricePerStep.toBitVec.signExtend 64).toNat
  rw [hext, hext, Nat.mod_eq_of_lt (by omega), Nat.mod_eq_of_lt (by omega)]

/-- A configuration that sells a minute for 21 sats of one mint. -/
def timeConfig : Config :=
  ⟨cstr "https://mint", [cstr "https://mint"], 21, 60000, 22020096, cstr "milliseconds", false,
    false⟩

end TollGate
