import TollGate.Core.Config
import TollGate.Core.SlotReuse
import TollGate.Upstream.Replies

/-!
# What the gateway answers

The three texts that a customer's TollGate reads: the discovery document
(`api_get_discovery`), the session that a payment buys (`create_session_event`) and the usage
line, which two functions write (`tollgate_core_portal_format_usage`, `api_get_usage`).

Each is read back as it was meant (`discovery_understood`, `usage_and_session_round_trip`).
-/

namespace TollGate

namespace Api

open CJson CStr Upstream

/-! ### The source operations -/

/-- The part of `tollgate_config_t` that discovery reads. -/
structure GatewayConfig extends Config where
  miningEnabled : Bool
  miningPort : UInt16

/-- `mint_status_t`. -/
structure MintStatus where
  url : CStr
  url_length_lt : url.length < 256
  reachable : Bool

/-- A tag. -/
def tag (items : List CStr) : Json := .array (items.map .string)

/-- The metric that is told. -/
def toldMetric (metric : CStr) : CStr := if metric = [] then cstr "milliseconds" else metric

/-- What a mint is paid. -/
def priceTag (price unit url : CStr) : Json :=
  tag [cstr "price_per_step", cstr "cashu", price, unit, url, cstr "1"]

/-- The document of `api_get_discovery`. The mints are those that `mint_health_get_all` gives. -/
def apiGetDiscovery (npubHex : CStr) (cfg : GatewayConfig) (walletUnit : CStr)
    (mints : List MintStatus) : Json :=
  let isBytes := cfg.metric = cstr "bytes"
  let stepStr := snprintf 32 <| signedDecimal
    (if isBytes then cfg.stepSizeBytes else cfg.stepSizeMs).toInt
  let priceStr := snprintf 32 (signedDecimal cfg.pricePerStep.toInt)
  let anyReachable := mints.any MintStatus.reachable
  .object [
    (cstr "kind", .number (.ofInt 10021)),
    (cstr "pubkey", .string npubHex),
    (cstr "tags", .array (
      [tag [cstr "metric", toldMetric cfg.metric], tag [cstr "step_size", stepStr]] ++
      (mints.filter MintStatus.reachable).map (fun m => priceTag priceStr walletUnit m.url) ++
      (if !anyReachable then [priceTag priceStr walletUnit cfg.mintUrl] else []) ++
      [tag [cstr "tips", cstr "1", cstr "2", cstr "5"]] ++
      (if cfg.miningEnabled then
        [tag [cstr "price_per_step", cstr "mining",
          snprintf 16 (signedDecimal cfg.miningPort.toNat), cstr "GH/s", cstr "sv1"]]
      else []))),
    (cstr "content", .string [])]

/-- The document of `create_session_event`. -/
def createSessionEvent (npubHex clientIp : CStr) (cfg : Config) (allotmentMs : UInt64) : Json :=
  .object [
    (cstr "kind", .number (.ofInt 1022)),
    (cstr "pubkey", .string npubHex),
    (cstr "tags", .array [
      tag [cstr "p", cstr "unknown"],
      tag [cstr "device-identifier", cstr "mac", clientIp],
      tag [cstr "allotment", snprintf 32 (decimal allotmentMs.toNat)],
      tag [cstr "metric", toldMetric cfg.metric]]),
    (cstr "content", .string [])]

/-- The usage line, in the format `%lld/%llu`. -/
def usageLine (remaining : Int64) (total : UInt64) : CStr :=
  signedDecimal remaining.toInt ++ cstr "/" ++ decimal total.toNat

/-- `tollgate_core_portal_format_usage`, as the string in a buffer of `bufSize` bytes. -/
def portalFormatUsage (session : Option TgSession) (metric : CStr) (nowMs : Int64)
    (bufSize : ℕ) : CStr :=
  match calcUsage session metric nowMs with
  | none => snprintf bufSize (cstr "-1/-1")
  | some (remaining, total) => snprintf bufSize (usageLine remaining total.toUInt64)

/-- The answer of `api_get_usage`. -/
def apiGetUsage (session : Option TgSession) (cfg : Config) (nowMs : Int64) : CStr :=
  match session with
  | none => cstr "-1/-1"
  | some s =>
    if !s.active then cstr "-1/-1"
    else if cfg.metric = cstr "bytes" then
      let remaining := s.allotmentBytes.toInt64 - s.bytesConsumed.toInt64
      snprintf 64 (usageLine (if remaining < 0 then 0 else remaining) s.allotmentBytes)
    else
      -- the difference is unsigned before it becomes an `int64_t`
      let elapsed := nowMs - s.startTimeMs
      let remaining := (s.allotmentMs - elapsed.toUInt64).toInt64
      snprintf 64 (usageLine (if remaining < 0 then 0 else remaining) s.allotmentMs)

/-! ### Reading the discovery document -/

section Tags

variable (d : Discovery)

theorem foldl_metric_step (metric step : CStr) :
    [tag [cstr "metric", metric], tag [cstr "step_size", step]].foldl Discovery.readTag d =
      { d with metric := strncpy 32 metric, stepSizeMs := atoi step } := rfl

theorem readTag_priceTag (price unit url : CStr) :
    d.readTag (priceTag price unit url) =
      { d with pricePerStep := atoi price, unit := strncpy 16 unit, mintUrl := strncpy 256 url } :=
  rfl

theorem foldl_tips :
    [tag [cstr "tips", cstr "1", cstr "2", cstr "5"]].foldl Discovery.readTag d = d := rfl

theorem foldl_mining (port : CStr) :
    [tag [cstr "price_per_step", cstr "mining", port, cstr "GH/s", cstr "sv1"]].foldl
        Discovery.readTag d =
      { d with miningAvailable := true, miningPort := (atoi port).toUInt32.toUInt16 } := rfl

/-- Of several mints the last one stays. -/
theorem foldl_priceTag (price unit : CStr) (urls : List CStr) (last : CStr) :
    ((urls ++ [last]).map (priceTag price unit)).foldl Discovery.readTag d =
      { d with
        pricePerStep := atoi price, unit := strncpy 16 unit, mintUrl := strncpy 256 last } := by
  induction urls generalizing d with
  | nil => exact readTag_priceTag d price unit last
  | cons url urls ih =>
    rw [List.cons_append, List.map_cons, List.foldl_cons, readTag_priceTag, ih]

end Tags

/-- The mint is one that can be reached, or the configured one if none can. -/
def Offered (cfg : GatewayConfig) (mints : List MintStatus) (url : CStr) : Prop :=
  (∃ m ∈ mints, m.reachable = true ∧ m.url = url) ∨
    (∀ m ∈ mints, m.reachable = false) ∧ url = cfg.mintUrl

/-- There is a price for some mint, and every price is for one that is offered. -/
theorem exists_offered {cfg : GatewayConfig} (hmint : cfg.mintUrl.length < 256)
    (mints : List MintStatus) (price unit : CStr) :
    ∃ urls last, (mints.filter MintStatus.reachable).map (fun m => priceTag price unit m.url) ++
        (if !mints.any MintStatus.reachable then [priceTag price unit cfg.mintUrl] else []) =
          (urls ++ [last]).map (priceTag price unit) ∧
      last.length < 256 ∧ Offered cfg mints last := by
  rcases List.eq_nil_or_concat' (mints.filter MintStatus.reachable) with hnone | ⟨ms, m, hsome⟩
  · have hall : ∀ m ∈ mints, m.reachable = false := fun m hm =>
      Bool.eq_false_iff.mpr (List.filter_eq_nil_iff.mp hnone m hm)
    have hany : mints.any MintStatus.reachable = false := by
      rw [List.any_eq_false]
      exact fun m hm => Bool.eq_false_iff.mp (hall m hm)
    refine ⟨[], cfg.mintUrl, ?_, hmint, .inr ⟨hall, rfl⟩⟩
    rw [hnone, hany]
    rfl
  · obtain ⟨hm, hreach⟩ : m ∈ mints ∧ m.reachable = true := by
      rw [← List.mem_filter, hsome]
      exact List.mem_append_right _ List.mem_cons_self
    have hany : mints.any MintStatus.reachable = true := List.any_eq_true.mpr ⟨m, hm, hreach⟩
    refine ⟨ms.map MintStatus.url, m.url, ?_, m.url_length_lt, .inl ⟨m, hm, hreach, rfl⟩⟩
    rw [hsome, hany, List.map_append, List.map_append, List.map_map]
    exact List.append_nil _

/-- The document tells what the gateway is configured to. -/
structure Understood (cfg : GatewayConfig) (mints : List MintStatus) (d : Discovery) : Prop where
  isTollgate : d.isTollgate = true
  metric : d.metric = if cfg.metric = [] then cstr "milliseconds" else cfg.metric
  stepSize : d.stepSizeMs = if cfg.metric = cstr "bytes" then cfg.stepSizeBytes else cfg.stepSizeMs
  price : d.pricePerStep = cfg.pricePerStep
  mining : d.miningAvailable = cfg.miningEnabled
  miningPort : cfg.miningEnabled = true → d.miningPort = cfg.miningPort
  mint : Offered cfg mints d.mintUrl

theorem atoi_snprintf {size : ℕ} (hsize : 11 < size) (i : Int32) :
    atoi (snprintf size (signedDecimal i.toInt)) = i := by
  have hlow := i.le_toInt
  have hhigh := i.toInt_lt
  have hlength := length_signedDecimal_le (by omega : 0 < 10) (by omega : i.toInt.natAbs < 10 ^ 10)
  rw [snprintf_of_length_lt (by omega), atoi_signedDecimal]

theorem atoi_snprintf_port {size : ℕ} (hsize : 11 < size) (port : UInt16) :
    (atoi (snprintf size (signedDecimal port.toNat))).toUInt32.toUInt16 = port := by
  have hport := port.toNat_lt
  have hint : (Int32.ofNat port.toNat).toInt = port.toNat := Int32.toInt_ofNat_of_lt (by omega)
  rw [← hint, atoi_snprintf hsize, Int32.toUInt32_ofNat', UInt32.toUInt16_ofNat',
    UInt16.ofNat_toNat]

/-- **Discovery is understood.** For every configuration and every table of mints, if `cJSON`
parses the document that it printed as that document. -/
theorem discovery_understood (parse : CStr → Option Json) (print : Json → CStr)
    (npubHex walletUnit : CStr) (cfg : GatewayConfig) (hmetric : cfg.metric.length < 32)
    (hmint : cfg.mintUrl.length < 256) (mints : List MintStatus)
    (hparse : parse (print (apiGetDiscovery npubHex cfg walletUnit mints)) =
      some (apiGetDiscovery npubHex cfg walletUnit mints)) :
    ∃ d, clientParseDiscovery parse (print (apiGetDiscovery npubHex cfg walletUnit mints)) =
      some d ∧ Understood cfg mints d := by
  obtain ⟨urls, last, hprices, hlast, hoffered⟩ := exists_offered hmint mints
    (snprintf 32 (signedDecimal cfg.pricePerStep.toInt)) walletUnit
  have hkind : kindOf (apiGetDiscovery npubHex cfg walletUnit mints) = some 10021 := rfl
  -- the loop goes over the metric, the step, the prices, the tips and the mining port
  have htags : tagsOf (apiGetDiscovery npubHex cfg walletUnit mints) =
      [tag [cstr "metric", toldMetric cfg.metric],
        tag [cstr "step_size", snprintf 32 <| signedDecimal
          (if cfg.metric = cstr "bytes" then cfg.stepSizeBytes else cfg.stepSizeMs).toInt]] ++
      (urls ++ [last]).map
        (priceTag (snprintf 32 (signedDecimal cfg.pricePerStep.toInt)) walletUnit) ++
      [tag [cstr "tips", cstr "1", cstr "2", cstr "5"]] ++
      if cfg.miningEnabled then [tag [cstr "price_per_step", cstr "mining",
        snprintf 16 (signedDecimal cfg.miningPort.toNat), cstr "GH/s", cstr "sv1"]] else [] := by
    rw [← hprices, ← List.append_assoc]
    rfl
  have htold : strncpy 32 (toldMetric cfg.metric) = toldMetric cfg.metric := by
    unfold toldMetric
    split
    · rfl
    · exact strncpy_of_length_lt hmetric
  unfold clientParseDiscovery
  rw [hparse]
  dsimp only
  rw [if_neg (not_not.mpr hkind), htags, List.foldl_append, List.foldl_append, List.foldl_append,
    foldl_metric_step, foldl_priceTag, foldl_tips]
  refine ⟨_, rfl, ?_⟩
  cases hmining : cfg.miningEnabled with
  | false =>
    rw [if_neg Bool.false_ne_true, List.foldl_nil]
    exact ⟨rfl, htold, atoi_snprintf (by omega) _, atoi_snprintf (by omega) _, hmining.symm,
      fun h => absurd (hmining.symm.trans h) Bool.false_ne_true,
      (strncpy_of_length_lt hlast).symm ▸ hoffered⟩
  | true =>
    rw [if_pos rfl, foldl_mining]
    exact ⟨rfl, htold, atoi_snprintf (by omega) _, atoi_snprintf (by omega) _, hmining.symm,
      fun _ => atoi_snprintf_port (by omega) _, (strncpy_of_length_lt hlast).symm ▸ hoffered⟩

/-- A gateway that sells bytes and work. -/
def sampleGateway : GatewayConfig where
  mintUrl := cstr "m"
  acceptedMints := [cstr "m"]
  pricePerStep := 21
  stepSizeMs := 60000
  stepSizeBytes := 1000000
  metric := cstr "bytes"
  clientEnabled := false
  payoutEnabled := false
  miningEnabled := true
  miningPort := 3334

/-- Of its two mints one can be reached. -/
def sampleMints : List MintStatus :=
  [⟨cstr "m", by decide, false⟩, ⟨cstr "n", by decide, true⟩]

/-- Its discovery document. -/
def sampleDiscovery : CStr :=
  cstr ("\x7b\"kind\":10021,\"pubkey\":\"02\",\"tags\":[[\"metric\",\"bytes\"]," ++
    "[\"step_size\",\"1000000\"],[\"price_per_step\",\"cashu\",\"21\",\"sat\",\"n\",\"1\"]," ++
    "[\"tips\",\"1\",\"2\",\"5\"],[\"price_per_step\",\"mining\",\"3334\",\"GH/s\",\"sv1\"]]," ++
    "\"content\":\"\"\x7d")

theorem discovery_understood_sample :
    ∃ d, clientParseDiscovery
        (fun text => if text = sampleDiscovery then
          some (apiGetDiscovery (cstr "02") sampleGateway (cstr "sat") sampleMints) else none)
        sampleDiscovery = some d ∧ Understood sampleGateway sampleMints d :=
  discovery_understood _ (fun _ => sampleDiscovery) (cstr "02") (cstr "sat") sampleGateway
    (by decide) (by decide) sampleMints (if_pos rfl)

/-! ### Reading the usage line and the session -/

section Usage

variable {total : UInt64} (htotal : total.toNat < 2 ^ 63)
include htotal

theorem decimal_eq_signedDecimal : decimal total.toNat = signedDecimal total.toInt64.toInt := by
  rw [(UInt64.toInt_toInt64_eq_iff total).mpr htotal, signedDecimal_natCast]

theorem atoll_decimal : atoll (decimal total.toNat) = total.toInt64 := by
  rw [decimal_eq_signedDecimal htotal, atoll_signedDecimal]

theorem length_usageLine_le (remaining : Int64) : (usageLine remaining total).length ≤ 40 := by
  have hfront := length_signedDecimal_int64_le remaining
  have hback := length_decimal_le (by omega : 0 < 19) (by omega : total.toNat < 10 ^ 19)
  rw [usageLine, List.length_append, List.length_append, show (cstr "/").length = 1 from rfl]
  omega

/-- The line is taken apart at its slash. -/
theorem clientParseUsage_usageLine (remaining : Int64) :
    clientParseUsage (usageLine remaining total) = some (remaining, total.toInt64) := by
  have hline : usageLine remaining total =
      signedDecimal remaining.toInt ++ 47 :: decimal total.toNat := by
    rw [usageLine, List.append_assoc]
    rfl
  have hfront := length_signedDecimal_int64_le remaining
  have hback := length_decimal_le (by omega : 0 < 19) (by omega : total.toNat < 10 ^ 19)
  have hrlen : (signedDecimal remaining.toInt ++ 47 :: decimal total.toNat).length -
      (47 :: decimal total.toNat).length = (signedDecimal remaining.toInt).length := by
    rw [List.length_append, Nat.add_sub_cancel]
  unfold clientParseUsage
  rw [hline, strchr_append_cons (not_mem_signedDecimal rfl (by decide) _)]
  dsimp only
  rw [hrlen, if_neg (by omega), List.take_left, List.tail_cons,
    strncpy_of_length_lt (by omega), atoll_signedDecimal, atoll_decimal htotal]

end Usage

/-- The two writers of the usage line agree. -/
theorem apiGetUsage_eq (session : Option TgSession) (cfg : Config) (nowMs : Int64) :
    apiGetUsage session cfg nowMs = portalFormatUsage session cfg.metric nowMs 64 := by
  unfold apiGetUsage portalFormatUsage calcUsage
  cases session with
  | none => rfl
  | some s =>
    by_cases hactive : s.active = true
    · simp only [hactive, Bool.not_true, Bool.false_eq_true, if_false]
      by_cases hbytes : cfg.metric = cstr "bytes"
      · simp only [hbytes, if_true, UInt64.toUInt64_toInt64]
      · simp only [hbytes, if_false, UInt64.toUInt64_toInt64, UInt64.toInt64_sub,
          Int64.toInt64_toUInt64]
    · rw [Bool.not_eq_true] at hactive
      simp only [hactive, Bool.not_false, if_true]
      rfl

/-- The allotment that the metric counts. -/
def countedAllotment (s : TgSession) (metric : CStr) : UInt64 :=
  if metric = cstr "bytes" then s.allotmentBytes else s.allotmentMs

theorem exists_calcUsage {s : TgSession} (hactive : s.active = true) (metric : CStr)
    (nowMs : Int64) :
    ∃ remaining, calcUsage (some s) metric nowMs =
      some (remaining, (countedAllotment s metric).toInt64) := by
  unfold calcUsage countedAllotment
  simp only [hactive, Bool.not_true, Bool.false_eq_true, if_false]
  by_cases hbytes : metric = cstr "bytes"
  · simp only [hbytes, if_true]
    exact ⟨_, rfl⟩
  · simp only [hbytes, if_false]
    exact ⟨_, rfl⟩

theorem clientParseUsage_portalFormatUsage {s : TgSession} (hactive : s.active = true)
    {metric : CStr} (htotal : (countedAllotment s metric).toNat < 2 ^ 63) (nowMs : Int64)
    {bufSize : ℕ} (hbuf : 40 < bufSize) :
    clientParseUsage (portalFormatUsage (some s) metric nowMs bufSize) =
      calcUsage (some s) metric nowMs := by
  obtain ⟨remaining, hcalc⟩ := exists_calcUsage hactive metric nowMs
  unfold portalFormatUsage
  rw [hcalc]
  dsimp only
  rw [UInt64.toUInt64_toInt64,
    snprintf_of_length_lt ((length_usageLine_le htotal remaining).trans_lt hbuf),
    clientParseUsage_usageLine htotal]

/-- **Usage and session replies round trip.** For every active session whose allotment an
`int64_t` can hold, at every reading of the clock, and for every such allotment that is sold. -/
theorem usage_and_session_round_trip (cfg : Config) (s : TgSession) (hactive : s.active = true)
    (htotal : (countedAllotment s cfg.metric).toNat < 2 ^ 63) (nowMs : Int64) (bufSize : ℕ)
    (hbuf : 40 < bufSize) (parse : CStr → Option Json) (print : Json → CStr)
    (npubHex clientIp : CStr) (allotmentMs : UInt64) (hallotment : allotmentMs.toNat < 2 ^ 63)
    (hparse : parse (print (createSessionEvent npubHex clientIp cfg allotmentMs)) =
      some (createSessionEvent npubHex clientIp cfg allotmentMs)) :
    clientParseUsage (portalFormatUsage (some s) cfg.metric nowMs bufSize) =
        calcUsage (some s) cfg.metric nowMs ∧
      clientParseUsage (apiGetUsage (some s) cfg nowMs) = calcUsage (some s) cfg.metric nowMs ∧
      (clientParseSession parse (print (createSessionEvent npubHex clientIp cfg allotmentMs))).map
        Int64.toInt = some (allotmentMs.toNat : ℤ) := by
  refine ⟨clientParseUsage_portalFormatUsage hactive htotal nowMs hbuf, ?_, ?_⟩
  · rw [apiGetUsage_eq]
    exact clientParseUsage_portalFormatUsage hactive htotal nowMs (by omega)
  · have hlength := length_decimal_le (by omega : 0 < 19)
      (by omega : allotmentMs.toNat < 10 ^ 19)
    have hkind : kindOf (createSessionEvent npubHex clientIp cfg allotmentMs) = some 1022 := rfl
    -- only the third tag is an allotment
    have hread : (tagsOf (createSessionEvent npubHex clientIp cfg allotmentMs)).foldl
        readAllotment 0 = atoll (snprintf 32 (decimal allotmentMs.toNat)) := rfl
    unfold clientParseSession
    rw [hparse]
    dsimp only
    rw [if_neg (not_not.mpr hkind), hread, snprintf_of_length_lt (by omega),
      atoll_decimal hallotment, Option.map_some,
      (UInt64.toInt_toInt64_eq_iff allotmentMs).mpr hallotment]

/-- A session of a minute. -/
def sampleSession : TgSession := ⟨1, cstr "aa", 60000, 1000, 0, 0, .cashu, true⟩

/-- A gateway that sells time. -/
def timeGateway : Config := { sampleGateway.toConfig with metric := cstr "milliseconds" }

/-- The session that a minute costs. -/
def sampleSessionEvent : CStr :=
  cstr ("\x7b\"kind\":1022,\"pubkey\":\"02\",\"tags\":[[\"p\",\"unknown\"]," ++
    "[\"device-identifier\",\"mac\",\"192.168.4.2\"],[\"allotment\",\"60000\"]," ++
    "[\"metric\",\"milliseconds\"]],\"content\":\"\"\x7d")

theorem usage_and_session_round_trip_sample :
    clientParseUsage (portalFormatUsage (some sampleSession) timeGateway.metric 21000 64) =
        calcUsage (some sampleSession) timeGateway.metric 21000 ∧
      clientParseUsage (apiGetUsage (some sampleSession) timeGateway 21000) =
        calcUsage (some sampleSession) timeGateway.metric 21000 ∧
      (clientParseSession (fun text => if text = sampleSessionEvent then
        some (createSessionEvent (cstr "02") (cstr "192.168.4.2") timeGateway 60000) else none)
        sampleSessionEvent).map Int64.toInt = some (60000 : ℕ) :=
  usage_and_session_round_trip timeGateway sampleSession rfl (by decide) 21000 64 (by decide) _
    (fun _ => sampleSessionEvent) (cstr "02") (cstr "192.168.4.2") 60000 (by decide) (if_pos rfl)

/-- Forty of its sixty seconds remain after twenty. -/
example : apiGetUsage (some sampleSession) timeGateway 21000 = cstr "40000/60000" := by
  decide

end Api

end TollGate
