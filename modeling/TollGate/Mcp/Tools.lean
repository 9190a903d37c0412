import TollGate.Cvm.Server
import TollGate.Firmware.Config
import TollGate.Mcp.FeeLimits
import TollGate.Mcp.Withdrawal

/-!
# Remote configuration

`mcp_dispatch` hands a request to one of ten tools. Four of them write the configuration: three
setters of their own, and `set_config`, which writes several fields at once. `set_price` refuses a
price that is not positive and `set_metric` a metric that it does not know; `set_config` writes
both fields as well and takes any number and any string.

So billing stays sane through a run of requests if and only if no `set_config` among them has such
a value. A request that fails changes no part of the configuration (`billing_sane_iff`).
-/

namespace TollGate

namespace Mcp

open CStr CJson StepRun TollGate.Core TollGate.Cvm TollGate.Firmware TollGate.Wallet

/-! ### The device -/

/-- `PAYOUT_MAX_RECIPIENTS`. -/
abbrev maxRecipients : ℕ := 4

/-- What the tools read and write of `tollgate_config_t`: what payments and sessions read, the
networks, and the recipients of payouts with their counter. -/
structure Settings where
  config : Config
  apSsid : CStr
  networks : List WifiNetwork
  recipients : Fin maxRecipients → PayoutRecipient
  recipientCount : ℕ

/-- What the tools reach. -/
structure Device where
  settings : Settings
  till : Till
  sessions : Slot → TgSession

/-- The answer of a setter. -/
def statusOk : Response := ⟨true, cstr "\x7b\"status\":\"ok\"\x7d", []⟩

/-- The answer of a tool that prints a node. -/
def printed (printer : Json → CStr) (j : Json) : Response := ⟨true, snprintf 2048 (printer j), []⟩

/-! ### Tools that read -/

/-- `mcp_handle_get_config`. -/
def handleGetConfig (printer : Json → CStr) (c : Settings) : Response :=
  printed printer <| .object
    [(cstr "ssid", .string c.apSsid),
      (cstr "metric", .string c.config.metric),
      (cstr "price_per_step", .number (.ofInt c.config.pricePerStep)),
      (cstr "step_size_ms", .number (.ofInt c.config.stepSizeMs)),
      (cstr "step_size_bytes", .number (.ofInt c.config.stepSizeBytes)),
      (cstr "mint_url", .string c.config.mintUrl),
      (cstr "client_enabled", .bool c.config.clientEnabled),
      (cstr "payout_enabled", .bool c.config.payoutEnabled),
      (cstr "wifi_ssid", .string ((c.networks.head?.map WifiNetwork.ssid).getD []))]

/-- `nucula_wallet_proof_count`. -/
def proofCount (s : Purse) : Int32 := Int32.ofNat s.proofs.length

/-- `mcp_handle_get_balance`. -/
def handleGetBalance (printer : Json → CStr) (s : Purse) : Response :=
  printed printer <| .object
    [(cstr "balance_sats", .number (.ofUInt64 s.balance)),
      (cstr "proof_count", .number (.ofInt (proofCount s)))]

/-- `IPSTR` of an address. -/
def ipText (ip : Ip) : CStr :=
  snprintf 16 (List.intercalate [46] ((le32 ip).map fun b => decimal b.toNat))

/-- The node of a session. -/
def sessionNode (s : TgSession) : Json :=
  let mac : List (CStr × Json) := if s.mac = [] then [] else [(cstr "mac", .string s.mac)]
  let usage : List (CStr × Json) :=
    [(cstr "allotment_ms", .number (.ofUInt64 s.allotmentMs)),
      (cstr "allotment_bytes", .number (.ofUInt64 s.allotmentBytes)),
      (cstr "bytes_consumed", .number (.ofUInt64 s.bytesConsumed)),
      (cstr "active", .bool s.active)]
  .object ((cstr "client_ip", .string (ipText s.clientIp)) :: (mac ++ usage))

/-- `mcp_handle_get_sessions`. -/
def handleGetSessions (printer : Json → CStr) (sessions : Slot → TgSession) : Response :=
  printed printer (.array (((List.ofFn sessions).filter TgSession.active).map sessionNode))

/-- `mcp_handle_get_usage`. -/
def handleGetUsage (printer : Json → CStr) (cfg : Config) : Response :=
  printed printer <| .object
    [(cstr "metric", .string cfg.metric),
      (cstr "price_per_step", .number (.ofInt cfg.pricePerStep)),
      (cstr "step_size_ms", .number (.ofInt cfg.stepSizeMs)),
      (cstr "step_size_bytes", .number (.ofInt cfg.stepSizeBytes)),
      (cstr "client_enabled", .bool cfg.clientEnabled)]

/-! ### Tools that write -/

/-- One pass of the loop over the recipients. What the node does not give is kept. -/
def updateRecipient (old : PayoutRecipient) (r : Json) : PayoutRecipient where
  lightningAddress := match (r.getObjectItem "lightning_address").bind Json.asString with
    | some address => strncpy 128 address
    | none => old.lightningAddress
  factor := match (r.getObjectItem "factor").bind Json.asNumber with
    | some n => n.valuedouble
    | none => old.factor

/-- `mcp_handle_set_payout`. -/
def handleSetPayout (parse : CStr → Option Json) (c : Settings) (params : CStr) :
    Settings × Response :=
  match parse params with
  | none => (c, failure "Invalid JSON params")
  | some root =>
    let cfg := { c.config with payoutEnabled := boolSetting root "enabled" c.config.payoutEnabled }
    match (root.getObjectItem "recipients").bind Json.asArray with
    | none => ({ c with config := cfg }, statusOk)
    | some items =>
      -- items beyond the last slot are not looked at
      ({ c with
          config := cfg
          recipients := fun i =>
            (items[i.val]?.map (updateRecipient (c.recipients i))).getD (c.recipients i)
          recipientCount := min items.length maxRecipients }, statusOk)

/-- `mcp_handle_set_price`. -/
def handleSetPrice (parse : CStr → Option Json) (cfg : Config) (params : CStr) :
    Config × Response :=
  match parse params with
  | none => (cfg, failure "Invalid JSON params")
  | some root =>
    match (root.getObjectItem "price_per_step").bind Json.asNumber with
    | none => (cfg, failure "Missing or invalid 'price_per_step' field")
    | some n =>
      if n.valueint > 0 then
        ({ cfg with pricePerStep := n.valueint },
          ⟨true, cstr "\x7b\"status\":\"ok\",\"price_per_step\":" ++
            signedDecimal n.valueint.toInt ++ cstr "\x7d", []⟩)
      else (cfg, failure "Missing or invalid 'price_per_step' field")

/-! ### The dispatcher -/

section Dispatch

variable (parse : CStr → Option Json) (printer : Json → CStr) (lib : MeltLibrary)

/-- The device after a tool that writes what payments and sessions read. -/
def Device.configured (d : Device) (r : Config × Response) : Device × Response :=
  ({ d with settings := { d.settings with config := r.1 } }, r.2)

/-- `mcp_dispatch`. -/
def mcpDispatch (d : Device) (req : McpRequest) : Device × Response :=
  match req.tool with
  | .getConfig => (d, handleGetConfig printer d.settings)
  | .setConfig => d.configured (handleSetConfig parse d.settings.config req.paramsJson)
  | .getBalance => (d, handleGetBalance printer d.till.purse)
  | .walletSend =>
    let r := handleWalletSend parse printer lib.toLibrary d.till.purse req.paramsJson
    ({ d with till := { d.till with purse := r.1 } }, r.2)
  | .getSessions => (d, handleGetSessions printer d.sessions)
  | .getUsage => (d, handleGetUsage printer d.settings.config)
  | .setPayout =>
    let r := handleSetPayout parse d.settings req.paramsJson
    ({ d with settings := r.1 }, r.2)
  | .setMetric => d.configured (handleSetMetric parse d.settings.config req.paramsJson)
  | .setPrice => d.configured (handleSetPrice parse d.settings.config req.paramsJson)
  | .walletMelt =>
    let r := handleWalletMelt parse lib d.till req.paramsJson
    ({ d with till := r.1 }, r.2)
  | .unknown => (d, ⟨false, [], snprintf 256 (cstr "Unknown tool: " ++ req.method)⟩)

/-- A request is served. -/
def serve (d : Device) (req : McpRequest) : Device := (mcpDispatch parse printer lib d req).1

end Dispatch

/-! ### Sane billing -/

/-- One of the two metrics that there are. -/
def IsMetric (m : CStr) : Prop := m = cstr "bytes" ∨ m = cstr "milliseconds"

/-- The price and the steps are positive and the metric is one that there is. -/
structure Sane (cfg : Config) : Prop where
  price : 0 < cfg.pricePerStep
  stepMs : 0 < cfg.stepSizeMs
  stepBytes : 0 < cfg.stepSizeBytes
  metric : IsMetric cfg.metric

/-- A number that a node gives for a setting is positive. -/
def Positive (root : Json) (name : String) : Prop :=
  ∀ n, (root.getObjectItem name).bind Json.asNumber = some n → 0 < n.valueint

/-- What a node gives for the price, the steps and the metric is sane. -/
structure SaneArguments (root : Json) : Prop where
  price : Positive root "price_per_step"
  stepMs : Positive root "step_size_ms"
  stepBytes : Positive root "step_size_bytes"
  metric : ∀ m, (root.getObjectItem "metric").bind Json.asString = some m → IsMetric m

/-- If the request is one of `set_config`, its arguments are sane. -/
def KeepsSane (parse : CStr → Option Json) (req : McpRequest) : Prop :=
  req.tool = .setConfig → ∀ root, parse req.paramsJson = some root → SaneArguments root

section Billing

variable {parse : CStr → Option Json} {printer : Json → CStr} {lib : MeltLibrary} {d : Device}
  {cfg : Config} {root : Json} {params : CStr}

theorem isMetric_strncpy (m : CStr) : IsMetric (strncpy Config.metricSize m) ↔ IsMetric m := by
  have hbytes : (cstr "bytes").length + 1 < Config.metricSize := by decide
  have htime : (cstr "milliseconds").length + 1 < Config.metricSize := by decide
  exact or_congr (strncpy_eq_iff hbytes) (strncpy_eq_iff htime)

/-- A setting that was positive stays so exactly if what is given is. -/
theorem intSetting_pos_iff {name : String} {old : Int32} (h : 0 < old) :
    0 < intSetting root name old ↔ Positive root name := by
  unfold intSetting Positive
  cases (root.getObjectItem name).bind Json.asNumber with
  | none => exact iff_of_true h nofun
  | some n => exact ⟨fun hn n' heq => Option.some.inj heq ▸ hn, fun hall => hall n rfl⟩

theorem sane_setConfig_iff (h : Sane cfg) :
    Sane (handleSetConfig parse cfg params).1 ↔
      ∀ root, parse params = some root → SaneArguments root := by
  unfold handleSetConfig
  cases parse params with
  | none => exact iff_of_true h nofun
  | some root =>
    have hmetric : IsMetric (match (root.getObjectItem "metric").bind Json.asString with
        | some m => strncpy Config.metricSize m
        | none => cfg.metric) ↔
        ∀ m, (root.getObjectItem "metric").bind Json.asString = some m → IsMetric m := by
      cases (root.getObjectItem "metric").bind Json.asString with
      | none => exact iff_of_true h.metric nofun
      | some m =>
        rw [isMetric_strncpy]
        exact ⟨fun hm m' heq => Option.some.inj heq ▸ hm, fun hall => hall m rfl⟩
    constructor
    · rintro ⟨hprice, hms, hbytes, hm⟩ root' heq
      obtain rfl := Option.some.inj heq
      exact ⟨(intSetting_pos_iff h.price).mp hprice, (intSetting_pos_iff h.stepMs).mp hms,
        (intSetting_pos_iff h.stepBytes).mp hbytes, hmetric.mp hm⟩
    · intro hall
      obtain ⟨hprice, hms, hbytes, hm⟩ := hall root rfl
      exact ⟨(intSetting_pos_iff h.price).mpr hprice, (intSetting_pos_iff h.stepMs).mpr hms,
        (intSetting_pos_iff h.stepBytes).mpr hbytes, hmetric.mpr hm⟩

/-- `set_metric` writes only a metric that there is. -/
theorem sane_setMetric (h : Sane cfg) : Sane (handleSetMetric parse cfg params).1 := by
  unfold handleSetMetric
  split
  · exact h
  next root hroot =>
    split
    · exact h
    next m hm =>
      split
      next hok => exact { h with metric := (isMetric_strncpy m).mpr hok }
      · exact h

/-- `set_price` writes only a positive price. -/
theorem sane_setPrice (h : Sane cfg) : Sane (handleSetPrice parse cfg params).1 := by
  unfold handleSetPrice
  split
  · exact h
  next root hroot =>
    split
    · exact h
    next n hn =>
      split
      next hpos => exact { h with price := hpos }
      · exact h

/-- `set_payout` writes nothing that payments read, but for the switch of the payout. -/
theorem sane_setPayout {c : Settings} (h : Sane c.config) :
    Sane (handleSetPayout parse c params).1.config := by
  unfold handleSetPayout
  split
  · exact h
  next root hroot =>
    dsimp only
    split
    · exact { h with }
    · exact { h with }

/-- **One request** keeps billing sane exactly if it is no `set_config` with other arguments. -/
theorem sane_serve_iff (h : Sane d.settings.config) (req : McpRequest) :
    Sane (serve parse printer lib d req).settings.config ↔ KeepsSane parse req := by
  unfold serve mcpDispatch KeepsSane
  cases req.tool with
  | setConfig => exact (sane_setConfig_iff h).trans ⟨fun hall _ => hall, fun hall => hall rfl⟩
  | setMetric => exact iff_of_true (sane_setMetric h) nofun
  | setPrice => exact iff_of_true (sane_setPrice h) nofun
  | setPayout => exact iff_of_true (sane_setPayout h) nofun
  | getConfig => exact iff_of_true h nofun
  | getBalance => exact iff_of_true h nofun
  | walletSend => exact iff_of_true h nofun
  | getSessions => exact iff_of_true h nofun
  | getUsage => exact iff_of_true h nofun
  | walletMelt => exact iff_of_true h nofun
  | unknown => exact iff_of_true h nofun

theorem setPrice_failed (h : (handleSetPrice parse cfg params).2.success = false) :
    (handleSetPrice parse cfg params).1 = cfg := by
  revert h
  unfold handleSetPrice
  split
  · exact fun _ => rfl
  · split
    · exact fun _ => rfl
    · split
      · exact fun h => absurd h Bool.noConfusion
      · exact fun _ => rfl

theorem setPayout_failed {c : Settings} (h : (handleSetPayout parse c params).2.success = false) :
    (handleSetPayout parse c params).1 = c := by
  revert h
  unfold handleSetPayout
  split
  · exact fun _ => rfl
  · -- with arguments that are JSON it always succeeds
    dsimp only
    split
    · exact fun h => absurd h Bool.noConfusion
    · exact fun h => absurd h Bool.noConfusion

theorem settings_configured (d : Device) (r : Config × Response) (h : r.1 = d.settings.config) :
    (d.configured r).1.settings = d.settings := by
  unfold Device.configured
  rw [h]

/-- A request that fails leaves the configuration as it was. -/
theorem mcpDispatch_failed (req : McpRequest)
    (h : (mcpDispatch parse printer lib d req).2.success = false) :
    (mcpDispatch parse printer lib d req).1.settings = d.settings := by
  unfold mcpDispatch at h ⊢
  cases htool : req.tool with
  | setConfig =>
    rw [htool] at h
    exact settings_configured d _ (handle_failed (.setConfig req.paramsJson) h)
  | setMetric =>
    rw [htool] at h
    exact settings_configured d _ (handle_failed (.setMetric req.paramsJson) h)
  | setPrice =>
    rw [htool] at h
    exact settings_configured d _ (setPrice_failed h)
  | setPayout =>
    rw [htool] at h
    exact setPayout_failed h
  | getConfig => rfl
  | getBalance => rfl
  | walletSend => rfl
  | getSessions => rfl
  | getUsage => rfl
  | walletMelt => rfl
  | unknown => rfl

/-- **Sane billing.** In every state of a run billing is sane exactly if no request of the run is a
`set_config` with a price or a step that is not positive or with another metric; and in every run a
request that fails changes no part of the configuration. -/
theorem billing_sane_iff (h : Sane d.settings.config) (requests : List McpRequest) :
    (Always (serve parse printer lib) (fun d => Sane d.settings.config) d requests ↔
      ∀ req ∈ requests, KeepsSane parse req) ∧
    AllSteps (serve parse printer lib) (fun d req =>
      (mcpDispatch parse printer lib d req).2.success = false →
        (serve parse printer lib d req).settings = d.settings) d requests := by
  constructor
  · have hstep : ∀ (d : Device) req, Sane d.settings.config →
        (Sane (serve parse printer lib d req).settings.config ↔ KeepsSane parse req) :=
      fun d req hsane => sane_serve_iff hsane req
    exact (always_iff hstep h).trans allSteps_const
  · exact allSteps_iff.mpr fun front req back _ => mcpDispatch_failed req

end Billing

/-! ### A free step -/

/-- A device that sells minutes for 21 sats. -/
def minuteDevice : Device where
  settings := ⟨timeConfig, cstr "TollGate", [], fun _ => ⟨[], 0⟩, 0⟩
  till := ⟨⟨[], fun _ => false⟩, []⟩
  sessions := fun _ => .zero

/-- A price in the arguments of a call. -/
def priceText (price : String) : CStr := cstr ("\x7b\"price_per_step\":" ++ price ++ "\x7d")

/-- cJSON on the prices 0 and 42. -/
def parsePrice (text : CStr) : Option Json :=
  if text = priceText "0" then
    some (.object [(cstr "price_per_step", .number (.ofInt 0))])
  else if text = priceText "42" then
    some (.object [(cstr "price_per_step", .number (.ofInt 42))])
  else none

/-- A call of `set_config` with a price. -/
def setPriceRequest (price : String) : McpRequest :=
  ⟨.setConfig, cstr "set_config", priceText price⟩

theorem sane_minuteDevice : Sane minuteDevice.settings.config :=
  ⟨by decide, by decide, by decide, .inr rfl⟩

/-- After a price of zero a step costs nothing. -/
theorem free_step :
    Sane minuteDevice.settings.config ∧
      ¬ Always (serve parsePrice JsonText.unformatted quoteLibrary)
        (fun d => Sane d.settings.config) minuteDevice [setPriceRequest "0"] := by
  refine ⟨sane_minuteDevice, fun halways => ?_⟩
  have hsane := halways [setPriceRequest "0"] [] rfl
  have hprice : (serve parsePrice JsonText.unformatted quoteLibrary minuteDevice
      (setPriceRequest "0")).settings.config.pricePerStep = 0 := rfl
  exact absurd (hprice ▸ hsane.price) (by decide)

/-- A price of 42 is one. -/
theorem billing_sane_iff_sample :
    Sane minuteDevice.settings.config ∧
      Always (serve parsePrice JsonText.unformatted quoteLibrary)
        (fun d => Sane d.settings.config) minuteDevice [setPriceRequest "42"] := by
  refine ⟨sane_minuteDevice, (billing_sane_iff sane_minuteDevice _).1.mpr ?_⟩
  intro req hreq _ root hroot
  obtain rfl := List.mem_singleton.mp hreq
  obtain rfl := Option.some.inj hroot
  refine ⟨?_, nofun, nofun, nofun⟩
  intro n hn
  obtain rfl := Option.some.inj hn
  decide

end Mcp

end TollGate
