import TollGate.Lib.CJson

/-!
# The configuration and its file

`tollgate_config_init` fills the configuration from `config.json`: each field has a default, and
a few lists have one that is put in when the file gives them no entry.
`tollgate_config_add_wifi` adds a network and writes the file again, with nine of the members
that the loader reads.

So the configuration survives the next start exactly if every other field has the value that
the loader gives it on its own (`addWifi_survives_iff`).
-/

namespace TollGate

namespace Firmware

open CJson CStr

/-! ### The configuration -/

/-- `wifi_network_t`. -/
structure WifiNetwork where
  ssid : CStr
  password : CStr
deriving DecidableEq

/-- `payout_mint_config_t`. -/
structure PayoutMint where
  url : CStr
  minBalance : UInt64
  minPayoutAmount : UInt64
deriving DecidableEq

/-- `payout_recipient_t`. -/
structure PayoutRecipient where
  lightningAddress : CStr
  factor : ℚ
deriving DecidableEq

/-- `payout_config_t`. -/
structure PayoutConfig where
  enabled : Bool
  mints : List PayoutMint
  recipients : List PayoutRecipient
  feeTolerancePct : UInt64
  checkIntervalS : Int32
deriving DecidableEq

/-- `mining_payout_mode_t`. -/
inductive MiningPayoutMode where
  | auto
  | pool
  | upstream
  | proxyOnly
deriving DecidableEq

/-- `tollgate_config_t`, without what `tollgate_config_derive_unique` puts in. An array with a
counter is the list of its entries below the counter. -/
structure TollgateConfig where
  networks : List WifiNetwork
  currentNetwork : Int32
  maxRetry : Int32
  nsec : CStr
  apPassword : CStr
  apChannel : UInt8
  apMaxConn : UInt8
  mintUrl : CStr
  acceptedMints : List CStr
  lnurlUrl : CStr
  pricePerStep : Int32
  stepSizeMs : Int32
  stepSizeBytes : Int32
  metric : CStr
  persistThresholdSats : UInt64
  nostrGeohash : CStr
  nostrRelays : List CStr
  nostrPublishIntervalS : Int32
  nostrSyncIntervalS : Int32
  nostrFallbackSyncIntervalS : Int32
  clientEnabled : Bool
  clientStepsToBuy : Int32
  clientRenewalThresholdPct : Int32
  clientRetryIntervalMs : Int32
  payout : PayoutConfig
  cvmEnabled : Bool
  cvmRelays : CStr
  wifiAuthMode : CStr
  displayEnabled : Bool
  nostrSeedRelays : List CStr
  marketEnabled : Bool
  marketScanIntervalS : Int32
  clientAutoSwitch : Bool
  syncEnabled : Bool
  wifistrEnabled : Bool
  localRelayEnabled : Bool
  mintHealthEnabled : Bool
  miningEnabled : Bool
  miningPayoutMode : MiningPayoutMode
  stratumHost : CStr
  stratumPort : UInt16
  stratumUser : CStr
  stratumPass : CStr
  stratumFallbackHost : CStr
  stratumFallbackPort : UInt16
  miningPort : UInt16
  hashpriceSatsPerGhsDay : UInt64
  miningSandboxMintAccess : Bool
  proxySelfTest : Bool
  faucetUrl : CStr
  faucetPollIntervalS : Int32
deriving DecidableEq

/-- The zeroed record with the defaults that `tollgate_config_init` begins with. -/
def TollgateConfig.initial : TollgateConfig where
  networks := []
  currentNetwork := 0
  maxRetry := 5
  nsec := []
  apPassword := []
  apChannel := 1
  apMaxConn := 4
  mintUrl := []
  acceptedMints := []
  lnurlUrl := []
  pricePerStep := 21
  stepSizeMs := 60000
  stepSizeBytes := 22020096
  metric := cstr "milliseconds"
  persistThresholdSats := 1
  nostrGeohash := []
  nostrRelays := []
  nostrPublishIntervalS := 21600
  nostrSyncIntervalS := 1800
  nostrFallbackSyncIntervalS := 21600
  clientEnabled := false
  clientStepsToBuy := 1
  clientRenewalThresholdPct := 20
  clientRetryIntervalMs := 30000
  payout := ⟨true, [], [], 10, 60⟩
  cvmEnabled := true
  cvmRelays := cstr "wss://nos.lol"
  wifiAuthMode := cstr "WPA2"
  displayEnabled := true
  nostrSeedRelays := []
  marketEnabled := true
  marketScanIntervalS := 30
  clientAutoSwitch := false
  syncEnabled := true
  wifistrEnabled := true
  localRelayEnabled := true
  mintHealthEnabled := true
  miningEnabled := false
  miningPayoutMode := .auto
  stratumHost := []
  stratumPort := 3333
  stratumUser := []
  stratumPass := []
  stratumFallbackHost := []
  stratumFallbackPort := 0
  miningPort := 3334
  hashpriceSatsPerGhsDay := 0
  miningSandboxMintAccess := false
  proxySelfTest := true
  faucetUrl := []
  faucetPollIntervalS := 120

/-- The relays that are used when the file names none. -/
def defaultRelays : List CStr :=
  [cstr "wss://relay.damus.io", cstr "wss://nos.lol", cstr "wss://relay.anzenkodo.workers.dev",
    cstr "wss://nostr.koning-degraaf.nl"]

/-- The seed relays that are used when the file names none. -/
def defaultSeedRelays : List CStr :=
  [cstr "wss://relay.orangesync.tech", cstr "wss://relay.damus.io", cstr "wss://nos.lol",
    cstr "wss://relay.nostr.band", cstr "wss://relay.anzenkodo.workers.dev",
    cstr "wss://nostr.koning-degraaf.nl", cstr "wss://knostr.neutrine.com",
    cstr "wss://nostr.einundzwanzig.space"]

/-- The mint that pays out when the file names none. -/
def defaultPayoutMints (mintUrl : CStr) : List PayoutMint :=
  if mintUrl = [] then [] else [⟨strncpy 256 mintUrl, 64, 128⟩]

/-- The recipient when the file names none. -/
def defaultRecipient : PayoutRecipient := ⟨cstr "TollGate@coinos.io", 1⟩

/-- The accepted mints when the file names none. -/
def defaultAcceptedMints (mintUrl : CStr) : List CStr :=
  if mintUrl = [] then [] else [strncpy 256 mintUrl]

/-! ### Members of the file -/

section Members

variable (j : Json) (name : String)

/-- `valueint` of a member of any kind. -/
def intAt (d : Int32) : Int32 := ((j.getObjectItem name).map Json.valueint).getD d

/-- `valueint` of a member, as a `uint16_t`. -/
def portAt (d : UInt16) : UInt16 :=
  ((j.getObjectItem name).map fun v => v.valueint.toUInt32.toUInt16).getD d

/-- `valuedouble` of a member of any kind, as a `uint64_t`. -/
def uint64At (d : UInt64) : UInt64 :=
  ((j.getObjectItem name).map fun v => v.toNumber.valueUInt64).getD d

/-- A member that is a boolean. -/
def boolAt (d : Bool) : Bool := ((j.getObjectItem name).bind Json.asBool).getD d

/-- A member that is a string, in a field of `size` bytes. -/
def textAt (size : ℕ) (d : CStr) : CStr :=
  (((j.getObjectItem name).bind Json.asString).map (strncpy size)).getD d

/-- A member that is taken for a string without a test. -/
def rawTextAt (size : ℕ) (d : CStr) : Except Fault CStr :=
  match j.getObjectItem name with
  | none => .ok d
  | some v =>
    match v.asString with
    | some s => .ok (strncpy size s)
    | none => .error .nullPointer

/-- The first items of a member that is an array. -/
def itemsAt (max : ℕ) : List Json := (((j.getObjectItem name).bind Json.asArray).getD []).take max

/-- A member that is an object; without it nothing is read of one that is empty. -/
def objectAt : Json :=
  match j.getObjectItem name with
  | some (.object members) => .object members
  | _ => .object []

end Members

/-- The entries below the counter, when a slot without an entry stays zero and is not counted. -/
def counted {α : Type} (zero : α) (slots : List (Option α)) : List α :=
  (slots.map fun slot => slot.getD zero).take slots.reduceOption.length

/-- The strings of an array, in fields of `size` bytes. -/
def textsAt (j : Json) (name : String) (max size : ℕ) : List CStr :=
  counted [] ((itemsAt j name max).map fun item => item.asString.map (strncpy size))

/-! ### Loading -/

/-- An item of `wifi_networks`. -/
def readNetwork (net : Json) : Except Fault (Option WifiNetwork) :=
  match net.getObjectItem "ssid", net.getObjectItem "password" with
  | some ssid, some pass =>
    match ssid.asString, pass.asString with
    | some ssid, some pass => .ok (some ⟨strncpy 32 ssid, strncpy 64 pass⟩)
    | _, _ => .error .nullPointer
  | _, _ => .ok none

/-- `TOLLGATE_MAX_WIFI_NETWORKS`. -/
abbrev maxWifiNetworks : ℕ := 5

/-- The network of an older form of the file. -/
def oldNetwork (root : Json) : List WifiNetwork :=
  match (root.getObjectItem "wifi_ssid").bind Json.asString,
      (root.getObjectItem "wifi_password").bind Json.asString with
  | some ssid, some pass => [⟨strncpy 32 ssid, strncpy 64 pass⟩]
  | _, _ => []

/-- The networks. Without any, the older form is tried. -/
def readNetworks (root : Json) : Except Fault (List WifiNetwork) := do
  let slots ← (itemsAt root "wifi_networks" maxWifiNetworks).mapM readNetwork
  let networks := counted ⟨[], []⟩ slots
  return if networks = [] then oldNetwork root else networks

/-- The lines on `payout`. -/
def readPayout (payout : Json) (d : PayoutConfig) (mintUrl : CStr) : PayoutConfig :=
  let recipients := (itemsAt payout "recipients" 4).map fun r =>
    { lightningAddress := textAt r "lightning_address" 128 []
      factor := (((r.getObjectItem "factor").bind Json.asNumber).map Number.valuedouble).getD 0 }
  let mints := (itemsAt payout "mints" 3).map fun m =>
    { url := textAt m "url" 256 []
      minBalance :=
        (((m.getObjectItem "min_balance").bind Json.asNumber).map Number.valueUInt64).getD 0
      minPayoutAmount :=
        (((m.getObjectItem "min_payout_amount").bind Json.asNumber).map Number.valueUInt64).getD 0 }
  { enabled := boolAt payout "enabled" d.enabled
    mints := if mints = [] then defaultPayoutMints mintUrl else mints
    recipients := if recipients = [] then [defaultRecipient] else recipients
    feeTolerancePct := uint64At payout "fee_tolerance_pct" d.feeTolerancePct
    checkIntervalS := intAt payout "check_interval_s" d.checkIntervalS }

/-- The mode of `payout_mode`; any other text leaves it as it is. -/
def readPayoutMode (mining : Json) (d : MiningPayoutMode) : MiningPayoutMode :=
  match (mining.getObjectItem "payout_mode").bind Json.asString with
  | none => d
  | some mode =>
    if mode = cstr "pool" then .pool
    else if mode = cstr "upstream" then .upstream
    else if mode = cstr "proxy_only" then .proxyOnly
    else d

/-- The lines on `mining`. -/
def readMining (mining : Json) (c : TollgateConfig) : TollgateConfig :=
  { c with
    miningEnabled := boolAt mining "enabled" c.miningEnabled
    miningPayoutMode := readPayoutMode mining c.miningPayoutMode
    stratumHost := textAt mining "stratum_host" 128 c.stratumHost
    stratumPort := portAt mining "stratum_port" c.stratumPort
    stratumUser := textAt mining "stratum_user" 128 c.stratumUser
    stratumPass := textAt mining "stratum_pass" 64 c.stratumPass
    stratumFallbackHost := textAt mining "stratum_fallback_host" 128 c.stratumFallbackHost
    stratumFallbackPort := portAt mining "stratum_fallback_port" c.stratumFallbackPort
    miningPort := portAt mining "mining_port" c.miningPort
    hashpriceSatsPerGhsDay := uint64At mining "hashprice_sats_per_ghs_day" c.hashpriceSatsPerGhsDay
    miningSandboxMintAccess := boolAt mining "sandbox_mint_access" c.miningSandboxMintAccess
    proxySelfTest := boolAt mining "proxy_self_test" c.proxySelfTest
    faucetUrl := textAt mining "faucet_url" 256 c.faucetUrl
    faucetPollIntervalS := intAt mining "faucet_poll_interval_s" c.faucetPollIntervalS }

/-- What `tollgate_config_init` makes of the parsed file: nothing if there is no key in it. -/
def loadConfig (root : Json) : Except Fault (Option TollgateConfig) :=
  match (root.getObjectItem "nsec").bind Json.asString with
  | none => .ok none
  | some nsec => do
    let d := TollgateConfig.initial
    let networks ← readNetworks root
    let apPassword ← rawTextAt root "ap_password" 64 d.apPassword
    let mintUrl ← rawTextAt root "mint_url" 256 d.mintUrl
    let acceptedMints := textsAt root "accepted_mints" 8 256
    let lnurlUrl ← rawTextAt root "lnurl_url" 256 d.lnurlUrl
    let nostrGeohash ← rawTextAt root "nostr_geohash" 16 (strncpy 16 (cstr "u281w0dfz"))
    let nostrRelays := textsAt root "nostr_relays" 4 128
    let seedRelays := textsAt root "nostr_seed_relays" 8 128
    let cvm := objectAt root "cvm"
    return some <| readMining (objectAt root "mining")
      { d with
        nsec := strncpy 65 nsec
        networks := networks
        apPassword := apPassword
        mintUrl := mintUrl
        acceptedMints :=
          if acceptedMints = [] then defaultAcceptedMints mintUrl else acceptedMints
        lnurlUrl := lnurlUrl
        pricePerStep := intAt root "price_per_step" d.pricePerStep
        stepSizeMs := intAt root "step_size_ms" d.stepSizeMs
        stepSizeBytes := intAt root "step_size_bytes" d.stepSizeBytes
        metric := textAt root "metric" 16 d.metric
        persistThresholdSats := uint64At root "persist_threshold_sats" d.persistThresholdSats
        nostrGeohash := nostrGeohash
        nostrRelays := if nostrRelays = [] then defaultRelays else nostrRelays
        nostrPublishIntervalS := intAt root "nostr_publish_interval_s" d.nostrPublishIntervalS
        nostrSyncIntervalS := intAt root "nostr_sync_interval_s" d.nostrSyncIntervalS
        nostrFallbackSyncIntervalS :=
          intAt root "nostr_fallback_sync_interval_s" d.nostrFallbackSyncIntervalS
        nostrSeedRelays := if seedRelays = [] then defaultSeedRelays else seedRelays
        clientEnabled := boolAt root "client_enabled" d.clientEnabled
        clientStepsToBuy := intAt root "client_steps_to_buy" d.clientStepsToBuy
        clientRenewalThresholdPct :=
          intAt root "client_renewal_threshold_pct" d.clientRenewalThresholdPct
        clientRetryIntervalMs := intAt root "client_retry_interval_ms" d.clientRetryIntervalMs
        payout := readPayout (objectAt root "payout") d.payout mintUrl
        -- the member at the top outranks the one under `cvm`
        cvmEnabled := boolAt root "cvm_enabled" (boolAt cvm "enabled" d.cvmEnabled)
        cvmRelays := textAt cvm "relays" 256 d.cvmRelays
        wifiAuthMode := textAt root "wifi_auth_mode" 16 d.wifiAuthMode
        displayEnabled := boolAt root "display_enabled" d.displayEnabled
        marketEnabled := boolAt root "market_enabled" d.marketEnabled
        marketScanIntervalS := intAt root "market_scan_interval_s" d.marketScanIntervalS
        clientAutoSwitch := boolAt root "client_auto_switch" d.clientAutoSwitch
        syncEnabled := boolAt root "sync_enabled" d.syncEnabled
        wifistrEnabled := boolAt root "wifistr_enabled" d.wifistrEnabled
        localRelayEnabled := boolAt root "local_relay_enabled" d.localRelayEnabled
        mintHealthEnabled := boolAt root "mint_health_enabled" d.mintHealthEnabled }

/-- The file that is written when there is none. -/
def defaultJson : CStr :=
  cstr ("\x7b\"nsec\":\"a1b2c3d4e5f6a1b2c3d4e5f6a1b2c3d4e5f6a1b2c3d4e5f6a1b2c3d4e5f6a1b2\"," ++
    "\"wifi_networks\":[\x7b\"ssid\":\"c03rad0r\",\"password\":\"c03rad0r123\"\x7d]," ++
    "\"ap_password\":\"\",\"mint_url\":\"https://testnut.cashu.exchange\"," ++
    "\"accepted_mints\":[\"https://testnut.cashu.exchange\"],\"price_per_step\":21," ++
    "\"step_size_ms\":60000,\"nostr_geohash\":\"u281w0dfz\"," ++
    "\"nostr_relays\":[\"wss://relay.damus.io\",\"wss://nos.lol\"]," ++
    "\"nostr_publish_interval_s\":21600,\"nostr_sync_interval_s\":1800," ++
    "\"nostr_fallback_sync_interval_s\":21600,\"client_enabled\":false," ++
    "\"client_steps_to_buy\":1,\"client_renewal_threshold_pct\":20," ++
    "\"client_retry_interval_ms\":30000\x7d")

/-- `tollgate_config_init`, when the file system and the memory are there. -/
def tollgateConfigInit (parse : CStr → Option Json) (file : Option CStr) :
    Except Fault (Option TollgateConfig) :=
  match parse (file.getD defaultJson) with
  | none => .ok none
  | some root => loadConfig root

/-! ### Adding a network -/

/-- An entry of `wifi_networks`. -/
def networkItem (net : WifiNetwork) : Json :=
  .ofMembers [("ssid", some (.string net.ssid)), ("password", some (.string net.password))]

/-- The members that `tollgate_config_add_wifi` writes. -/
def writtenMembers (c : TollgateConfig) : List (String × Option Json) := [
  ("nsec", some (.string c.nsec)),
  ("wifi_networks", some (.array (c.networks.map networkItem))),
  ("ap_password", if c.apPassword = [] then none else some (.string c.apPassword)),
  ("mint_url", some (.string c.mintUrl)),
  ("price_per_step", some (.number (.ofInt c.pricePerStep))),
  ("step_size_ms", some (.number (.ofInt c.stepSizeMs))),
  ("metric", if c.metric = [] then none else some (.string c.metric)),
  ("nostr_geohash", if c.nostrGeohash = [] then none else some (.string c.nostrGeohash)),
  ("nostr_relays", some (.array (c.nostrRelays.map .string)))]

/-- The object that it writes. -/
def writtenRoot (c : TollgateConfig) : Json := .ofMembers (writtenMembers c)

/-- The errors of `tollgate_config_add_wifi`. -/
inductive AddWifiError where
  | invalidArg
  | noMem
deriving DecidableEq

/-- `tollgate_config_add_wifi`: the configuration and the file after it, where `opened` says
whether the file could be opened. -/
def tollgateConfigAddWifi (print : Json → CStr) (opened : Bool) (c : TollgateConfig)
    (file : Option CStr) (ssid password : Option CStr) :
    Except AddWifiError (TollgateConfig × Option CStr) :=
  match ssid, password with
  | some ssid, some password =>
    if c.networks.length ≥ maxWifiNetworks then .error .noMem
    else
      let c := { c with networks := c.networks ++ [⟨strncpy 32 ssid, strncpy 64 password⟩] }
      .ok (c, if opened then some (print (writtenRoot c)) else file)
  | _, _ => .error .invalidArg

/-! ### What a loaded configuration is like -/

theorem bind_eq_ok_iff {ε α β : Type} {x : Except ε α} {f : α → Except ε β} {b : β} :
    (x >>= f) = .ok b ↔ ∃ a, x = .ok a ∧ f a = .ok b := by
  cases x with
  | error e => simp [Bind.bind, Except.bind]
  | ok a => simp [Bind.bind, Except.bind]

theorem forall₂_of_mapM {ε α β : Type} {f : α → Except ε β} {xs : List α} {ys : List β}
    (h : xs.mapM f = .ok ys) : List.Forall₂ (fun x y => f x = .ok y) xs ys := by
  induction xs generalizing ys with
  | nil =>
    obtain rfl : [] = ys := Except.ok.inj h
    exact .nil
  | cons x xs ih =>
    rw [List.mapM_cons] at h
    obtain ⟨y, hy, h⟩ := bind_eq_ok_iff.mp h
    obtain ⟨ys', hys, h⟩ := bind_eq_ok_iff.mp h
    obtain rfl : y :: ys' = ys := Except.ok.inj h
    exact .cons hy (ih hys)

theorem exists_of_forall₂ {α β : Type} {R : α → β → Prop} {xs : List α} {ys : List β}
    (h : List.Forall₂ R xs ys) {y : β} (hy : y ∈ ys) : ∃ x, R x y := by
  induction h with
  | nil => cases hy
  | cons hxy _ ih =>
    rcases List.mem_cons.mp hy with rfl | hy
    · exact ⟨_, hxy⟩
    · exact ih hy

section Counted

variable {α : Type} {zero : α}

theorem counted_map_some (xs : List α) : counted zero (xs.map some) = xs := by
  simp [counted, List.reduceOption, Function.comp_def]

theorem mem_counted {slots : List (Option α)} {a : α} (h : a ∈ counted zero slots) :
    a = zero ∨ some a ∈ slots := by
  obtain ⟨slot, hslot, rfl⟩ := List.mem_map.mp (List.mem_of_mem_take h)
  cases slot with
  | none => exact .inl rfl
  | some a => exact .inr hslot

theorem length_counted_le (slots : List (Option α)) :
    (counted zero slots).length ≤ slots.length := by
  unfold counted
  rw [List.length_take, List.length_map]
  exact min_le_right _ _

end Counted

theorem length_strncpy_lt {size : ℕ} (hsize : 0 < size) (s : CStr) :
    (strncpy size s).length < size := by
  unfold strncpy
  rw [List.length_take]
  omega

theorem length_textAt_lt {size : ℕ} {d : CStr} (hd : d.length < size) (j : Json) (name : String) :
    (textAt j name size d).length < size := by
  unfold textAt
  cases (j.getObjectItem name).bind Json.asString with
  | none => exact hd
  | some s => exact length_strncpy_lt (by omega) s

theorem length_rawTextAt_lt {j : Json} {name : String} {size : ℕ} {d text : CStr}
    (hd : d.length < size) (h : rawTextAt j name size d = .ok text) : text.length < size := by
  unfold rawTextAt at h
  split at h
  · rw [← Except.ok.inj h]
    exact hd
  · split at h
    · rw [← Except.ok.inj h]
      exact length_strncpy_lt (by omega) _
    · cases h

theorem length_itemsAt_le (j : Json) (name : String) (max : ℕ) :
    (itemsAt j name max).length ≤ max := by
  unfold itemsAt
  rw [List.length_take]
  exact min_le_left _ _

theorem length_textsAt_le (j : Json) (name : String) (max size : ℕ) :
    (textsAt j name max size).length ≤ max := by
  refine (length_counted_le _).trans ?_
  rw [List.length_map]
  exact length_itemsAt_le j name max

theorem length_lt_of_mem_textsAt {j : Json} {name : String} {max size : ℕ} (hsize : 0 < size)
    {text : CStr} (h : text ∈ textsAt j name max size) : text.length < size := by
  rcases mem_counted h with rfl | hmem
  · exact hsize
  · obtain ⟨item, -, hitem⟩ := List.mem_map.mp hmem
    obtain ⟨s, -, rfl⟩ := Option.map_eq_some_iff.mp hitem
    exact length_strncpy_lt hsize s

/-- The network fits its record. -/
def WifiNetwork.Fits (net : WifiNetwork) : Prop := net.ssid.length < 32 ∧ net.password.length < 64

theorem fits_of_readNetworks {root : Json} {networks : List WifiNetwork}
    (h : readNetworks root = .ok networks) :
    networks.length ≤ maxWifiNetworks ∧ ∀ net ∈ networks, net.Fits := by
  have hcut : ∀ ssid pass, (WifiNetwork.mk (strncpy 32 ssid) (strncpy 64 pass)).Fits := fun _ _ =>
    ⟨length_strncpy_lt (by norm_num) _, length_strncpy_lt (by norm_num) _⟩
  obtain ⟨slots, hslots, h⟩ := bind_eq_ok_iff.mp h
  obtain rfl := Except.ok.inj h
  have hread := forall₂_of_mapM hslots
  split
  · -- the older form has one network
    unfold oldNetwork
    split
    · refine ⟨show 1 ≤ 5 by decide, fun net hnet => ?_⟩
      rw [List.mem_singleton.mp hnet]
      exact hcut _ _
    · exact ⟨by decide, fun net hnet => by cases hnet⟩
  · refine ⟨(length_counted_le slots).trans ?_, fun net hnet => ?_⟩
    · rw [← hread.length_eq]
      exact length_itemsAt_le root _ _
    · rcases mem_counted hnet with rfl | hmem
      · exact ⟨by decide, by decide⟩
      · obtain ⟨item, hitem⟩ := exists_of_forall₂ hread hmem
        unfold readNetwork at hitem
        split at hitem
        · split at hitem
          · obtain rfl := Option.some.inj (Except.ok.inj hitem)
            exact hcut _ _
          · cases hitem
        · cases hitem

/-- The fields that are written again are as long as they may be. -/
structure TollgateConfig.Fits (c : TollgateConfig) : Prop where
  networks : ∀ net ∈ c.networks, net.Fits
  networks_length : c.networks.length ≤ maxWifiNetworks
  nsec : c.nsec.length < 65
  apPassword : c.apPassword.length < 64
  mintUrl : c.mintUrl.length < 256
  metric : c.metric.length < 16
  nostrGeohash : c.nostrGeohash.length < 16
  nostrRelays : ∀ relay ∈ c.nostrRelays, relay.length < 128
  nostrRelays_length : c.nostrRelays.length ≤ 4
  nostrRelays_ne_nil : c.nostrRelays ≠ []

theorem fits_of_loadConfig {root : Json} {c : TollgateConfig} (h : loadConfig root = .ok (some c)) :
    c.Fits := by
  unfold loadConfig at h
  split at h
  · cases h
  next nsec hnsec =>
    obtain ⟨networks, hnetworks, h⟩ := bind_eq_ok_iff.mp h
    obtain ⟨apPassword, hap, h⟩ := bind_eq_ok_iff.mp h
    obtain ⟨mintUrl, hmint, h⟩ := bind_eq_ok_iff.mp h
    obtain ⟨lnurlUrl, -, h⟩ := bind_eq_ok_iff.mp h
    obtain ⟨nostrGeohash, hgeohash, h⟩ := bind_eq_ok_iff.mp h
    obtain rfl := Option.some.inj (Except.ok.inj h)
    obtain ⟨hcount, hfits⟩ := fits_of_readNetworks hnetworks
    have hrelays : ∀ relays : List CStr, relays.length ≤ 4 → (∀ r ∈ relays, r.length < 128) →
        (∀ r ∈ (if relays = [] then defaultRelays else relays), r.length < 128) ∧
          (if relays = [] then defaultRelays else relays).length ≤ 4 ∧
            (if relays = [] then defaultRelays else relays) ≠ [] := by
      intro relays hle hlt
      split
      · decide
      next hne => exact ⟨hlt, hle, hne⟩
    obtain ⟨hrelay, hrelayCount, hrelayNe⟩ := hrelays (textsAt root "nostr_relays" 4 128)
      (length_textsAt_le _ _ _ _) fun r hr => length_lt_of_mem_textsAt (by norm_num) hr
    exact ⟨hfits, hcount, length_strncpy_lt (by norm_num) nsec,
      length_rawTextAt_lt (by decide) hap, length_rawTextAt_lt (by decide) hmint,
      length_textAt_lt (by decide) root "metric", length_rawTextAt_lt (by decide) hgeohash,
      hrelay, hrelayCount, hrelayNe⟩

/-! ### Reading the written file -/

/-- The members that are written. -/
def writtenNames : List String :=
  ["nsec", "wifi_networks", "ap_password", "mint_url", "price_per_step", "step_size_ms", "metric",
    "nostr_geohash", "nostr_relays"]

/-- The other members that the loader looks up. -/
def forgottenNames : List String :=
  ["accepted_mints", "lnurl_url", "step_size_bytes", "persist_threshold_sats",
    "nostr_publish_interval_s", "nostr_sync_interval_s", "nostr_fallback_sync_interval_s",
    "nostr_seed_relays", "client_enabled", "client_steps_to_buy", "client_renewal_threshold_pct",
    "client_retry_interval_ms", "payout", "cvm", "cvm_enabled", "wifi_auth_mode",
    "display_enabled", "mining", "market_enabled", "market_scan_interval_s", "client_auto_switch",
    "sync_enabled", "wifistr_enabled", "local_relay_enabled", "mint_health_enabled"]

theorem getObjectItem_forgotten (c : TollgateConfig) :
    ∀ name ∈ forgottenNames, (writtenRoot c).getObjectItem name = none := by
  have hnames : ∀ name ∈ forgottenNames, ∀ key ∈ writtenNames,
      sameName (cstr key) (cstr name) = false := by decide
  exact fun name hname => Json.getObjectItem_ofMembers_of_absent (hnames name hname)

theorem getObjectItem_written {c : TollgateConfig} {name : String} {value : Option Json}
    (h : (name, value) ∈ writtenMembers c) : (writtenRoot c).getObjectItem name = value := by
  have hnames : writtenNames.Pairwise fun a b => sameName (cstr a) (cstr b) = false := by
    decide
  exact @Json.getObjectItem_ofMembers (writtenMembers c) hnames name value h

/-- What the loader makes of a written file. -/
def reloaded (c : TollgateConfig) : TollgateConfig :=
  { TollgateConfig.initial with
    nsec := c.nsec
    networks := c.networks
    apPassword := c.apPassword
    mintUrl := c.mintUrl
    acceptedMints := defaultAcceptedMints c.mintUrl
    pricePerStep := c.pricePerStep
    stepSizeMs := c.stepSizeMs
    metric := if c.metric = [] then cstr "milliseconds" else c.metric
    nostrGeohash := if c.nostrGeohash = [] then cstr "u281w0dfz" else c.nostrGeohash
    nostrRelays := c.nostrRelays
    nostrSeedRelays := defaultSeedRelays
    payout := ⟨true, defaultPayoutMints c.mintUrl, [defaultRecipient], 10, 60⟩ }

theorem readNetwork_networkItem {net : WifiNetwork} (h : net.Fits) :
    readNetwork (networkItem net) = .ok (some net) := by
  have hssid : (networkItem net).getObjectItem "ssid" = some (.string net.ssid) := rfl
  have hpassword : (networkItem net).getObjectItem "password" = some (.string net.password) := rfl
  unfold readNetwork
  rw [hssid, hpassword]
  dsimp only [Json.asString]
  rw [strncpy_of_length_lt h.1, strncpy_of_length_lt h.2]

theorem mapM_readNetwork {networks : List WifiNetwork} (h : ∀ net ∈ networks, net.Fits) :
    (networks.map networkItem).mapM readNetwork = .ok (networks.map some) := by
  induction networks with
  | nil => rfl
  | cons net networks ih =>
    rw [List.forall_mem_cons] at h
    rw [List.map_cons, List.mapM_cons, readNetwork_networkItem h.1, ih h.2]
    rfl

section Written

variable {c : TollgateConfig} (h : c.Fits)
include h

theorem readNetworks_writtenRoot (hne : c.networks ≠ []) :
    readNetworks (writtenRoot c) = .ok c.networks := by
  have hmember : (writtenRoot c).getObjectItem "wifi_networks" =
      some (.array (c.networks.map networkItem)) :=
    getObjectItem_written (by simp [writtenMembers])
  have hitems : itemsAt (writtenRoot c) "wifi_networks" maxWifiNetworks =
      c.networks.map networkItem := by
    unfold itemsAt
    rw [hmember]
    exact List.take_of_length_le ((List.length_map networkItem).trans_le h.networks_length)
  unfold readNetworks
  rw [hitems, mapM_readNetwork h.networks]
  show Except.ok (if counted ⟨[], []⟩ (c.networks.map some) = [] then _ else _) = _
  rw [counted_map_some, if_neg hne]

theorem relays_writtenRoot : textsAt (writtenRoot c) "nostr_relays" 4 128 = c.nostrRelays := by
  have hmember : (writtenRoot c).getObjectItem "nostr_relays" =
      some (.array (c.nostrRelays.map .string)) :=
    getObjectItem_written (by simp [writtenMembers])
  have hitems : itemsAt (writtenRoot c) "nostr_relays" 4 = c.nostrRelays.map .string := by
    unfold itemsAt
    rw [hmember]
    exact List.take_of_length_le ((List.length_map Json.string).trans_le h.nostrRelays_length)
  have hslots : (c.nostrRelays.map Json.string).map (fun item =>
      item.asString.map (strncpy 128)) = c.nostrRelays.map some := by
    rw [List.map_map]
    exact List.map_congr_left fun relay hrelay =>
      congrArg some (strncpy_of_length_lt (h.nostrRelays relay hrelay))
  unfold textsAt
  rw [hitems, hslots, counted_map_some]

theorem apPassword_writtenRoot :
    rawTextAt (writtenRoot c) "ap_password" 64 [] = .ok c.apPassword := by
  have hmember : (writtenRoot c).getObjectItem "ap_password" =
      if c.apPassword = [] then none else some (.string c.apPassword) :=
    getObjectItem_written (by simp [writtenMembers])
  unfold rawTextAt
  rw [hmember]
  by_cases hnil : c.apPassword = []
  · rw [if_pos hnil, hnil]
  · rw [if_neg hnil]
    exact congrArg Except.ok (strncpy_of_length_lt h.apPassword)

theorem mintUrl_writtenRoot : rawTextAt (writtenRoot c) "mint_url" 256 [] = .ok c.mintUrl := by
  have hmember : (writtenRoot c).getObjectItem "mint_url" = some (.string c.mintUrl) :=
    getObjectItem_written (by simp [writtenMembers])
  unfold rawTextAt
  rw [hmember]
  exact congrArg Except.ok (strncpy_of_length_lt h.mintUrl)

theorem nostrGeohash_writtenRoot (d : CStr) :
    rawTextAt (writtenRoot c) "nostr_geohash" 16 d =
      .ok (if c.nostrGeohash = [] then d else c.nostrGeohash) := by
  have hmember : (writtenRoot c).getObjectItem "nostr_geohash" =
      if c.nostrGeohash = [] then none else some (.string c.nostrGeohash) :=
    getObjectItem_written (by simp [writtenMembers])
  unfold rawTextAt
  rw [hmember]
  by_cases hnil : c.nostrGeohash = []
  · rw [if_pos hnil, if_pos hnil]
  · rw [if_neg hnil, if_neg hnil]
    exact congrArg Except.ok (strncpy_of_length_lt h.nostrGeohash)

theorem metric_writtenRoot (d : CStr) :
    textAt (writtenRoot c) "metric" 16 d = if c.metric = [] then d else c.metric := by
  have hmember : (writtenRoot c).getObjectItem "metric" =
      if c.metric = [] then none else some (.string c.metric) :=
    getObjectItem_written (by simp [writtenMembers])
  unfold textAt
  rw [hmember]
  by_cases hnil : c.metric = []
  · rw [if_pos hnil, if_pos hnil]
    rfl
  · rw [if_neg hnil, if_neg hnil]
    exact strncpy_of_length_lt h.metric

theorem loadConfig_writtenRoot (hne : c.networks ≠ []) :
    loadConfig (writtenRoot c) = .ok (some (reloaded c)) := by
  have hnsec : (writtenRoot c).getObjectItem "nsec" = some (.string c.nsec) :=
    getObjectItem_written (by simp [writtenMembers])
  have hprice : (writtenRoot c).getObjectItem "price_per_step" =
      some (.number (.ofInt c.pricePerStep)) := getObjectItem_written (by simp [writtenMembers])
  have hstep : (writtenRoot c).getObjectItem "step_size_ms" =
      some (.number (.ofInt c.stepSizeMs)) := getObjectItem_written (by simp [writtenMembers])
  have habsent := getObjectItem_forgotten c
  simp only [forgottenNames, List.forall_mem_cons, List.not_mem_nil, false_imp_iff,
    implies_true, and_true] at habsent
  unfold loadConfig
  rw [hnsec]
  dsimp only [Option.bind_some, Json.asString]
  have hap : rawTextAt (writtenRoot c) "ap_password" 64 TollgateConfig.initial.apPassword =
      .ok c.apPassword := apPassword_writtenRoot h
  have hmint : rawTextAt (writtenRoot c) "mint_url" 256 TollgateConfig.initial.mintUrl =
      .ok c.mintUrl := mintUrl_writtenRoot h
  have hlnurl : rawTextAt (writtenRoot c) "lnurl_url" 256 TollgateConfig.initial.lnurlUrl =
      .ok [] := by
    rw [rawTextAt, habsent.2.1]
    rfl
  have htexts : ∀ name max size, (writtenRoot c).getObjectItem name = none →
      textsAt (writtenRoot c) name max size = [] := by
    intro name max size hname
    have hitems : itemsAt (writtenRoot c) name max = [] := by
      rw [itemsAt, hname]
      exact List.take_nil
    rw [textsAt, hitems]
    rfl
  rw [readNetworks_writtenRoot h hne, hap, hmint, hlnurl, nostrGeohash_writtenRoot h]
  show Except.ok (some _) = _
  rw [metric_writtenRoot h, relays_writtenRoot h, htexts "accepted_mints" 8 256 habsent.1,
    if_pos rfl, if_neg h.nostrRelays_ne_nil, strncpy_of_length_lt h.nsec]
  simp only [intAt, boolAt, textAt, uint64At, objectAt, htexts, habsent, hprice, hstep]
  rfl

end Written

/-! ### What survives -/

/-- Every field that is not written has the value it gets when the file is silent about it, and
the two texts that are written only if they are not empty are not empty. -/
structure Silent (c : TollgateConfig) : Prop where
  metric : c.metric ≠ []
  nostrGeohash : c.nostrGeohash ≠ []
  others : c =
    { TollgateConfig.initial with
      acceptedMints := defaultAcceptedMints c.mintUrl
      nostrSeedRelays := defaultSeedRelays
      payout := ⟨true, defaultPayoutMints c.mintUrl, [defaultRecipient], 10, 60⟩
      nsec := c.nsec
      networks := c.networks
      apPassword := c.apPassword
      mintUrl := c.mintUrl
      pricePerStep := c.pricePerStep
      stepSizeMs := c.stepSizeMs
      metric := c.metric
      nostrGeohash := c.nostrGeohash
      nostrRelays := c.nostrRelays }

theorem reloaded_eq_iff (c : TollgateConfig) : reloaded c = c ↔ Silent c := by
  refine ⟨fun h => ?_, fun h => ?_⟩
  · have hmetric : c.metric ≠ [] := by
      intro hnil
      have hfield : (if c.metric = [] then cstr "milliseconds" else c.metric) = c.metric :=
        congrArg TollgateConfig.metric h
      rw [if_pos hnil, hnil] at hfield
      exact absurd hfield (by decide)
    have hgeohash : c.nostrGeohash ≠ [] := by
      intro hnil
      have hfield : (if c.nostrGeohash = [] then cstr "u281w0dfz" else c.nostrGeohash) =
          c.nostrGeohash :=
        congrArg TollgateConfig.nostrGeohash h
      rw [if_pos hnil, hnil] at hfield
      exact absurd hfield (by decide)
    refine ⟨hmetric, hgeohash, ?_⟩
    rw [reloaded, if_neg hmetric, if_neg hgeohash] at h
    exact h.symm
  · rw [reloaded, if_neg h.metric, if_neg h.nostrGeohash]
    exact h.others.symm

/-- A network more makes no difference to the other fields. -/
theorem silent_networks_iff (c : TollgateConfig) (networks : List WifiNetwork) :
    Silent { c with networks := networks } ↔ Silent c := by
  refine ⟨fun h => ⟨h.metric, h.nostrGeohash, ?_⟩, fun h => ⟨h.metric, h.nostrGeohash, ?_⟩⟩
  · have hothers := congrArg (fun d : TollgateConfig => { d with networks := c.networks }) h.others
    exact hothers
  · have hothers := congrArg (fun d : TollgateConfig => { d with networks := networks }) h.others
    exact hothers

/-- **Exactly when adding a network loses nothing.** For every configuration that was loaded and
every network that fits: what is loaded from the written file is the old configuration with the
network behind the others, exactly if the fields that are not written have their defaults. -/
theorem addWifi_survives_iff (parse : CStr → Option Json) (print : Json → CStr)
    (file : Option CStr) (c : TollgateConfig) (hload : tollgateConfigInit parse file = .ok (some c))
    (ssid password : CStr) (hssid : ssid.length < 32) (hpassword : password.length < 64)
    (after : TollgateConfig) (written : CStr)
    (hadd : tollgateConfigAddWifi print true c file (some ssid) (some password) =
      .ok (after, some written))
    (hparse : parse (print (writtenRoot after)) = some (writtenRoot after)) :
    after = { c with networks := c.networks ++ [⟨ssid, password⟩] } ∧
      (tollgateConfigInit parse (some written) = .ok (some after) ↔ Silent c) := by
  have hfits : c.Fits := by
    unfold tollgateConfigInit at hload
    split at hload
    · cases hload
    · exact fits_of_loadConfig hload
  unfold tollgateConfigAddWifi at hadd
  dsimp only at hadd
  split at hadd
  · cases hadd
  next hroom =>
    obtain ⟨rfl, hwritten⟩ := Prod.mk.inj (Except.ok.inj hadd)
    obtain rfl := Option.some.inj hwritten
    rw [strncpy_of_length_lt hssid, strncpy_of_length_lt hpassword] at hparse ⊢
    refine ⟨rfl, ?_⟩
    -- the written file has the new configuration in it as far as it is written at all
    have hfits' : ({ c with networks := c.networks ++ [⟨ssid, password⟩] } : TollgateConfig).Fits :=
      { hfits with
        networks := by
          intro net hnet
          rcases List.mem_append.mp hnet with hnet | hnet
          · exact hfits.networks net hnet
          · rw [List.mem_singleton.mp hnet]
            exact ⟨hssid, hpassword⟩
        networks_length := by
          show (c.networks ++ [_]).length ≤ _
          rw [List.length_append, List.length_singleton]
          omega }
    have hload' := loadConfig_writtenRoot hfits' (List.append_ne_nil_of_right_ne_nil _ (by simp))
    rw [tollgateConfigInit, Option.getD_some, hparse]
    show loadConfig _ = _ ↔ _
    rw [hload', Except.ok.injEq, Option.some.injEq, reloaded_eq_iff, silent_networks_iff]

/-! ### Two devices -/

/-- The tree of the default file. -/
def defaultRoot : Json :=
  .ofMembers [
    ("nsec", some (.string
      (cstr "a1b2c3d4e5f6a1b2c3d4e5f6a1b2c3d4e5f6a1b2c3d4e5f6a1b2c3d4e5f6a1b2"))),
    ("wifi_networks", some (.array [networkItem ⟨cstr "c03rad0r", cstr "c03rad0r123"⟩])),
    ("ap_password", some (.string [])),
    ("mint_url", some (.string (cstr "https://testnut.cashu.exchange"))),
    ("accepted_mints", some (.array [.string (cstr "https://testnut.cashu.exchange")])),
    ("price_per_step", some (.number (.ofInt 21))),
    ("step_size_ms", some (.number (.ofInt 60000))),
    ("nostr_geohash", some (.string (cstr "u281w0dfz"))),
    ("nostr_relays", some (.array
      [.string (cstr "wss://relay.damus.io"), .string (cstr "wss://nos.lol")])),
    ("nostr_publish_interval_s", some (.number (.ofInt 21600))),
    ("nostr_sync_interval_s", some (.number (.ofInt 1800))),
    ("nostr_fallback_sync_interval_s", some (.number (.ofInt 21600))),
    ("client_enabled", some (.bool false)),
    ("client_steps_to_buy", some (.number (.ofInt 1))),
    ("client_renewal_threshold_pct", some (.number (.ofInt 20))),
    ("client_retry_interval_ms", some (.number (.ofInt 30000)))]

/-- The configuration in it. -/
def defaultConfig : TollgateConfig :=
  { TollgateConfig.initial with
    nsec := cstr "a1b2c3d4e5f6a1b2c3d4e5f6a1b2c3d4e5f6a1b2c3d4e5f6a1b2c3d4e5f6a1b2"
    networks := [⟨cstr "c03rad0r", cstr "c03rad0r123"⟩]
    mintUrl := cstr "https://testnut.cashu.exchange"
    acceptedMints := [cstr "https://testnut.cashu.exchange"]
    nostrGeohash := cstr "u281w0dfz"
    nostrRelays := [cstr "wss://relay.damus.io", cstr "wss://nos.lol"]
    nostrSeedRelays := defaultSeedRelays
    payout :=
      ⟨true, [⟨cstr "https://testnut.cashu.exchange", 64, 128⟩], [defaultRecipient], 10, 60⟩ }

/-- The configuration with a network more. -/
def TollgateConfig.atHome (c : TollgateConfig) : TollgateConfig :=
  { c with networks := c.networks ++ [⟨cstr "home", cstr "secret"⟩] }

/-- The file that is then written. -/
def homeText : CStr :=
  cstr ("\x7b\"nsec\":\"a1b2c3d4e5f6a1b2c3d4e5f6a1b2c3d4e5f6a1b2c3d4e5f6a1b2c3d4e5f6a1b2\"," ++
    "\"wifi_networks\":[\x7b\"ssid\":\"c03rad0r\",\"password\":\"c03rad0r123\"\x7d," ++
    "\x7b\"ssid\":\"home\",\"password\":\"secret\"\x7d]," ++
    "\"mint_url\":\"https://testnut.cashu.exchange\",\"price_per_step\":21," ++
    "\"step_size_ms\":60000,\"metric\":\"milliseconds\",\"nostr_geohash\":\"u281w0dfz\"," ++
    "\"nostr_relays\":[\"wss://relay.damus.io\",\"wss://nos.lol\"]\x7d")

/-- The parser on the two texts. -/
def homeParse (text : CStr) : Option Json :=
  if text = defaultJson then some defaultRoot
  else if text = homeText then some (writtenRoot defaultConfig.atHome)
  else none

theorem addWifi_survives_default :
    tollgateConfigInit homeParse (some homeText) = .ok (some defaultConfig.atHome) := by
  have hload : tollgateConfigInit homeParse none = .ok (some defaultConfig) := by
    decide +kernel
  have hother : homeText ≠ defaultJson := by decide +kernel
  refine (addWifi_survives_iff homeParse (fun _ => homeText) none defaultConfig hload
    (cstr "home") (cstr "secret") (by decide) (by decide) defaultConfig.atHome homeText
    (by decide +kernel) ?_).2.mpr ⟨by decide, by decide, rfl⟩
  rw [homeParse, if_neg hother, if_pos rfl]

/-- A device that accepts two mints. -/
def twoMintsRoot : Json :=
  .ofMembers [
    ("nsec", some (.string (cstr "01"))),
    ("mint_url", some (.string (cstr "m"))),
    ("accepted_mints", some (.array [.string (cstr "m"), .string (cstr "n")]))]

/-- Its configuration. -/
def twoMintsConfig : TollgateConfig :=
  { TollgateConfig.initial with
    nsec := cstr "01"
    mintUrl := cstr "m"
    acceptedMints := [cstr "m", cstr "n"]
    nostrGeohash := cstr "u281w0dfz"
    nostrRelays := defaultRelays
    nostrSeedRelays := defaultSeedRelays
    payout := ⟨true, [⟨cstr "m", 64, 128⟩], [defaultRecipient], 10, 60⟩ }

/-- The parser on its file, and on the one that is written. -/
def twoMintsParse (text : CStr) : Option Json :=
  if text = cstr "before" then some twoMintsRoot
  else some (writtenRoot twoMintsConfig.atHome)

theorem accepted_mint_forgotten :
    tollgateConfigInit twoMintsParse (some (cstr "before")) = .ok (some twoMintsConfig) ∧
      tollgateConfigAddWifi (fun _ => cstr "after") true twoMintsConfig (some (cstr "before"))
        (some (cstr "home")) (some (cstr "secret")) =
          .ok (twoMintsConfig.atHome, some (cstr "after")) ∧
      twoMintsConfig.atHome.acceptedMints = [cstr "m", cstr "n"] ∧
      tollgateConfigInit twoMintsParse (some (cstr "after")) =
        .ok (some { twoMintsConfig.atHome with acceptedMints := [cstr "m"] }) := by
  decide

end Firmware

end TollGate
