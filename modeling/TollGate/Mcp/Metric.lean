import TollGate.Lib.CJson
import TollGate.Core.Config
import TollGate.Core.TopUp

/-!
# Reconfiguring the metric

Two tools of the MCP server write the configured metric: `set_metric`, which takes
`"bytes"` or `"milliseconds"`, and `set_config`, which copies any string (cut to
the field) among other settings. The metric is read back by
`tollgate_core_session_is_expired`: a session without the `BYTES` tag is decided by
its byte counters when the metric is `"bytes"`, and by the clock otherwise.

A request therefore leaves the expiry of every session as it was if and only if it
does not switch between `"bytes"` and another metric, or every active session
without the tag happens to be used up under both rules or under neither
(`setMetric_keeps_expiry_iff`). A client that paid for time is thrown out by a
switch to `"bytes"` (`setMetric_expires_minute`).
-/

namespace TollGate

namespace Mcp

open CJson TollGate.Core

/-! ### The tools -/

/-- `mcp_response_t`. -/
structure Response where
  success : Bool
  resultJson : CStr
  error : CStr

/-- A failed request. -/
def failure (error : String) : Response := ⟨false, [], cstr error⟩

/-- `if (item && cJSON_IsNumber(item)) field = item->valueint`. -/
def intSetting (root : Json) (name : String) (old : Int32) : Int32 :=
  match (root.getObjectItem name).bind Json.asNumber with
  | some n => n.valueint
  | none => old

/-- `if (item && cJSON_IsBool(item)) field = cJSON_IsTrue(item)`. -/
def boolSetting (root : Json) (name : String) (old : Bool) : Bool :=
  ((root.getObjectItem name).bind Json.asBool).getD old

/-- `mcp_handle_set_config`. -/
def handleSetConfig (parse : CStr → Option Json) (cfg : Config) (params : CStr) :
    Config × Response :=
  match parse params with
  | none => (cfg, failure "Invalid JSON params")
  | some root =>
    ({ cfg with
        pricePerStep := intSetting root "price_per_step" cfg.pricePerStep
        stepSizeMs := intSetting root "step_size_ms" cfg.stepSizeMs
        stepSizeBytes := intSetting root "step_size_bytes" cfg.stepSizeBytes
        clientEnabled := boolSetting root "client_enabled" cfg.clientEnabled
        payoutEnabled := boolSetting root "payout_enabled" cfg.payoutEnabled
        metric := match (root.getObjectItem "metric").bind Json.asString with
          | some m => CStr.strncpy Config.metricSize m
          | none => cfg.metric },
      ⟨true, cstr "\x7b\"status\":\"ok\"\x7d", []⟩)

/-- `mcp_handle_set_metric`. -/
def handleSetMetric (parse : CStr → Option Json) (cfg : Config) (params : CStr) :
    Config × Response :=
  match parse params with
  | none => (cfg, failure "Invalid JSON params")
  | some root =>
    match (root.getObjectItem "metric").bind Json.asString with
    | none => (cfg, failure "Missing 'metric' field")
    | some m =>
      if m = cstr "bytes" ∨ m = cstr "milliseconds" then
        let metric := CStr.strncpy Config.metricSize m
        ({ cfg with metric := metric },
          ⟨true, cstr "\x7b\"status\":\"ok\",\"metric\":\"" ++ metric ++ cstr "\"\x7d", []⟩)
      else (cfg, failure "Invalid metric: must be 'bytes' or 'milliseconds'")

/-- A request that may write the metric. -/
inductive Request where
  | setMetric (params : CStr)
  | setConfig (params : CStr)

/-- The request handled. -/
def handle (parse : CStr → Option Json) (cfg : Config) : Request → Config × Response
  | .setMetric params => handleSetMetric parse cfg params
  | .setConfig params => handleSetConfig parse cfg params

/-! ### Which rule decides afterwards -/

variable {parse : CStr → Option Json} {cfg : Config}

/-- The request carries the metric `m`, one its tool takes. -/
def Request.Asks (parse : CStr → Option Json) (m : CStr) : Request → Prop
  | .setMetric params => (∃ root, parse params = some root ∧
      (root.getObjectItem "metric").bind Json.asString = some m) ∧
      (m = cstr "bytes" ∨ m = cstr "milliseconds")
  | .setConfig params => ∃ root, parse params = some root ∧
      (root.getObjectItem "metric").bind Json.asString = some m

/-- The request asks to leave `"bytes"`, or to go there. -/
def Request.Switches (parse : CStr → Option Json) (cfg : Config) (r : Request) : Prop :=
  ∃ m, r.Asks parse m ∧ (m = cstr "bytes" ↔ cfg.metric ≠ cstr "bytes")

/-- A failed request leaves the configuration as it was. -/
theorem handle_failed (r : Request) (h : (handle parse cfg r).2.success = false) :
    (handle parse cfg r).1 = cfg := by
  revert h
  cases r with
  | setMetric params =>
    show (handleSetMetric parse cfg params).2.success = false →
      (handleSetMetric parse cfg params).1 = cfg
    unfold handleSetMetric
    split
    · exact fun _ => rfl
    · split
      · exact fun _ => rfl
      · -- what is written is one of the two metrics
        split
        · exact fun h => absurd h Bool.noConfusion
        · exact fun _ => rfl
  | setConfig params =>
    show (handleSetConfig parse cfg params).2.success = false →
      (handleSetConfig parse cfg params).1 = cfg
    unfold handleSetConfig
    split
    · exact fun _ => rfl
    · exact fun h => absurd h Bool.noConfusion

/-- The cut to the field size does not make or unmake `"bytes"`. -/
theorem strncpy_eq_bytes_iff (m : CStr) :
    CStr.strncpy Config.metricSize m = cstr "bytes" ↔ m = cstr "bytes" := by
  have hlen : (cstr "bytes").length = 5 := by decide
  refine CStr.strncpy_eq_iff ?_
  rw [hlen, Config.metricSize]
  omega

theorem Request.Asks.unique {r : Request} {m m' : CStr} (h : r.Asks parse m)
    (h' : r.Asks parse m') : m = m' := by
  -- both tools read the metric from the same member
  have hroots : ∀ {params : CStr}, (∃ root, parse params = some root ∧
      (root.getObjectItem "metric").bind Json.asString = some m) →
      (∃ root, parse params = some root ∧
        (root.getObjectItem "metric").bind Json.asString = some m') → m = m' := by
    rintro params ⟨root, hroot, hm⟩ ⟨root', hroot', hm'⟩
    obtain rfl : root = root' := Option.some.inj (hroot.symm.trans hroot')
    exact Option.some.inj (hm.symm.trans hm')
  cases r with
  | setMetric params => exact hroots h.1 h'.1
  | setConfig params => exact hroots h h'

/-- The metric a request leaves: the one it asks for, cut to the field, or the one
there was. -/
theorem metric_handle (parse : CStr → Option Json) (cfg : Config) (r : Request) :
    (∃ m, r.Asks parse m ∧
      (handle parse cfg r).1.metric = CStr.strncpy Config.metricSize m) ∨
    ((∀ m, ¬ r.Asks parse m) ∧ (handle parse cfg r).1.metric = cfg.metric) := by
  cases r with
  | setMetric params =>
    simp only [handle, handleSetMetric, Request.Asks]
    cases hroot : parse params with
    | none => simp
    | some root =>
      cases hm : (root.getObjectItem "metric").bind Json.asString with
      | none => simp [hm]
      | some m =>
        -- `set_metric` takes two names only
        by_cases hok : m = cstr "bytes" ∨ m = cstr "milliseconds"
        · exact Or.inl ⟨m, ⟨⟨root, rfl, hm⟩, hok⟩, by simp [hm, hok]⟩
        · refine Or.inr ⟨?_, by simp [hm, hok]⟩
          rintro m' ⟨⟨root', hroot', hm'⟩, hok'⟩
          obtain rfl : root = root' := Option.some.inj hroot'
          obtain rfl : m = m' := Option.some.inj (hm.symm.trans hm')
          exact hok hok'
  | setConfig params =>
    simp only [handle, handleSetConfig, Request.Asks]
    cases hroot : parse params with
    | none => simp
    | some root =>
      cases hm : (root.getObjectItem "metric").bind Json.asString with
      | none => simp [hm]
      | some m => exact Or.inl ⟨m, ⟨root, rfl, hm⟩, by simp [hm]⟩

theorem switches_iff (parse : CStr → Option Json) (cfg : Config) (r : Request) :
    r.Switches parse cfg ↔
      ((handle parse cfg r).1.metric = cstr "bytes" ↔ cfg.metric ≠ cstr "bytes") := by
  obtain ⟨m, hasks, hmetric⟩ | ⟨hnone, hmetric⟩ := metric_handle parse cfg r
  · rw [hmetric, strncpy_eq_bytes_iff]
    refine ⟨?_, ?_⟩
    · rintro ⟨m', hasks', hswitch⟩
      rw [hasks.unique hasks']
      exact hswitch
    · exact fun hswitch => ⟨m, hasks, hswitch⟩
  · rw [hmetric]
    refine ⟨?_, ?_⟩
    · rintro ⟨m, hasks, -⟩
      exact absurd hasks (hnone m)
    · -- a metric that stays cannot have switched
      intro hswitch
      exact absurd hswitch (by tauto)

/-! ### Who has paid -/

variable {macForIp : Ip → Option CStr} {now : Int64}

theorem metricIsBytes_env (cfg : Config) (now : Int64) (macForIp : Ip → Option CStr) :
    (cfg.env now macForIp).metricIsBytes = decide (cfg.metric = cstr "bytes") := by
  unfold Env.metricIsBytes Config.env
  simp only [Option.some.injEq]

/-- The two rules agree about every active session that the metric decides. -/
def RulesAgree (now : Int64) (c : Core) : Prop :=
  ∀ i, (c.sessions i).active = true → (c.sessions i).paymentMethod ≠ .bytes →
    ((c.sessions i).bytesConsumed ≥ (c.sessions i).allotmentBytes ↔
      now - (c.sessions i).startTimeMs ≥ (c.sessions i).allotmentMs.toInt64)

/-- The metric does not reach a session that is inactive or has the `BYTES` tag. -/
theorem isExpired_of_tag {env env' : Env} {s : TgSession}
    (h : s.active = false ∨ s.paymentMethod = .bytes) : isExpired env s = isExpired env' s := by
  obtain hact | htag := h
  · rw [isExpired_of_inactive hact, isExpired_of_inactive hact]
  · unfold isExpired
    simp only [htag, if_true]

/-- Of any other session it selects the rule. -/
theorem isExpired_untagged {s : TgSession} (hact : s.active = true)
    (htag : s.paymentMethod ≠ .bytes) (cfg : Config) (now : Int64)
    (macForIp : Ip → Option CStr) :
    isExpired (cfg.env now macForIp) s = true ↔
      if cfg.metric = cstr "bytes" then s.bytesConsumed ≥ s.allotmentBytes
      else now - s.startTimeMs ≥ s.allotmentMs.toInt64 := by
  have hrule : byteRuled (cfg.env now macForIp) s = decide (cfg.metric = cstr "bytes") := by
    unfold byteRuled
    rw [decide_eq_false htag, Bool.false_or, metricIsBytes_env]
  split
  · next hm =>
    rw [isExpired_of_byteRuled hact (hrule.trans (decide_eq_true hm))]
    exact decide_eq_true_iff
  · next hm =>
    rw [isExpired_of_timeRuled hact (hrule.trans (decide_eq_false hm))]
    exact decide_eq_true_iff

/-- **When a change of the metric keeps who has paid.** For every table, clock value
and configuration, and every request to `set_metric` or `set_config`: each session
is expired after the change if and only if it was before, exactly when the request
does not switch between `"bytes"` and another metric, or the two rules agree about
the active sessions without the `BYTES` tag. -/
theorem setMetric_keeps_expiry_iff (parse : CStr → Option Json) (cfg : Config) (r : Request)
    (c : Core) (now : Int64) (macForIp : Ip → Option CStr) :
    (∀ i, isExpired (cfg.env now macForIp) (c.sessions i) =
        isExpired ((handle parse cfg r).1.env now macForIp) (c.sessions i)) ↔
      (¬ r.Switches parse cfg ∨ RulesAgree now c) := by
  rw [switches_iff]
  refine ⟨?_, ?_⟩
  · intro h
    by_contra hcond
    push Not at hcond
    obtain ⟨hswitch, hdiff⟩ := hcond
    refine hdiff fun i hact htag => ?_
    -- one of the two metrics is `"bytes"`, so the two verdicts are those of the two rules
    have hsame := congrArg (· = true) (h i)
    simp only [isExpired_untagged hact htag, eq_iff_iff] at hsame
    by_cases hm : cfg.metric = cstr "bytes"
    · have hm' : ¬ (handle parse cfg r).1.metric = cstr "bytes" := by tauto
      rw [if_pos hm, if_neg hm'] at hsame
      exact hsame
    · rw [if_neg hm, if_pos (hswitch.mpr hm)] at hsame
      exact hsame.symm
  · intro hcond i
    -- the metric reaches active sessions without the tag, and no others
    by_cases hreach : (c.sessions i).active = true ∧ (c.sessions i).paymentMethod ≠ .bytes
    · obtain ⟨hact, htag⟩ := hreach
      rw [Bool.eq_iff_iff, isExpired_untagged hact htag, isExpired_untagged hact htag]
      obtain hstay | hagree := hcond
      · have hiff : cfg.metric = cstr "bytes" ↔
            (handle parse cfg r).1.metric = cstr "bytes" := by tauto
        simp only [hiff]
      · have hi := hagree i hact htag
        split <;> split <;> tauto
    · refine isExpired_of_tag ?_
      rw [not_and_or, Bool.not_eq_true, not_not] at hreach
      exact hreach

/-- The text of a request for the byte metric. -/
def bytesRequest : CStr := cstr "\x7b\"metric\":\"bytes\"\x7d"

/-- cJSON on that text. -/
def parseBytesRequest (text : CStr) : Option Json :=
  if text = bytesRequest then some (.object [(cstr "metric", .string (cstr "bytes"))]) else none

/-- A client that bought a minute at time 0 is unexpired at time 0, and expired once
`set_metric` has set the metric to `"bytes"`. -/
theorem setMetric_expires_minute :
    (handle parseBytesRequest timeConfig (.setMetric bytesRequest)).2.success = true ∧
      (minuteTable.sessions 0).active = true ∧
      isExpired (timeConfig.env 0 fun _ => none) (minuteTable.sessions 0) = false ∧
      isExpired ((handle parseBytesRequest timeConfig (.setMetric bytesRequest)).1.env 0
        fun _ => none) (minuteTable.sessions 0) = true := by
  decide

end Mcp

end TollGate
