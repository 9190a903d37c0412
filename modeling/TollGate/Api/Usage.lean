import TollGate.Api.Replies
import TollGate.Firmware.Services

/-!
# The usage a client is told and the expiry that is enforced

`tollgate_core_portal_calc_usage` and `api_get_usage` report what is left of a
session; `tollgate_core_session_is_expired` decides when it ends. Both subtract the
same fields, and still they are two rules:

* the report picks the allotment by the configured metric alone, enforcement looks
  at the tag of a byte purchase first;
* the report goes through an `int64_t` difference, which wraps, enforcement compares
  the two numbers.

`Api.remaining_zero_iff_expired_iff` is exact: in every state the firmware reaches,
for every active session, metric and clock reading, both reports say that nothing is
left exactly when the session is expired, if and only if `UsageEnforced` holds: the
difference that is reported fits an `int64_t`, and for a byte purchase read under
another metric its time shows as used up exactly when its bytes are. The tag is what
breaks in practice (`Api.spent_bytes_reported_as_time`): a byte session carries
`INT64_MAX` milliseconds, so under a time metric it is reported as endless.
-/

namespace TollGate

namespace Api

open CStr TollGate.Core

variable {s : TgSession} {m : CStr} {now : Int64}

/-- The bytes that are left, as an exact number. -/
def bytesLeft (s : TgSession) : ℤ := s.allotmentBytes.toNat - s.bytesConsumed.toNat

/-- The milliseconds that are left, as an exact number. -/
def timeLeft (now : Int64) (s : TgSession) : ℤ :=
  s.allotmentMs.toInt64.toInt - (now - s.startTimeMs).toInt

/-- A difference with the exact value `d` is reported as nothing left: the `int64_t`
that holds it is not positive. -/
def ShowsNothing (d : ℤ) : Prop := -2 ^ 63 ≤ d ∧ d ≤ 0 ∨ 2 ^ 63 ≤ d

/-- The exact value is one that an `int64_t` can hold. -/
def FitsInt64 (d : ℤ) : Prop := -2 ^ 63 ≤ d ∧ d < 2 ^ 63

/-- What the record, the metric and the clock owe each other for the report to follow
enforcement. -/
def UsageEnforced (m : CStr) (now : Int64) (s : TgSession) : Prop :=
  if m = cstr "bytes" then FitsInt64 (bytesLeft s)
  -- enforcement counts the bytes of this session, the report its milliseconds
  else if s.paymentMethod = .bytes then (ShowsNothing (timeLeft now s) ↔ bytesLeft s ≤ 0)
  else FitsInt64 (timeLeft now s)

/-! ### Exact differences -/

theorem abs_bytesLeft_lt (s : TgSession) : |bytesLeft s| < 2 ^ 64 := by
  have ha : s.allotmentBytes.toNat < 2 ^ 64 := s.allotmentBytes.toNat_lt
  have hc : s.bytesConsumed.toNat < 2 ^ 64 := s.bytesConsumed.toNat_lt
  unfold bytesLeft
  rw [abs_lt]
  omega

theorem abs_timeLeft_lt (now : Int64) (s : TgSession) : |timeLeft now s| < 2 ^ 64 := by
  have ha := s.allotmentMs.toInt64.toInt_lt
  have ha' := s.allotmentMs.toInt64.le_toInt
  have he := (now - s.startTimeMs).toInt_lt
  have he' := (now - s.startTimeMs).le_toInt
  unfold timeLeft
  rw [abs_lt]
  omega

theorem showsNothing_iff_nonpos_iff {d : ℤ} (hd : |d| < 2 ^ 64) :
    (ShowsNothing d ↔ d ≤ 0) ↔ FitsInt64 d := by
  rw [abs_lt] at hd
  unfold ShowsNothing FitsInt64
  omega

/-- The `int64_t` into which the exact value `d` is wrapped. -/
theorem bmod_nonpos_iff {d : ℤ} (hd : |d| < 2 ^ 64) : d.bmod (2 ^ 64) ≤ 0 ↔ ShowsNothing d := by
  rw [abs_lt] at hd
  unfold ShowsNothing
  rw [Int.bmod_def]
  omega

theorem sub_nonpos_iff {x y : Int64} (hd : |x.toInt - y.toInt| < 2 ^ 64) :
    x - y ≤ 0 ↔ ShowsNothing (x.toInt - y.toInt) := by
  rw [Int64.le_iff_toInt_le, Int64.toInt_sub, ← bmod_nonpos_iff hd]
  rfl

theorem toInt64_sub_nonpos_iff (s : TgSession) :
    s.allotmentBytes.toInt64 - s.bytesConsumed.toInt64 ≤ 0 ↔ ShowsNothing (bytesLeft s) := by
  rw [← bmod_nonpos_iff (abs_bytesLeft_lt s), Int64.le_iff_toInt_le, Int64.toInt_sub]
  -- the casts shift both operands by a multiple of `2 ^ 64`, which the wrapping drops
  have hcast : ∀ x : UInt64, x.toInt64.toInt = Int.bmod x.toNat (2 ^ 64) := fun x =>
    BitVec.toInt_eq_toNat_bmod x.toBitVec
  rw [hcast, hcast, Int.bmod_sub_bmod, Int.sub_bmod_bmod]
  rfl

/-! ### The two rules on exact differences -/

/-- What the report subtracts. -/
def reportedLeft (m : CStr) (now : Int64) (s : TgSession) : ℤ :=
  if m = cstr "bytes" then bytesLeft s else timeLeft now s

theorem calcUsage_zero_iff (hact : s.active = true) :
    (calcUsage (some s) m now).map Prod.fst = some 0 ↔ ShowsNothing (reportedLeft m now s) := by
  have hclamp : ∀ r : Int64, (if r < 0 then 0 else r) = 0 ↔ r ≤ 0 := by
    intro r
    split
    · next hneg => exact iff_of_true rfl (Int64.le_of_lt hneg)
    · next hpos =>
      refine ⟨fun h => h ▸ Int64.le_refl 0, fun h => ?_⟩
      exact Int64.le_antisymm h (Int64.not_lt.mp hpos)
  unfold calcUsage reportedLeft
  simp only [hact, Bool.not_true, Bool.false_eq_true, if_false]
  split
  · rw [Option.map_some, Option.some.injEq, hclamp, toInt64_sub_nonpos_iff]
  · rw [Option.map_some, Option.some.injEq, hclamp]
    exact sub_nonpos_iff (abs_timeLeft_lt now s)

theorem bytesUsedUp_iff : bytesUsedUp s = true ↔ bytesLeft s ≤ 0 := by
  unfold bytesUsedUp bytesLeft
  rw [decide_eq_true_eq, ge_iff_le, UInt64.le_iff_toNat_le]
  omega

theorem timeUsedUp_iff {env : Env} : timeUsedUp env s = true ↔ timeLeft env.now s ≤ 0 := by
  unfold timeUsedUp timeLeft
  rw [decide_eq_true_eq, ge_iff_le, Int64.le_iff_toInt_le]
  omega

/-- **When the report follows enforcement**, for any active record. -/
theorem calcUsage_zero_iff_isExpired_iff (hact : s.active = true) (mac : Ip → Option CStr) :
    ((calcUsage (some s) m now).map Prod.fst = some 0 ↔
        isExpired ⟨now, some m, mac⟩ s = true) ↔ UsageEnforced m now s := by
  rw [calcUsage_zero_iff hact]
  unfold UsageEnforced reportedLeft
  have hmetric : Env.metricIsBytes ⟨now, some m, mac⟩ = decide (m = cstr "bytes") :=
    metricIsBytes_of_metric rfl
  by_cases hm : m = cstr "bytes"
  · -- both count bytes
    have hrule : byteRuled ⟨now, some m, mac⟩ s = true := by
      rw [byteRuled, hmetric, decide_eq_true hm, Bool.or_true]
    rw [isExpired_of_byteRuled hact hrule, bytesUsedUp_iff, if_pos hm, if_pos hm]
    exact showsNothing_iff_nonpos_iff (abs_bytesLeft_lt s)
  · rw [if_neg hm, if_neg hm]
    by_cases htag : s.paymentMethod = .bytes
    · have hrule : byteRuled ⟨now, some m, mac⟩ s = true := by
        rw [byteRuled, decide_eq_true htag, Bool.true_or]
      rw [isExpired_of_byteRuled hact hrule, bytesUsedUp_iff, if_pos htag]
    · -- both count milliseconds
      have hrule : byteRuled ⟨now, some m, mac⟩ s = false := by
        rw [byteRuled, hmetric, decide_eq_false hm, decide_eq_false htag, Bool.false_or]
      rw [isExpired_of_timeRuled hact hrule, timeUsedUp_iff, if_neg htag]
      exact showsNothing_iff_nonpos_iff (abs_timeLeft_lt now s)

/-! ### The text of `api_get_usage` -/

/-- The remaining amount in a usage line: the number before the slash. -/
def toldRemaining (text : CStr) : Int64 := atoll (text.takeWhile (· ≠ 47))

theorem toldRemaining_usageLine (remaining : Int64) (total : UInt64) :
    toldRemaining (usageLine remaining total) = remaining := by
  have hslash : ∀ b ∈ signedDecimal remaining.toInt, decide (b ≠ 47) = true := fun b hb =>
    decide_eq_true fun heq => not_mem_signedDecimal rfl (by decide) _ (heq ▸ hb)
  unfold toldRemaining usageLine
  rw [List.append_assoc, List.takeWhile_append_of_pos hslash]
  change atoll (signedDecimal remaining.toInt ++ []) = remaining
  rw [List.append_nil, atoll_signedDecimal]

theorem length_usageLine_lt (remaining : Int64) (total : UInt64) :
    (usageLine remaining total).length < 64 := by
  have hfront := length_signedDecimal_int64_le remaining
  have htotal : total.toNat < 10 ^ 20 := total.toNat_lt.trans (by norm_num)
  have hback := length_decimal_le (by omega : 0 < 20) htotal
  rw [usageLine, List.length_append, List.length_append, show (cstr "/").length = 1 from rfl]
  omega

/-- The amount in the answer is the one `calc_usage` computes. -/
theorem toldRemaining_apiGetUsage (hact : s.active = true) (cfg : Config) (now : Int64) :
    some (toldRemaining (apiGetUsage (some s) cfg now)) =
      (calcUsage (some s) cfg.metric now).map Prod.fst := by
  obtain ⟨remaining, hcalc⟩ := exists_calcUsage hact cfg.metric now
  rw [apiGetUsage_eq, portalFormatUsage, hcalc]
  dsimp only
  rw [snprintf_of_length_lt (length_usageLine_lt _ _), toldRemaining_usageLine]
  rfl

/-- The answer of `api_get_usage` to the client `ip`: the session is looked up by its
address. -/
def usageFor (c : Core) (ip : Ip) (cfg : Config) (now : Int64) : CStr :=
  apiGetUsage (c.clientSession ip) cfg now

/-- **What the client is told is what is enforced, exactly when the two rules read the
same difference.** In every state the firmware reaches, for every active session,
configuration and clock reading: `tollgate_core_portal_calc_usage` and the answer of
`api_get_usage` to the session's client report nothing left if and only if the session
is expired, exactly under `UsageEnforced`. -/
theorem remaining_zero_iff_expired_iff (evs : List Firmware.Event) (i : Slot)
    (hact : ((Firmware.reach evs).core.sessions i).active = true) (cfg : Config) (now : Int64)
    (mac : Ip → Option CStr) :
    (((calcUsage (some ((Firmware.reach evs).core.sessions i)) cfg.metric now).map Prod.fst =
          some 0 ↔
        isExpired ⟨now, some cfg.metric, mac⟩ ((Firmware.reach evs).core.sessions i) = true) ∧
      (toldRemaining (usageFor (Firmware.reach evs).core
          ((Firmware.reach evs).core.sessions i).clientIp cfg now) = 0 ↔
        isExpired ⟨now, some cfg.metric, mac⟩ ((Firmware.reach evs).core.sessions i) = true)) ↔
      UsageEnforced cfg.metric now ((Firmware.reach evs).core.sessions i) := by
  have hfind := (Firmware.reach_wellFormed evs).findByIp_of_active hact
  have htold := toldRemaining_apiGetUsage hact cfg now
  -- the client's own session is the one the lookup returns, so both reports agree
  have hanswer : toldRemaining (usageFor (Firmware.reach evs).core
      ((Firmware.reach evs).core.sessions i).clientIp cfg now) = 0 ↔
      (calcUsage (some ((Firmware.reach evs).core.sessions i)) cfg.metric now).map Prod.fst =
        some 0 := by
    rw [usageFor, clientSession_of_findByIp hfind, ← htold, Option.some.injEq]
  rw [hanswer, and_self]
  exact calcUsage_zero_iff_isExpired_iff hact mac

/-- A minute bought at zero, read at its thirtieth second. -/
theorem remaining_zero_iff_expired_iff_minute :
    ((Firmware.reach [.session Firmware.minutePurchase.op]).core.sessions 0).active = true ∧
      ((((calcUsage (some ((Firmware.reach
            [.session Firmware.minutePurchase.op]).core.sessions 0))
            timeGateway.metric 30000).map Prod.fst = some 0 ↔
          isExpired ⟨30000, some timeGateway.metric, fun _ => none⟩
            ((Firmware.reach [.session Firmware.minutePurchase.op]).core.sessions 0) = true) ∧
        (toldRemaining (usageFor (Firmware.reach [.session Firmware.minutePurchase.op]).core
            ((Firmware.reach [.session Firmware.minutePurchase.op]).core.sessions 0).clientIp
            timeGateway 30000) = 0 ↔
          isExpired ⟨30000, some timeGateway.metric, fun _ => none⟩
            ((Firmware.reach [.session Firmware.minutePurchase.op]).core.sessions 0) = true)) ↔
        UsageEnforced timeGateway.metric 30000
          ((Firmware.reach [.session Firmware.minutePurchase.op]).core.sessions 0)) := by
  have hact : ((Firmware.reach [.session Firmware.minutePurchase.op]).core.sessions 0).active =
      true := by decide
  exact ⟨hact, remaining_zero_iff_expired_iff _ 0 hact timeGateway 30000 fun _ => none⟩

/-- A client buys and uses up a thousand bytes. -/
def spentBytes : List Firmware.Event :=
  [.session (.createBytes (envAt 0 "bytes") 0x0200000a 1000),
    .session (.addBytes 0x0200000a 1000)]

/-- The metric is changed to milliseconds: the session is expired, and five milliseconds
after its start both reports still promise what is left of `INT64_MAX` milliseconds. -/
theorem spent_bytes_reported_as_time :
    ¬ ∀ (evs : List Firmware.Event) (i : Slot),
      ((Firmware.reach evs).core.sessions i).active = true →
      ∀ (cfg : Config) (now : Int64) (mac : Ip → Option CStr),
        ((calcUsage (some ((Firmware.reach evs).core.sessions i)) cfg.metric now).map Prod.fst =
            some 0 ↔
          isExpired ⟨now, some cfg.metric, mac⟩ ((Firmware.reach evs).core.sessions i) = true) ∧
        (toldRemaining (usageFor (Firmware.reach evs).core
            ((Firmware.reach evs).core.sessions i).clientIp cfg now) = 0 ↔
          isExpired ⟨now, some cfg.metric, mac⟩ ((Firmware.reach evs).core.sessions i) = true)
      := by
  intro h
  have hreport := (h spentBytes 0 (by decide) timeGateway 5 fun _ => none).1
  have hexp : isExpired ⟨5, some timeGateway.metric, fun _ => none⟩
      ((Firmware.reach spentBytes).core.sessions 0) = true := by decide
  have hzero := hreport.mpr hexp
  revert hzero
  decide

end Api

end TollGate
