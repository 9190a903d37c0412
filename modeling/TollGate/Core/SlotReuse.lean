import TollGate.Core.Client

/-!
# What a reused slot remembers

A new client gets a slot that other clients used before. `session_create_bytes`
writes every field of the record; `session_create` leaves `allotment_bytes` and
`bytes_consumed` as the last occupant left them. Two tables that differ in the
past of the slot can then be told apart by the new client, through the expiry of
its session and the usage the portal reports (`calcUsage`), if and only if these
leftovers differ and are read: the call was `session_create`, and the metric is
`"bytes"` (`Core.slotReuse_indistinguishable_iff`).

Both directions are about runs. A client sees the table through its record
(`Core.WellFormed.clientSession_run`), so indistinguishability is a bisimulation
between two records: equal ones, or under a time metric twins that differ in the
two byte counters only (`Twin`). Conversely a difference in the counters shows
after at most one call of `session_add_bytes`.
-/

namespace TollGate

/-- `tollgate_core_portal_calc_usage`: the remaining and the total entitlement, if
the session is there and active. -/
def calcUsage (session : Option TgSession) (metric : CStr) (nowMs : Int64) :
    Option (Int64 × Int64) :=
  match session with
  | none => none
  | some s =>
    if !s.active then none
    else if metric = cstr "bytes" then
      let remaining := s.allotmentBytes.toInt64 - s.bytesConsumed.toInt64
      some (if remaining < 0 then 0 else remaining, s.allotmentBytes.toInt64)
    else
      let elapsed := nowMs - s.startTimeMs
      let remaining := s.allotmentMs.toInt64 - elapsed
      some (if remaining < 0 then 0 else remaining, s.allotmentMs.toInt64)

namespace Core

variable {c : Core} {env : Env} {ip : Ip} {m : CStr}

/-! ### What a client can observe -/

/-- The expiry decision and the reported usage of a record, or of no record. -/
def observeRecord (env : Env) (m : CStr) (s : Option TgSession) :
    Bool × Option (Int64 × Int64) :=
  (s.elim true (isExpired env), calcUsage s m env.now)

/-- The expiry decision and the reported usage of the client `ip`, read at `env`
under the configured metric `m`. -/
def observe (env : Env) (m : CStr) (c : Core) (ip : Ip) : Bool × Option (Int64 × Int64) :=
  observeRecord env m (c.clientSession ip)

/-- The operation runs under the configured metric `m`. -/
def UsageOp.Under (m : CStr) : UsageOp → Prop
  | .tick env => env.metric = some m
  | _ => True

/-- Under the configured metric `m`, whatever happens to the running sessions, the
client `ip` observes the same in both tables. -/
def Indistinguishable (m : CStr) (ip : Ip) (c₁ c₂ : Core) : Prop :=
  ∀ ops : List UsageOp, (∀ op ∈ ops, op.Under m) → ∀ env : Env, env.metric = some m →
    observe env m (StepRun.run usageStep c₁ ops) ip =
      observe env m (StepRun.run usageStep c₂ ops) ip

/-! ### Records that cannot be told apart -/

/-- The byte counters the previous occupants left in two slots agree. -/
def SameCounters (old₁ old₂ : TgSession) : Prop :=
  old₁.allotmentBytes = old₂.allotmentBytes ∧ old₁.bytesConsumed = old₂.bytesConsumed

/-- Records that agree on all but the byte counters, with no byte tag. -/
structure Twin (s₁ s₂ : TgSession) : Prop where
  ms : s₁.allotmentMs = s₂.allotmentMs
  start : s₁.startTimeMs = s₂.startTimeMs
  active : s₁.active = s₂.active
  method : s₁.paymentMethod = s₂.paymentMethod
  untagged : s₁.paymentMethod ≠ .bytes

theorem metricIsBytes_of_metric (hm : env.metric = some m) :
    env.metricIsBytes = decide (m = cstr "bytes") := by
  unfold Env.metricIsBytes
  rw [hm]
  simp only [Option.some.injEq]

/-- Under a time metric the byte counters of an untagged record are not read. -/
theorem Twin.isExpired {s₁ s₂ : TgSession} (h : Twin s₁ s₂) (hm : env.metricIsBytes = false) :
    isExpired env s₁ = isExpired env s₂ := by
  cases hact : s₁.active with
  | false => rw [isExpired_of_inactive hact, isExpired_of_inactive (h.active ▸ hact)]
  | true =>
    -- neither record has the byte tag and the metric is a time metric
    have hrule₁ : byteRuled env s₁ = false := by
      unfold byteRuled
      rw [hm, Bool.or_false, decide_eq_false h.untagged]
    have hrule₂ : byteRuled env s₂ = false := by
      unfold byteRuled at hrule₁ ⊢
      rw [← h.method, hrule₁]
    rw [isExpired_of_timeRuled hact hrule₁, isExpired_of_timeRuled (h.active ▸ hact) hrule₂]
    unfold timeUsedUp
    rw [h.start, h.ms]

theorem Twin.calcUsage {s₁ s₂ : TgSession} (h : Twin s₁ s₂) (hm : m ≠ cstr "bytes")
    (now : Int64) : calcUsage (some s₁) m now = calcUsage (some s₂) m now := by
  unfold TollGate.calcUsage
  simp only [if_neg hm, h.active, h.start, h.ms]

/-- Twins stay twins: a tick that revokes one revokes the other. -/
theorem Twin.onClient {o₁ o₂ : Option TgSession} {op : UsageOp} (hop : op.Under m)
    (hm : m ≠ cstr "bytes") (h : Option.Rel Twin o₁ o₂) :
    Option.Rel Twin (op.onClient ip o₁) (op.onClient ip o₂) := by
  cases h with
  | none => cases op <;> simp [UsageOp.onClient]
  | @some s₁ s₂ h =>
    cases op with
    | addBytes ip' n =>
      simp only [UsageOp.onClient, Option.map_some]
      split
      · exact .some ⟨h.ms, h.start, h.active, h.method, h.untagged⟩
      · exact .some h
    | extend ip' a =>
      simp only [UsageOp.onClient, Option.map_some]
      split
      · refine .some ⟨?_, h.start, h.active, h.method, h.untagged⟩
        rw [h.ms]
      · exact .some h
    | tick env =>
      -- both records get the same verdict, so both go or both stay
      have hmetric : env.metricIsBytes = false := by
        rw [metricIsBytes_of_metric hop]
        exact decide_eq_false hm
      simp only [UsageOp.onClient, Option.filter_some, h.isExpired hmetric]
      split
      · exact .some h
      · exact .none

theorem Twin.observeRecord {o₁ o₂ : Option TgSession} (hm : m ≠ cstr "bytes")
    (henv : env.metric = some m) (h : Option.Rel Twin o₁ o₂) :
    observeRecord env m o₁ = observeRecord env m o₂ := by
  cases h with
  | none => rfl
  | some h =>
    have hmetric : env.metricIsBytes = false := by
      rw [metricIsBytes_of_metric henv]
      exact decide_eq_false hm
    unfold Core.observeRecord
    simp only [Option.elim_some]
    rw [h.isExpired hmetric, h.calcUsage hm]

theorem WellFormed.indistinguishable {c₁ c₂ : Core} (h₁ : c₁.WellFormed) (h₂ : c₂.WellFormed)
    (h : ∀ ops : List UsageOp, (∀ op ∈ ops, op.Under m) → ∀ env : Env, env.metric = some m →
      observeRecord env m (StepRun.run (UsageOp.onClient ip) (c₁.clientSession ip) ops) =
        observeRecord env m (StepRun.run (UsageOp.onClient ip) (c₂.clientSession ip) ops)) :
    Indistinguishable m ip c₁ c₂ := by
  intro ops hops env henv
  unfold observe
  rw [h₁.clientSession_run, h₂.clientSession_run]
  exact h ops hops env henv

/-! ### Records that can be told apart -/

theorem calcUsage_bytes {s : TgSession} (hact : s.active = true) (now : Int64) :
    calcUsage (some s) (cstr "bytes") now =
      some (if s.allotmentBytes.toInt64 - s.bytesConsumed.toInt64 < 0 then 0
        else s.allotmentBytes.toInt64 - s.bytesConsumed.toInt64, s.allotmentBytes.toInt64) := by
  unfold calcUsage
  simp [hact]

theorem allotmentBytes_of_usage {s₁ s₂ : TgSession} (h₁ : s₁.active = true)
    (h₂ : s₂.active = true) {now : Int64}
    (h : calcUsage (some s₁) (cstr "bytes") now = calcUsage (some s₂) (cstr "bytes") now) :
    s₁.allotmentBytes = s₂.allotmentBytes := by
  rw [calcUsage_bytes h₁, calcUsage_bytes h₂] at h
  exact UInt64.toInt64_injective (congrArg Prod.snd (Option.some.inj h))

/-- Traffic that leaves the first record one byte short of its allotment shows in
the usage whether the second had consumed as much. -/
theorem bytesConsumed_of_usage {s₁ s₂ : TgSession} (h₁ : s₁.active = true)
    (h₂ : s₂.active = true) (hallot : s₁.allotmentBytes = s₂.allotmentBytes) {now : Int64}
    {n : UInt64} (hn : n = s₁.allotmentBytes - 1 - s₁.bytesConsumed)
    (h : calcUsage (some { s₁ with bytesConsumed := s₁.bytesConsumed + n }) (cstr "bytes") now =
      calcUsage (some { s₂ with bytesConsumed := s₂.bytesConsumed + n }) (cstr "bytes") now) :
    s₁.bytesConsumed = s₂.bytesConsumed := by
  have hone : s₁.allotmentBytes - (s₁.bytesConsumed + n) = 1 := by rw [hn]; grind
  -- the remainder is reported only when it is not negative, so it is made to be one
  have husage₁ := calcUsage_bytes (s := { s₁ with bytesConsumed := s₁.bytesConsumed + n }) h₁ now
  have husage₂ := calcUsage_bytes (s := { s₂ with bytesConsumed := s₂.bytesConsumed + n }) h₂ now
  rw [husage₁, husage₂] at h
  have hleft := congrArg Prod.fst (Option.some.inj h)
  simp only [← UInt64.toInt64_sub, ← hallot, hone] at hleft
  -- one byte is left of the first record, so one byte is left of the second
  have htwo : s₁.allotmentBytes - (s₂.bytesConsumed + n) = 1 := by
    split at hleft
    · next hneg => exact absurd hneg (by decide)
    · split at hleft
      · exact absurd hleft (by decide)
      · exact (UInt64.toInt64_injective hleft).symm
  grind

/-- Active records that observe the same, at once and after some traffic, under the
byte metric have the same byte counters. -/
theorem sameCounters_of_observe {s₁ s₂ : TgSession} (h₁ : s₁.active = true)
    (h₂ : s₂.active = true) (env : Env) (ip : Ip)
    (h : ∀ ops : List UsageOp, (∀ op ∈ ops, op.Under (cstr "bytes")) →
      observeRecord env (cstr "bytes") (StepRun.run (UsageOp.onClient ip) (some s₁) ops) =
        observeRecord env (cstr "bytes") (StepRun.run (UsageOp.onClient ip) (some s₂) ops)) :
    SameCounters s₁ s₂ := by
  have hnow := h [] (fun op hop => absurd hop List.not_mem_nil)
  have hallot : s₁.allotmentBytes = s₂.allotmentBytes :=
    allotmentBytes_of_usage h₁ h₂ (congrArg Prod.snd hnow)
  -- the traffic is chosen by the first record alone
  have hlater := h [.addBytes ip (s₁.allotmentBytes - 1 - s₁.bytesConsumed)]
    (by simp [UsageOp.Under])
  simp only [StepRun.run_cons, StepRun.run_nil, UsageOp.onClient, if_true,
    Option.map_some] at hlater
  exact ⟨hallot, bytesConsumed_of_usage h₁ h₂ hallot rfl (congrArg Prod.snd hlater)⟩

/-! ### The theorem -/

/-- The record of a new client depends on the past of its slot in the byte counters
only, and only after `session_create`. -/
theorem recordFor_eq {bytes : Bool} {old₁ old₂ : TgSession} {a : UInt64}
    (h : bytes = true ∨ SameCounters old₁ old₂) :
    recordFor bytes env old₁ ip a = recordFor bytes env old₂ ip a := by
  unfold recordFor
  split
  · -- a byte purchase overwrites both counters
    rfl
  · next hbytes =>
    obtain ⟨hallot, hcons⟩ := h.resolve_left hbytes
    unfold newSession
    rw [hallot, hcons]

theorem recordFor_twin (env : Env) (old₁ old₂ : TgSession) (ip : Ip) (a : UInt64) :
    Twin (recordFor false env old₁ ip a) (recordFor false env old₂ ip a) :=
  ⟨rfl, rfl, rfl, rfl, fun h => PaymentMethod.noConfusion h⟩

/-- **A reused slot shows its past exactly through the byte counters.** Take two
well-formed tables, as every reachable one is, in which the client `ip` has no
session and would get the slots `i₁` and `i₂` (free ones, or evicted), and let it
make the same purchase at the same clock reading and configuration. All later
traffic counts, extensions, ticks and usage queries give it the same expiry
decisions and the same reported usage in both if and only if the purchase was
`session_create_bytes`, or the metric is not `"bytes"`, or the previous occupants
of the two slots left the same byte counters. -/
theorem slotReuse_indistinguishable_iff (bytes : Bool) (env : Env) (m : CStr)
    (hm : env.metric = some m) (c₁ c₂ : Core) (h₁ : c₁.WellFormed) (h₂ : c₂.WellFormed)
    (ip : Ip) (a : UInt64) (hnew₁ : c₁.clientSession ip = none)
    (hnew₂ : c₂.clientSession ip = none) (i₁ i₂ : Slot) (hslot₁ : c₁.slotForNew env = some i₁)
    (hslot₂ : c₂.slotForNew env = some i₂) :
    Indistinguishable m ip (c₁.sell bytes env ip a).1 (c₂.sell bytes env ip a).1 ↔
      (bytes = true ∨ m ≠ cstr "bytes" ∨
        SameCounters (c₁.sessions i₁) (c₂.sessions i₂)) := by
  have hwf₁ := h₁.changes (sell_changes bytes env ip a)
  have hwf₂ := h₂.changes (sell_changes bytes env ip a)
  have hrec₁ := (sell_returns_of_none hnew₁ hslot₁ bytes a).clientSession
  have hrec₂ := (sell_returns_of_none hnew₂ hslot₂ bytes a).clientSession
  refine ⟨?_, ?_⟩
  · intro h
    by_contra hcond
    push Not at hcond
    obtain ⟨hbytes, rfl, hdiff⟩ := hcond
    obtain rfl : bytes = false := by simpa using hbytes
    -- the new records carry the counters of their slots, and the runs tell them apart
    have hsame : SameCounters (newSession env (c₁.sessions i₁) ip a)
        (newSession env (c₂.sessions i₂) ip a) := by
      refine sameCounters_of_observe rfl rfl env ip fun ops hops => ?_
      have hops' := h ops hops env hm
      unfold observe at hops'
      rw [hwf₁.clientSession_run, hwf₂.clientSession_run, hrec₁, hrec₂] at hops'
      exact hops'
    exact hdiff hsame
  · intro hcond
    refine hwf₁.indistinguishable hwf₂ fun ops hops env' henv' => ?_
    rw [hrec₁, hrec₂]
    by_cases heq : bytes = true ∨ SameCounters (c₁.sessions i₁) (c₂.sessions i₂)
    · rw [recordFor_eq heq]
    · -- the counters may differ, but under a time metric nothing reads them
      have hm' : m ≠ cstr "bytes" := by tauto
      obtain rfl : bytes = false := by
        rw [← Bool.not_eq_true]
        exact fun hb => heq (Or.inl hb)
      have hstep : ∀ op ∈ ops, ∀ o₁ o₂, Option.Rel Twin o₁ o₂ →
          Option.Rel Twin (UsageOp.onClient ip o₁ op) (UsageOp.onClient ip o₂ op) :=
        fun op hop o₁ o₂ h => Twin.onClient (hops op hop) hm' h
      refine Twin.observeRecord hm' henv' ?_
      exact StepRun.run_rel ops hstep (.some (recordFor_twin env _ _ ip a))

/-- A table whose first slot an earlier client used: it bought 1000 bytes and its
session was revoked. -/
def usedSlotTable (metric : String) : Core :=
  reach [.createBytes (envAt 0 metric) 3 1000, .revoke (some 0)]

/-- Under a time metric the earlier client leaves no trace. -/
theorem slotReuse_milliseconds :
    boot.clientSession 2 = none ∧ (usedSlotTable "milliseconds").clientSession 2 = none ∧
      Indistinguishable (cstr "milliseconds") 2
        (boot.sell false (envAt 5 "milliseconds") 2 60000).1
        ((usedSlotTable "milliseconds").sell false (envAt 5 "milliseconds") 2 60000).1 := by
  have hnew₁ : boot.clientSession 2 = none := by decide
  have hnew₂ : (usedSlotTable "milliseconds").clientSession 2 = none := by decide
  refine ⟨hnew₁, hnew₂, ?_⟩
  exact (slotReuse_indistinguishable_iff false (envAt 5 "milliseconds") (cstr "milliseconds") rfl
    boot (usedSlotTable "milliseconds") WellFormed.boot (reach_inStep _).wf 2 60000 hnew₁ hnew₂
    0 0 (by decide) (by decide)).mpr (Or.inr (Or.inl (by decide)))

/-- Under the byte metric the new client inherits the 1000 bytes of the earlier one:
its session is expired in the fresh table and runs in the used one. -/
theorem slotReuse_bytes_distinguishes :
    boot.clientSession 2 = none ∧ boot.slotForNew (envAt 5 "bytes") = some 0 ∧
      (usedSlotTable "bytes").clientSession 2 = none ∧
      (usedSlotTable "bytes").slotForNew (envAt 5 "bytes") = some 0 ∧
      observe (envAt 5 "bytes") (cstr "bytes")
        (boot.sell false (envAt 5 "bytes") 2 60000).1 2 = (true, some (0, 0)) ∧
      observe (envAt 5 "bytes") (cstr "bytes")
        ((usedSlotTable "bytes").sell false (envAt 5 "bytes") 2 60000).1 2 =
          (false, some (1000, 1000)) ∧
      ¬ Indistinguishable (cstr "bytes") 2 (boot.sell false (envAt 5 "bytes") 2 60000).1
        ((usedSlotTable "bytes").sell false (envAt 5 "bytes") 2 60000).1 := by
  have hfresh : observe (envAt 5 "bytes") (cstr "bytes")
      (boot.sell false (envAt 5 "bytes") 2 60000).1 2 = (true, some (0, 0)) := by
    decide
  have hused : observe (envAt 5 "bytes") (cstr "bytes")
      ((usedSlotTable "bytes").sell false (envAt 5 "bytes") 2 60000).1 2 =
        (false, some (1000, 1000)) := by
    decide
  refine ⟨by decide, by decide, by decide, by decide, hfresh,
    hused, fun h => ?_⟩
  have hnow := h [] (fun op hop => absurd hop List.not_mem_nil) (envAt 5 "bytes") rfl
  rw [StepRun.run_nil, StepRun.run_nil, hfresh, hused] at hnow
  exact absurd hnow (by decide)

end Core

end TollGate
