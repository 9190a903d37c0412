import TollGate.Upstream.Client
import TollGate.Api.Replies

/-!
# Renewing at the upstream TollGate

A tick in `TG_CLIENT_PAID` asks the upstream for the usage, keeps both figures of the answer, and
buys again when `tollgate_core_client_should_renew` says so. That test takes a negative remainder
for "not known yet" and an allotment that is not positive for "nothing bought yet". An upstream
that has no session for the client answers `-1` for both figures, and that looks like either.

So the answer that tells of the end of the session is the one that ends the renewals: the client
stays in `TG_CLIENT_PAID` and pays nothing for as long as the upstream has nothing else to tell
(`stalled_run`). `renews_iff` says in which runs every such answer is met with a payment, and
`renews_at_gateway_iff` what this comes to when the upstream runs the same firmware.
-/

namespace TollGate

namespace Upstream

open CJson CStr Wallet

/-! ### What a tick hears -/

/-- What `tollgate_client_query_usage` makes of a reply: what remains and the total. -/
def toldUsage (reply : Option Reply) : Option (Int64 × Int64) :=
  reply.bind fun r => if r.status ≠ 200 then none else clientParseUsage (r.text 256)

theorem queryUsage_eq (c : Client) (reply : Option Reply) :
    c.queryUsage reply = match toldUsage reply with
      | none => c
      | some (remaining, total) => { c with remainingMs := remaining, allotmentMs := total } := by
  unfold Client.queryUsage toldUsage
  cases reply with
  | none => rfl
  | some r =>
    dsimp only [Option.bind_some]
    by_cases hstatus : r.status ≠ 200
    · rw [if_pos hstatus, if_pos hstatus]
    · cases clientParseUsage (r.text 256) with
      | none => rw [if_neg hstatus, if_neg hstatus]
      | some u => rw [if_neg hstatus, if_neg hstatus]

/-- The call is a tick in `TG_CLIENT_PAID` that receives these figures. Without the address of a
gateway it asks nobody. -/
def Hears (s : Machine) (u : Int64 × Int64) : Input → Prop
  | .tick _ _ usage _ _ =>
    s.client.state = .paid ∧ s.client.gwIp ≠ [] ∧ toldUsage usage = some u
  | _ => False

theorem hears_tick {s : Machine} {u : Int64 × Int64} {usage : Option Reply}
    (hstate : s.client.state = .paid) (hip : s.client.gwIp ≠ []) (htold : toldUsage usage = some u)
    (cfg : Config) (now : Int64) (pay : Attempt) (paidAt : Int64) :
    Hears s u (.tick cfg now usage pay paidAt) :=
  ⟨hstate, hip, htold⟩

/-- The session is gone, which is told with `-1` for both figures, or it is used up. -/
def Gone (u : Int64 × Int64) : Prop := u = (-1, -1) ∨ u.1 = 0

/-- In a run from boot, a tick that hears that the session is gone or used up pays. -/
def Renews (parse : CStr → Option Json) (purse : Purse) (inputs : List Input) : Prop :=
  ∀ front input back, inputs = front ++ input :: back →
    ∀ u, Hears (StepRun.run (step parse) (boot purse) front) u input → Gone u →
      (payment parse (StepRun.run (step parse) (boot purse) front) input).isSome = true

/-- Whoever tells a tick that nothing remains tells a total above zero with it. -/
def TotalTold (s : Machine) (input : Input) : Prop := ∀ u, Hears s u input → Gone u → 0 < u.2

/-! ### The test -/

/-- Without an allotment, or when what remains is unknown, nothing is renewed. -/
theorem clientShouldRenew_of_unknown {remaining total : Int64} (h : total ≤ 0 ∨ remaining < 0)
    (pct : Int32) : clientShouldRenew remaining total pct = false :=
  if_pos h

/-- Of a session that is used up the total alone decides. -/
theorem clientShouldRenew_zero (total : Int64) (pct : Int32) :
    clientShouldRenew 0 total pct = true ↔ 0 < total := by
  by_cases htotal : total ≤ 0
  · rw [clientShouldRenew_of_unknown (.inl htotal)]
    exact iff_of_false Bool.false_ne_true (Int64.not_lt.mpr htotal)
  · refine iff_of_true ?_ (Int64.not_le.mp htotal)
    have hpct : 0 ≤ if pct ≤ 0 then (20 : Int32) else pct := by
      split
      · decide
      next hpos => exact Int32.le_of_lt (Int32.not_le.mp hpos)
    unfold clientShouldRenew
    dsimp only
    rw [if_neg (not_or.mpr ⟨htotal, by decide⟩), decide_eq_true_eq, Int64.zero_mul,
      Int64.zero_div]
    exact hpct

theorem clientShouldRenew_of_gone {u : Int64 × Int64} (hgone : Gone u) (pct : Int32) :
    clientShouldRenew u.1 u.2 pct = true ↔ 0 < u.2 := by
  rcases hgone with rfl | hzero
  · rw [clientShouldRenew_of_unknown (.inl (by decide))]
    exact iff_of_false Bool.false_ne_true (by decide)
  · rw [hzero]
    exact clientShouldRenew_zero u.2 pct

/-! ### A tick in `TG_CLIENT_PAID` -/

section Tick

variable {parse : CStr → Option Json} {s : Machine}

/-- The client after it has asked. -/
def Client.asked (c : Client) (usage : Option Reply) : Client :=
  if c.gwIp = [] then c else c.queryUsage usage

/-- A tick keeps the figures that it hears, and the rest is what its payment comes to. -/
theorem step_of_paid (hstate : s.client.state = .paid) (cfg : Config) (now : Int64)
    (usage : Option Reply) (pay : Attempt) (paidAt : Int64) :
    step parse s (.tick cfg now usage pay paidAt) =
      match payment parse s (.tick cfg now usage pay paidAt) with
      | none => { s with client := s.client.asked usage }
      | some p => match clientPay parse s.funds p.1 p.2 with
        | (f, .ok allotment) => ⟨(s.client.asked usage).bought allotment paidAt, f⟩
        | (f, .error _) =>
          ⟨{ s.client.asked usage with state := .error, lastPayTimeMs := paidAt }, f⟩ := by
  rw [step, clientTick, payment, Client.due, hstate]
  dsimp only
  unfold tickPaid Client.asked
  by_cases hip : s.client.gwIp = []
  · rw [if_pos hip, if_neg fun h => h.2 hip, if_pos hip]
  · rw [if_neg hip, if_neg hip]
    dsimp only
    split
    next hrenew =>
      rw [discovery_queryUsage]
      rcases hpay : clientPay parse s.funds (amountSats cfg s.client.discovery) pay with
        ⟨f, e | allotment⟩
      all_goals
        rw [if_pos ⟨hrenew, hip⟩]
        dsimp only
        rw [hpay]
    next hrenew => rw [if_neg fun h => hrenew h.1]

/-- It pays exactly if the figures that it has then ask for it. -/
theorem isSome_payment_of_paid (hstate : s.client.state = .paid) (cfg : Config) (now : Int64)
    (usage : Option Reply) (pay : Attempt) (paidAt : Int64) :
    (payment parse s (.tick cfg now usage pay paidAt)).isSome = true ↔
      clientShouldRenew (s.client.queryUsage usage).remainingMs
          (s.client.queryUsage usage).allotmentMs cfg.clientRenewalThresholdPct = true ∧
        s.client.gwIp ≠ [] := by
  rw [payment, Client.due, hstate, Option.isSome_ite]

/-- A tick that hears of the end of the session pays exactly if it hears a total above zero. -/
theorem isSome_payment_of_gone {u : Int64 × Int64} {input : Input} (hhears : Hears s u input)
    (hgone : Gone u) : (payment parse s input).isSome = true ↔ 0 < u.2 := by
  cases input with
  | staConnected | staDisconnected => exact hhears.elim
  | tick cfg now usage pay paidAt =>
    obtain ⟨hstate, hip, htold⟩ := hhears
    rw [isSome_payment_of_paid hstate, and_iff_left hip, queryUsage_eq, htold]
    exact clientShouldRenew_of_gone hgone _

end Tick

/-! ### How long the client stays -/

/-- The client holds its session for paid, on figures that it will not renew on. -/
structure Client.Stalled (c : Client) : Prop where
  state : c.state = .paid
  unknown : c.allotmentMs ≤ 0 ∨ c.remainingMs < 0

/-- A tick that is told nothing, or figures of that kind. -/
def Input.TellsNothing : Input → Prop
  | .tick _ _ usage _ _ => ∀ u, toldUsage usage = some u → u.2 ≤ 0 ∨ u.1 < 0
  | _ => False

theorem Client.Stalled.queryUsage {c : Client} (h : c.Stalled) {usage : Option Reply}
    (husage : ∀ u, toldUsage usage = some u → u.2 ≤ 0 ∨ u.1 < 0) :
    (c.queryUsage usage).Stalled := by
  rw [queryUsage_eq]
  cases htold : toldUsage usage with
  | none => exact h
  | some u => exact ⟨h.state, husage u htold⟩

theorem Client.Stalled.asked {c : Client} (h : c.Stalled) {usage : Option Reply}
    (husage : ∀ u, toldUsage usage = some u → u.2 ≤ 0 ∨ u.1 < 0) : (c.asked usage).Stalled := by
  unfold Client.asked
  split
  · exact h
  · exact h.queryUsage husage

section Stalled

variable {parse : CStr → Option Json} {s : Machine}

theorem step_of_stalled {usage : Option Reply} (hstate : s.client.state = .paid)
    (hasked : (s.client.asked usage).Stalled) (cfg : Config) (now : Int64) (pay : Attempt)
    (paidAt : Int64) :
    payment parse s (.tick cfg now usage pay paidAt) = none ∧
      step parse s (.tick cfg now usage pay paidAt) =
        { s with client := s.client.asked usage } := by
  have hnone : payment parse s (.tick cfg now usage pay paidAt) = none := by
    rw [← Option.not_isSome_iff_eq_none, isSome_payment_of_paid hstate]
    rintro ⟨hrenew, hip⟩
    rw [Client.asked, if_neg hip] at hasked
    rw [clientShouldRenew_of_unknown hasked.unknown] at hrenew
    exact Bool.false_ne_true hrenew
  rw [step_of_paid hstate, hnone]
  exact ⟨rfl, rfl⟩

/-- The answer that brings the client there. -/
theorem stalled_of_hears {u : Int64 × Int64} {input : Input} (hhears : Hears s u input)
    (hunknown : u.2 ≤ 0 ∨ u.1 < 0) :
    (step parse s input).client.Stalled ∧ (step parse s input).funds = s.funds := by
  cases input with
  | staConnected | staDisconnected => exact hhears.elim
  | tick cfg now usage pay paidAt =>
    obtain ⟨hstate, hip, htold⟩ := hhears
    have hasked : (s.client.asked usage).Stalled := by
      rw [Client.asked, if_neg hip, queryUsage_eq, htold]
      exact ⟨hstate, hunknown⟩
    rw [(step_of_stalled hstate hasked cfg now pay paidAt).2]
    exact ⟨hasked, rfl⟩

theorem stalled_step {input : Input} (h : s.client.Stalled) (hinput : input.TellsNothing) :
    payment parse s input = none ∧ (step parse s input).client.Stalled ∧
      (step parse s input).funds = s.funds := by
  cases input with
  | staConnected | staDisconnected => exact hinput.elim
  | tick cfg now usage pay paidAt =>
    obtain ⟨hnone, hstep⟩ := @step_of_stalled parse s _ h.state (h.asked hinput) cfg now pay paidAt
    rw [hstep]
    exact ⟨hnone, h.asked hinput, rfl⟩

/-- Nothing but another answer, or a new connection, gets the client out of it. -/
theorem stalled_run {inputs : List Input} (h : s.client.Stalled)
    (hinputs : ∀ input ∈ inputs, input.TellsNothing) :
    (StepRun.run (step parse) s inputs).client.Stalled ∧
      (StepRun.run (step parse) s inputs).funds = s.funds ∧
      StepRun.AllSteps (step parse) (fun s input => payment parse s input = none) s inputs := by
  induction inputs generalizing s with
  | nil => exact ⟨h, rfl, trivial⟩
  | cons input inputs ih =>
    obtain ⟨hinput, hrest⟩ := List.forall_mem_cons.mp hinputs
    obtain ⟨hnone, hstalled, hfunds⟩ := @stalled_step parse _ _ h hinput
    obtain ⟨hstalled', hfunds', hnone'⟩ := ih hstalled hrest
    exact ⟨hstalled', hfunds'.trans hfunds, hnone, hnone'⟩

end Stalled

/-! ### Every run -/

/-- **Exactly when the end of a session is met with a payment.** For every run of the client from
boot: whenever a tick in `TG_CLIENT_PAID` hears that the session is gone or used up it pays, if
and only if a total above zero was told with it each time. -/
theorem renews_iff (parse : CStr → Option Json) (purse : Purse) (inputs : List Input) :
    Renews parse purse inputs ↔ StepRun.AllSteps (step parse) TotalTold (boot purse) inputs := by
  rw [StepRun.allSteps_iff]
  refine forall_congr' fun front => forall_congr' fun input => forall_congr' fun back =>
    forall_congr' fun _ => forall_congr' fun u => forall_congr' fun hhears =>
    forall_congr' fun hgone => ?_
  exact isSome_payment_of_gone hhears hgone

/-- The upstream has forgotten the session. The client stays in `TG_CLIENT_PAID` for any number of
ticks, and nothing more is paid. -/
theorem gone_session_not_renewed :
    ¬ Renews sampleParse samplePurse
        [connection ⟨200, sessionText⟩, laterTick (some ⟨200, cstr "-1/-1"⟩)] ∧
      ∀ n, (StepRun.run (step sampleParse) (boot samplePurse)
          (connection ⟨200, sessionText⟩ ::
            List.replicate (n + 1) (laterTick (some ⟨200, cstr "-1/-1"⟩)))).client.state = .paid ∧
        (StepRun.run (step sampleParse) (boot samplePurse)
          (connection ⟨200, sessionText⟩ ::
            List.replicate (n + 1) (laterTick (some ⟨200, cstr "-1/-1"⟩)))).funds =
          (step sampleParse (boot samplePurse) (connection ⟨200, sessionText⟩)).funds := by
  have htold : toldUsage (some ⟨200, cstr "-1/-1"⟩) = some (-1, -1) := by decide
  have hhears : Hears (step sampleParse (boot samplePurse) (connection ⟨200, sessionText⟩))
      (-1, -1) (laterTick (some ⟨200, cstr "-1/-1"⟩)) :=
    hears_tick (by decide +kernel) (by decide +kernel) htold _ _ _ _
  refine ⟨fun h => ?_, fun n => ?_⟩
  · have hpays := h [connection ⟨200, sessionText⟩] _ [] rfl (-1, -1)
    rw [StepRun.run_cons, StepRun.run_nil] at hpays
    have hpositive := (isSome_payment_of_gone hhears (.inl rfl)).mp (hpays hhears (.inl rfl))
    exact absurd hpositive (by decide)
  · rw [StepRun.run_cons, List.replicate_succ, StepRun.run_cons]
    obtain ⟨hstalled, hfunds⟩ := @stalled_of_hears sampleParse _ _ _ hhears (.inl (by decide))
    have hticks : ∀ input ∈ List.replicate n (laterTick (some ⟨200, cstr "-1/-1"⟩)),
        input.TellsNothing := by
      intro input hinput
      rw [List.eq_of_mem_replicate hinput]
      intro u hu
      obtain rfl := Option.some.inj (htold.symm.trans hu)
      exact .inl (by decide)
    obtain ⟨hstalled', hfunds', -⟩ := @stalled_run sampleParse _ _ hstalled hticks
    exact ⟨hstalled'.state, hfunds'.trans hfunds⟩

/-- With a total above zero the same tick pays. -/
example : (payment sampleParse
    (step sampleParse (boot samplePurse) (connection ⟨200, sessionText⟩))
    (laterTick (some ⟨200, cstr "0/60000"⟩))).isSome = true := by
  decide +kernel

/-! ### An upstream of the same firmware -/

theorem text_of_short {r : Reply} {size : ℕ} (hlength : r.body.length < size)
    (hnul : 0 ∉ r.body) : r.text size = r.body := by
  unfold Reply.text
  rw [List.take_of_length_le (by omega), List.takeWhile_eq_self_iff]
  intro b hb
  rw [decide_eq_true_eq]
  exact fun hzero => hnul (hzero ▸ hb)

theorem zero_not_mem_usageLine (remaining : Int64) (total : UInt64) :
    0 ∉ Api.usageLine remaining total := by
  unfold Api.usageLine
  rw [List.mem_append, List.mem_append, not_or, not_or]
  exact ⟨⟨not_mem_signedDecimal rfl (by decide) _, by decide⟩, not_mem_decimal rfl _⟩

theorem calcUsage_eq_none {session : Option TgSession} (metric : CStr) (nowMs : Int64)
    (h : ∀ t ∈ session, t.active = false) : calcUsage session metric nowMs = none := by
  cases session with
  | none => rfl
  | some t =>
    unfold calcUsage
    dsimp only
    rw [h t rfl, Bool.not_false, if_pos rfl]

/-- What `api_get_usage` has to tell reaches the tick. -/
theorem toldUsage_apiGetUsage (session : Option TgSession) (gateway : TollGate.Config)
    (nowMs : Int64)
    (htotal : ∀ t ∈ session, (Api.countedAllotment t gateway.metric).toNat < 2 ^ 63) :
    toldUsage (some ⟨200, Api.apiGetUsage session gateway nowMs⟩) =
      some ((calcUsage session gateway.metric nowMs).getD (-1, -1)) := by
  have hread : clientParseUsage (Api.apiGetUsage session gateway nowMs) =
      some ((calcUsage session gateway.metric nowMs).getD (-1, -1)) := by
    rw [Api.apiGetUsage_eq]
    by_cases hactive : ∃ t, session = some t ∧ t.active = true
    · obtain ⟨t, rfl, hactive⟩ := hactive
      rw [Api.clientParseUsage_portalFormatUsage hactive (htotal t rfl) nowMs (by omega)]
      obtain ⟨remaining, hcalc⟩ := Api.exists_calcUsage hactive gateway.metric nowMs
      rw [hcalc]
      rfl
    · have hnone := calcUsage_eq_none gateway.metric nowMs fun t ht =>
        Bool.eq_false_iff.mpr fun h => hactive ⟨t, ht, h⟩
      unfold Api.portalFormatUsage
      rw [hnone]
      decide
  have hshort : (Api.apiGetUsage session gateway nowMs).length < 256 ∧
      0 ∉ Api.apiGetUsage session gateway nowMs := by
    rw [Api.apiGetUsage_eq]
    unfold Api.portalFormatUsage
    split
    · decide
    · refine ⟨(List.length_take_le _ _).trans_lt (by omega), fun hzero => ?_⟩
      exact zero_not_mem_usageLine _ _ (List.mem_of_mem_take hzero)
  unfold toldUsage
  rw [Option.bind_some, if_neg (not_not.mpr rfl), text_of_short hshort.1 hshort.2, hread]

/-- **The end of a session that was bought of the same firmware.** When the gateway has no session
for the client any more, or nothing remains of it, a tick pays exactly if the session still stands
and had an allotment. -/
theorem renews_at_gateway_iff {parse : CStr → Option Json} {s : Machine}
    (hstate : s.client.state = .paid) (hip : s.client.gwIp ≠ [])
    (session : Option TgSession) (gateway : TollGate.Config) (nowMs : Int64)
    (htotal : ∀ t ∈ session, (Api.countedAllotment t gateway.metric).toNat < 2 ^ 63)
    (hgone : ∀ u ∈ calcUsage session gateway.metric nowMs, u.1 = 0)
    (cfg : Config) (now : Int64) (pay : Attempt) (paidAt : Int64) :
    (payment parse s (.tick cfg now (some ⟨200, Api.apiGetUsage session gateway nowMs⟩) pay
        paidAt)).isSome = true ↔
      ∃ t ∈ session, t.active = true ∧ 0 < (Api.countedAllotment t gateway.metric).toInt64 := by
  have htold := toldUsage_apiGetUsage session gateway nowMs htotal
  by_cases hactive : ∃ t ∈ session, t.active = true
  · obtain ⟨t, rfl, hactive⟩ := hactive
    obtain ⟨remaining, hcalc⟩ := Api.exists_calcUsage hactive gateway.metric nowMs
    rw [hcalc, Option.getD_some] at htold
    rw [isSome_payment_of_gone (hears_tick hstate hip htold cfg now pay paidAt)
      (.inr (hgone _ hcalc))]
    refine ⟨fun hpos => ⟨t, rfl, hactive, hpos⟩, ?_⟩
    rintro ⟨t', ht', -, hpos⟩
    exact Option.some.inj ht' ▸ hpos
  · -- the gateway has dropped the session, and says `-1` twice
    have hnone := calcUsage_eq_none gateway.metric nowMs fun t ht =>
      Bool.eq_false_iff.mpr fun h => hactive ⟨t, ht, h⟩
    rw [hnone, Option.getD_none] at htold
    rw [isSome_payment_of_gone (hears_tick hstate hip htold cfg now pay paidAt) (.inl rfl)]
    exact iff_of_false (by decide) fun ⟨t, ht, h, _⟩ => hactive ⟨t, ht, h⟩

end Upstream

end TollGate
