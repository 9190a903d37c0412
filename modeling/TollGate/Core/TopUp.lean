import TollGate.Core.Client

/-!
# Paying again

A client whose session is still running may pay again. The time purchase adds to
the record (`tollgate_core_session_extend`); the byte purchase is layered on the
time purchase of nothing and then writes `allotment_bytes` and `bytes_consumed`
anew. What the client has left in the configured metric is `remaining`; time is read
as the code reads it, as a signed number.

What was left survives a purchase, and the session goes on by it (`RunsOn`), only under
a time metric, and not in every session then (`Core.topUp_conserves_iff`). A session
bought in bytes keeps its tag, by which it expires with its bytes whatever time is
bought for it, and stores `INT64_MAX` milliseconds, so that any time added to them is
read as a negative number (`Core.remaining_timeOnBytes`).
-/

namespace TollGate

namespace Core

variable {c : Core} {env : Env} {ip : Ip} {s : TgSession}

/-- The purchase `tollgate_core_process_payment` makes of an allotment: the
configured metric selects `session_create_bytes` or `session_create`. -/
def buy (env : Env) (c : Core) (ip : Ip) (allotment : UInt64) : Core × Option Slot :=
  c.sell env.metricIsBytes env ip allotment

/-- The allotment of a record in the configured metric. Bytes are compared as stored; the time
allotment is cast to `int64_t` by `tollgate_core_session_is_expired`, by
`tollgate_core_portal_calc_usage` and by `api_get_usage`. -/
def allotmentIn (env : Env) (s : TgSession) : ℤ :=
  if env.metricIsBytes then s.allotmentBytes.toNat else s.allotmentMs.toInt64.toInt

/-- What of it is used: the bytes consumed or the milliseconds elapsed. -/
def usedIn (env : Env) (s : TgSession) : ℤ :=
  if env.metricIsBytes then s.bytesConsumed.toNat else (env.now - s.startTimeMs).toInt

/-- The remaining entitlement in the configured metric. -/
def remaining (env : Env) (s : TgSession) : ℤ := allotmentIn env s - usedIn env s

/-- The session runs on what it has left in the configured metric: it is expired, at any reading
of the clock, exactly when nothing of it remains. -/
def RunsOn (env : Env) (s : TgSession) : Prop :=
  ∀ now, isExpired { env with now := now } s = true ↔ remaining { env with now := now } s ≤ 0

/-! ### What is left, before and after -/

/-- Under the byte metric an unexpired session has bytes left, with either tag. -/
theorem remaining_pos_of_bytes (hm : env.metricIsBytes = true) (hact : s.active = true)
    (h : isExpired env s = false) : 0 < remaining env s := by
  have hrule : byteRuled env s = true := by
    unfold byteRuled
    rw [hm, Bool.or_true]
  rw [isExpired_of_byteRuled hact hrule] at h
  unfold bytesUsedUp at h
  rw [decide_eq_false_iff_not, ge_iff_le, UInt64.le_iff_toNat_le] at h
  unfold remaining allotmentIn usedIn
  rw [if_pos hm, if_pos hm]
  omega

theorem remaining_of_time (hm : env.metricIsBytes = false) :
    remaining env s = s.allotmentMs.toInt64.toInt - (env.now - s.startTimeMs).toInt := by
  unfold remaining allotmentIn usedIn
  rw [hm]
  rfl

/-- Time that is added counts in full as long as the sum is read as it is stored. -/
theorem remaining_extend_iff (hm : env.metricIsBytes = false) (a : UInt64) :
    remaining env { s with allotmentMs := s.allotmentMs + a } = remaining env s + a.toNat ↔
      s.allotmentMs.toInt64.toInt + a.toNat < 2 ^ 63 := by
  rw [remaining_of_time hm, remaining_of_time hm, ← UInt64.toInt_toInt64_add]
  exact ⟨fun h => by linarith, fun h => by linarith⟩

/-- **Time added to a byte session is read as a debt.** Behind the `INT64_MAX` milliseconds that
a byte purchase stores, the sum wraps to the other end of the signed numbers. -/
theorem remaining_timeOnBytes (hm : env.metricIsBytes = false) (hmax : s.allotmentMs = int64Max)
    {a : UInt64} (hpos : 0 < a.toNat) (hle : a.toNat ≤ 2 ^ 63) :
    remaining env { s with allotmentMs := s.allotmentMs + a } =
      remaining env s + a.toNat - 2 ^ 64 := by
  have hstored : int64Max.toNat = 2 ^ 63 - 1 := rfl
  have hsum : (int64Max + a).toNat = 2 ^ 63 - 1 + a.toNat := by
    rw [UInt64.toNat_add, hstored]
    omega
  rw [remaining_of_time hm, remaining_of_time hm]
  dsimp only
  rw [hmax, UInt64.toInt_toInt64, UInt64.toInt_toInt64, hsum, hstored, if_neg (by omega),
    if_pos (by omega)]
  push_cast
  ring

theorem remaining_toBytesSession (hm : env.metricIsBytes = true) (a : UInt64) :
    remaining env (toBytesSession s a) = a.toNat := by
  unfold remaining allotmentIn usedIn
  rw [if_pos hm, if_pos hm]
  simp [toBytesSession]

/-! ### What the session runs on -/

/-- A session without the tag of a byte purchase runs on its time under a time metric. -/
theorem runsOn_of_untagged (hm : env.metricIsBytes = false) (hact : s.active = true)
    (htag : s.paymentMethod ≠ .bytes) : RunsOn env s := by
  intro now
  have hm' : Env.metricIsBytes { env with now := now } = false := hm
  have hrule : byteRuled { env with now := now } s = false := by
    unfold byteRuled
    rw [hm', decide_eq_false htag]
    rfl
  rw [isExpired_of_timeRuled hact hrule, remaining_of_time hm']
  unfold timeUsedUp
  rw [decide_eq_true_eq, ge_iff_le, Int64.le_iff_toInt_le]
  exact sub_nonpos.symm

/-- With the tag it does not: it still has bytes, and goes on when its time is over. -/
theorem not_runsOn_of_tagged (hm : env.metricIsBytes = false) (hact : s.active = true)
    (htag : s.paymentMethod = .bytes) (hused : bytesUsedUp s = false) : ¬ RunsOn env s := by
  intro hruns
  -- a reading of the clock by which any allotment is over
  set now : Int64 := Int64.maxValue + s.startTimeMs
  have hm' : Env.metricIsBytes { env with now := now } = false := hm
  have hrule : byteRuled { env with now := now } s = true := by
    unfold byteRuled
    rw [decide_eq_true htag]
    rfl
  have hover : remaining { env with now := now } s ≤ 0 := by
    have helapsed : now - s.startTimeMs = Int64.maxValue := Int64.add_sub_cancel _ _
    rw [remaining_of_time hm', helapsed]
    exact sub_nonpos.mpr (Int64.toInt_le _)
  have hexpired := (hruns now).mpr hover
  rw [isExpired_of_byteRuled hact hrule, hused] at hexpired
  exact Bool.false_ne_true hexpired

/-- **When a top-up keeps what was paid for.** Of any table, for a client whose session
is active and unexpired at the clock reading of the purchase, and for any allotment:
the purchase returns the client's session with the allotment added to what it had left
in the configured metric, and the session runs on that, if and only if the metric is
not `"bytes"`, the session was not bought in bytes, and its time with the new one is
less than 2^63 ms. -/
theorem topUp_conserves_iff (c : Core) (env : Env) (ip : Ip) (a : UInt64) (s : TgSession)
    (hs : c.clientSession ip = some s) (hlive : isExpired env s = false) :
    (∃ s', Returns (c.buy env ip a) ip s' ∧ remaining env s' = remaining env s + a.toNat ∧
        RunsOn env s') ↔
      env.metricIsBytes = false ∧ s.paymentMethod ≠ .bytes ∧
        s.allotmentMs.toInt64.toInt + a.toNat < 2 ^ 63 := by
  have hact : s.active = true := (active_of_clientSession hs).1
  have hret : Returns (c.buy env ip a) ip _ := sell_returns_of_some hs env.metricIsBytes env a
  cases hm : env.metricIsBytes with
  | true =>
    rw [if_pos hm] at hret
    refine iff_of_false ?_ (fun h => Bool.false_ne_true h.1.symm)
    rintro ⟨s', hs', heq, -⟩
    have hrec : s' = toBytesSession s a :=
      Option.some.inj (hs'.clientSession.symm.trans hret.clientSession)
    -- what was left before the purchase is positive, and gone
    have hpos := remaining_pos_of_bytes hm hact hlive
    rw [hrec, remaining_toBytesSession hm] at heq
    omega
  | false =>
    -- under a time metric the record is extended
    rw [if_neg (by rw [hm]; exact Bool.false_ne_true)] at hret
    refine ⟨?_, ?_⟩
    · rintro ⟨s', hs', heq, hruns⟩
      have hrec : s' = { s with allotmentMs := s.allotmentMs + a } :=
        Option.some.inj (hs'.clientSession.symm.trans hret.clientSession)
      rw [hrec] at heq hruns
      refine ⟨rfl, fun htag => ?_, (remaining_extend_iff hm a).mp heq⟩
      -- the tag stays, and by it the session was unexpired
      have hrule : byteRuled env s = true := by
        unfold byteRuled
        rw [decide_eq_true htag]
        rfl
      rw [isExpired_of_byteRuled hact hrule] at hlive
      exact not_runsOn_of_tagged (s := { s with allotmentMs := s.allotmentMs + a }) hm hact htag
        hlive hruns
    · rintro ⟨-, htag, hfit⟩
      exact ⟨_, hret, (remaining_extend_iff hm a).mpr hfit, runsOn_of_untagged hm hact htag⟩

/-- A client bought a minute at time 0. -/
def minuteTable : Core := reach [.create (envAt 0 "milliseconds") 2 60000]

/-- The record of that client. -/
def minuteSession : TgSession := ⟨2, [], 60000, 0, 0, 0, .cashu, true⟩

/-- Half a minute bought 20 s later makes 70 s, and the session runs on them. -/
theorem topUp_minute_conserved :
    minuteTable.clientSession 2 = some minuteSession ∧
      isExpired (envAt 20000 "milliseconds") minuteSession = false ∧
      ∃ s', Returns (minuteTable.buy (envAt 20000 "milliseconds") 2 30000) 2 s' ∧
        remaining (envAt 20000 "milliseconds") s' = 70000 ∧
        RunsOn (envAt 20000 "milliseconds") s' := by
  have hs : minuteTable.clientSession 2 = some minuteSession := by decide
  have hlive : isExpired (envAt 20000 "milliseconds") minuteSession = false := by decide
  have hleft : remaining (envAt 20000 "milliseconds") minuteSession = 40000 := by decide
  obtain ⟨s', hret, heq, hruns⟩ := (topUp_conserves_iff minuteTable (envAt 20000 "milliseconds") 2
    30000 minuteSession hs hlive).mpr (by decide)
  rw [hleft] at heq
  exact ⟨hs, hlive, s', hret, heq, hruns⟩

/-- A client bought 1000 bytes and used 400 of them. -/
def usedBytesTable : Core :=
  reach [.createBytes (envAt 0 "bytes") 2 1000, .addBytes 2 400]

/-- The record of that client. -/
def usedBytesSession : TgSession := ⟨2, [], int64Max, 0, 1000, 400, .bytes, true⟩

/-- With 600 bytes left, buying 1000 bytes leaves 1000, not 1600. -/
theorem topUp_bytes_forfeits :
    usedBytesTable.clientSession 2 = some usedBytesSession ∧
      isExpired (envAt 0 "bytes") usedBytesSession = false ∧
      remaining (envAt 0 "bytes") usedBytesSession = 600 ∧
      ∃ s', Returns (usedBytesTable.buy (envAt 0 "bytes") 2 1000) 2 s' ∧
        remaining (envAt 0 "bytes") s' = 1000 ∧
        remaining (envAt 0 "bytes") s' ≠ remaining (envAt 0 "bytes") usedBytesSession + 1000 := by
  have hs : usedBytesTable.clientSession 2 = some usedBytesSession := by decide
  have hleft : remaining (envAt 0 "bytes") usedBytesSession = 600 := by decide
  refine ⟨hs, by decide, hleft, _, sell_returns_of_some hs true (envAt 0 "bytes") 1000,
    ?_, ?_⟩
  · decide
  · rw [hleft]
    decide

-- under a time metric the same client buys a minute, and by the clock nothing is left
example :
    remaining (envAt 0 "milliseconds") { usedBytesSession with allotmentMs := int64Max + 60000 } =
      remaining (envAt 0 "milliseconds") usedBytesSession + 60000 - 2 ^ 64 :=
  remaining_timeOnBytes rfl rfl (by decide) (by decide)

end Core

end TollGate
