import TollGate.Core.TopUp

/-!
# Crediting accepted shares

An accepted mining share is worth an allotment. Two places credit it to the
client: `tollgate_core_on_share_accepted`, called by the stratum proxy, and the
handler of `POST /mining/share`. Both look the client's session up and create or
extend it, and both may write the payment-method tag, which selects the rule that
`tollgate_core_session_is_expired` applies.

The value of a share is computed in floating point from statistics that nothing
else here reads; the model takes the resulting numbers (`Share`).

What a session is worth is measured by the rule that decides its expiry
(`entitlement`, `isExpired_iff_entitlement`). `share_credited_iff` says of every
table exactly when each of the two places adds the value of the share to it
(`Credited`). A time session under a time metric is credited by both. The failures
are of a few kinds: milliseconds added to a session that the byte rule decides, a
byte session retagged into a time session without end, the counters of a reused
slot, sums beyond the signed range, and no slot.
-/

namespace TollGate

namespace Core

variable {c : Core} {env : Env} {ip : Ip} {s : TgSession}

/-! ### The rule that decides a session -/

/-- The remaining entitlement, measured by the rule `is_expired` applies. -/
def entitlement (env : Env) (s : TgSession) : ℤ :=
  if byteRuled env s then s.allotmentBytes.toNat - s.bytesConsumed.toNat
  else s.allotmentMs.toInt64.toInt - (env.now - s.startTimeMs).toInt

/-- An active session is expired when its entitlement is used up. -/
theorem isExpired_iff_entitlement (hact : s.active = true) :
    isExpired env s = true ↔ entitlement env s ≤ 0 := by
  unfold entitlement
  cases hrule : byteRuled env s with
  | true =>
    rw [isExpired_of_byteRuled hact hrule, if_pos rfl]
    unfold bytesUsedUp
    rw [decide_eq_true_iff, ge_iff_le, UInt64.le_iff_toNat_le]
    omega
  | false =>
    rw [isExpired_of_timeRuled hact hrule, if_neg Bool.false_ne_true]
    unfold timeUsedUp
    rw [decide_eq_true_iff, ge_iff_le, Int64.le_iff_toInt_le]
    omega

end Core

namespace Mining

open TollGate.Core

variable {c : Core} {env : Env} {ip : Ip} {s : TgSession}

/-! ### The two places -/

/-- What an accepted share brings: the guards of `tollgate_core_on_share_accepted`
and the values the mining statistics give it. -/
structure Share where
  /-- `s_platform` is set. -/
  platform : Bool
  /-- `tollgate_core_mining_get_client_stats` finds the client. -/
  stats : Bool
  /-- `hashprice > 0.0`. -/
  hashprice : Bool
  /-- `tollgate_core_mining_shares_to_allotment_ms`. -/
  allotmentMs : UInt64
  /-- `tollgate_core_mining_shares_to_allotment_bytes`. -/
  allotmentBytes : UInt64

/-- The allotment `tollgate_core_on_share_accepted` computes. -/
def Share.allotment (env : Env) (sh : Share) : UInt64 :=
  if env.metricIsBytes then sh.allotmentBytes else sh.allotmentMs

/-- `if (session) session->payment_method = TG_PAYMENT_MINING`. -/
def markMining (r : Core × Option Slot) : Core :=
  match r.2 with
  | none => r.1
  | some i => r.1.setSession i { r.1.sessions i with paymentMethod := .mining }

/-- `tollgate_core_on_share_accepted`. -/
def onShareAccepted (env : Env) (c : Core) (ip : Ip) (sh : Share) : Core :=
  if !sh.platform then c
  else if !sh.stats then c
  else if !sh.hashprice then c
  else
    let allotment := sh.allotment env
    if allotment = 0 then c
    else match c.findByIp ip with
      | none => markMining (c.buy env ip allotment)
      -- the allotment is added as milliseconds, in either metric
      | some i => c.sessionExtend (some i) allotment

/-- `api_post_mining_share` once the share is accepted. -/
def apiPostMiningShare (env : Env) (c : Core) (ip : Ip) (sh : Share) : Core :=
  match c.findByIp ip with
  | none => markMining (c.sessionCreate env ip sh.allotmentMs)
  | some i =>
    if !(c.sessions i).active || (c.sessions i).paymentMethod ≠ .mining then
      markMining (c.sessionCreate env ip sh.allotmentMs)
    else c.sessionExtend (some i) sh.allotmentMs

/-! ### What a share does to the tables -/

/-- The tag is written into the record of the session that was returned; its address and its flag
stay as they are. -/
theorem markMining_changes (r : Core × Option Slot) : Changes r.1 (markMining r) := by
  unfold markMining
  cases r.2 with
  | none => exact .refl
  | some i => exact .single (.touch i _ rfl rfl)

/-- **A share that the stratum proxy reports is a chain of elementary changes**: nothing, an
extension, or a new session that gets the tag. -/
theorem onShareAccepted_changes (env : Env) (c : Core) (ip : Ip) (sh : Share) :
    Changes c (onShareAccepted env c ip sh) := by
  unfold onShareAccepted
  dsimp only
  split_ifs
  · exact .refl
  · exact .refl
  · exact .refl
  · exact .refl
  · cases c.findByIp ip with
    | none =>
      exact (sell_changes env.metricIsBytes env ip (sh.allotment env)).trans (markMining_changes _)
    | some i => exact sessionExtend_changes (some i) _

/-- A share that is posted is a chain of elementary changes too. It may put the tag on a session
that was there before. -/
theorem apiPostMiningShare_changes (env : Env) (c : Core) (ip : Ip) (sh : Share) :
    Changes c (apiPostMiningShare env c ip sh) := by
  have hcreate : Changes c (markMining (c.sessionCreate env ip sh.allotmentMs)) :=
    (sessionCreate_changes env ip sh.allotmentMs).trans (markMining_changes _)
  unfold apiPostMiningShare
  cases c.findByIp ip with
  | none => exact hcreate
  | some i =>
    dsimp only
    split
    · exact hcreate
    · exact sessionExtend_changes (some i) _

/-! ### When a share is credited -/

/-- The share passes the guards and is worth something. -/
def Share.Counts (env : Env) (sh : Share) : Prop :=
  sh.platform = true ∧ sh.stats = true ∧ sh.hashprice = true ∧ sh.allotment env ≠ 0

/-! ### The record after a share -/

/-- The record with milliseconds added. -/
def addMs (s : TgSession) (a : UInt64) : TgSession := { s with allotmentMs := s.allotmentMs + a }

/-- The record with the mining tag. -/
def tagMining (s : TgSession) : TgSession := { s with paymentMethod := .mining }

theorem markMining_clientSession {r : Core × Option Slot} (h : Returns r ip s) :
    (markMining r).clientSession ip = some (tagMining s) := by
  obtain ⟨i, hi, hs, hret⟩ := h.write (tagMining s) rfl rfl
  unfold markMining
  rw [hi]
  simp only [hs]
  exact hret.clientSession

theorem sessionExtend_clientSession (h : c.clientSession ip = some s) (a : UInt64) :
    (c.sessionExtend (c.findByIp ip) a).clientSession ip = some (addMs s a) := by
  obtain ⟨i, hi, rfl⟩ := exists_slot_of_clientSession h
  rw [hi, sessionExtend_of_active (findByIp_eq_some hi).1]
  exact clientSession_setSession hi rfl rfl

theorem onShareAccepted_of_counts {sh : Share} (h : sh.Counts env) (c : Core) (ip : Ip) :
    onShareAccepted env c ip sh = match c.findByIp ip with
      | none => markMining (c.buy env ip (sh.allotment env))
      | some i => c.sessionExtend (some i) (sh.allotment env) := by
  obtain ⟨hplat, hstats, hprice, hpos⟩ := h
  unfold onShareAccepted
  simp [hplat, hstats, hprice, hpos]

/-- A running session: the core adds milliseconds. -/
theorem onShareAccepted_of_some {sh : Share} (hsh : sh.Counts env)
    (h : c.clientSession ip = some s) :
    (onShareAccepted env c ip sh).clientSession ip = some (addMs s (sh.allotment env)) := by
  obtain ⟨i, hi, -⟩ := exists_slot_of_clientSession h
  rw [onShareAccepted_of_counts hsh, hi]
  simp only
  rw [← hi]
  exact sessionExtend_clientSession h _

/-- A running session: the API adds milliseconds and the mining tag. -/
theorem apiPostMiningShare_of_some (sh : Share) (h : c.clientSession ip = some s) :
    (apiPostMiningShare env c ip sh).clientSession ip =
      some (tagMining (addMs s sh.allotmentMs)) := by
  obtain ⟨i, hi, hs⟩ := exists_slot_of_clientSession h
  unfold apiPostMiningShare
  rw [hi]
  simp only [hs]
  split
  · exact markMining_clientSession (sessionCreate_returns_of_some h env sh.allotmentMs)
  · next hcond =>
    -- the handler extends a session that has the tag already
    have htag : s.paymentMethod = .mining := by
      by_contra hne
      exact hcond (by simp [hne])
    have hkeep : tagMining (addMs s sh.allotmentMs) = addMs s sh.allotmentMs := by
      unfold tagMining addMs
      rw [htag]
    rw [← hi, sessionExtend_clientSession h, hkeep]

/-- A new client: the record the core makes, tag included. -/
theorem onShareAccepted_of_none {sh : Share} {i : Slot} (hsh : sh.Counts env)
    (h : c.clientSession ip = none) (hslot : c.slotForNew env = some i) :
    (onShareAccepted env c ip sh).clientSession ip =
      some (tagMining (recordFor env.metricIsBytes env (c.sessions i) ip (sh.allotment env))) := by
  rw [onShareAccepted_of_counts hsh, clientSession_eq_none_iff.mp h]
  exact markMining_clientSession (sell_returns_of_none h hslot env.metricIsBytes _)

/-- A new client: the API makes a time session in every metric. -/
theorem apiPostMiningShare_of_none {i : Slot} (sh : Share) (h : c.clientSession ip = none)
    (hslot : c.slotForNew env = some i) :
    (apiPostMiningShare env c ip sh).clientSession ip =
      some (tagMining (newSession env (c.sessions i) ip sh.allotmentMs)) := by
  unfold apiPostMiningShare
  rw [clientSession_eq_none_iff.mp h]
  exact markMining_clientSession (sessionCreate_returns_of_none h hslot _)

theorem clientSession_of_refused (sh : Share) (h : c.clientSession ip = none)
    (hslot : c.slotForNew env = none) :
    (sh.Counts env → (onShareAccepted env c ip sh).clientSession ip = none) ∧
      (apiPostMiningShare env c ip sh).clientSession ip = none := by
  refine ⟨?_, ?_⟩
  · intro hsh
    rw [onShareAccepted_of_counts hsh, clientSession_eq_none_iff.mp h]
    simp only [buy, sell_eq_of_refused h hslot]
    exact h
  · unfold apiPostMiningShare
    rw [clientSession_eq_none_iff.mp h]
    simp only [sessionCreate_eq_of_refused h hslot]
    exact h

/-! ### Real credit -/

/-- The share was credited: the client has an active session, worth `a` more than
before (worth `a` if there was none), and a session limited by bytes still is. -/
def Credited (env : Env) (c c' : Core) (ip : Ip) (a : UInt64) : Prop :=
  ∃ s', c'.clientSession ip = some s' ∧
    match c.clientSession ip with
    | none => entitlement env s' = a.toNat
    | some s => entitlement env s' = entitlement env s + a.toNat ∧
        (byteRuled env s = true → byteRuled env s' = true)

/-- A credited share never makes an unexpired session expired. -/
theorem Credited.unexpired {c' : Core} {a : UInt64} (h : Credited env c c' ip a)
    (hs : c.clientSession ip = some s) (hlive : isExpired env s = false) :
    ∃ s', c'.clientSession ip = some s' ∧ isExpired env s' = false := by
  obtain ⟨s', hs', hworth⟩ := h
  rw [hs] at hworth
  refine ⟨s', hs', ?_⟩
  -- what was left is positive, and the share adds to it
  have hpos : ¬ entitlement env s ≤ 0 := by
    rw [← isExpired_iff_entitlement (active_of_clientSession hs).1, hlive]
    exact Bool.false_ne_true
  rw [← Bool.not_eq_true, isExpired_iff_entitlement (active_of_clientSession hs').1]
  have hsum := hworth.1
  omega

theorem credited_iff_of_some {c' : Core} {a : UInt64} {s' : TgSession}
    (h : c.clientSession ip = some s) (h' : c'.clientSession ip = some s') :
    Credited env c c' ip a ↔ entitlement env s' = entitlement env s + a.toNat ∧
      (byteRuled env s = true → byteRuled env s' = true) := by
  unfold Credited
  rw [h, h']
  simp

theorem credited_iff_of_none {c' : Core} {a : UInt64} {s' : TgSession}
    (h : c.clientSession ip = none) (h' : c'.clientSession ip = some s') :
    Credited env c c' ip a ↔ entitlement env s' = a.toNat := by
  unfold Credited
  rw [h, h']
  simp

theorem not_credited_of_none {c' : Core} {a : UInt64} (h' : c'.clientSession ip = none) :
    ¬ Credited env c c' ip a := by
  rintro ⟨s', hs', -⟩
  rw [h'] at hs'
  exact absurd hs' (Option.some_ne_none s').symm

/-- When `tollgate_core_on_share_accepted` credits a share worth `a`. A running
session must be decided by the time rule and the sum stay in the signed range; a
new client must find a slot. -/
def CoreCredits (env : Env) (c : Core) (ip : Ip) (a : UInt64) : Prop :=
  match c.clientSession ip with
  | some s => byteRuled env s = false ∧ s.allotmentMs.toInt64.toInt + a.toNat < 2 ^ 63
  | none => c.slotForNew env ≠ none ∧ (env.metricIsBytes = true ∨ a.toNat < 2 ^ 63)

/-- When `api_post_mining_share` credits a share worth `a` milliseconds. Under the
byte metric a running session is credited only with nothing, and a new client gets
what the byte counters of its slot happen to hold. -/
def ApiCredits (env : Env) (c : Core) (ip : Ip) (a : UInt64) : Prop :=
  match c.clientSession ip with
  | some s => (env.metricIsBytes = true ∧ a = 0) ∨
      (byteRuled env s = false ∧ s.allotmentMs.toInt64.toInt + a.toNat < 2 ^ 63)
  | none => ∃ i, c.slotForNew env = some i ∧
      if env.metricIsBytes then
        ((c.sessions i).allotmentBytes.toNat : ℤ) - (c.sessions i).bytesConsumed.toNat = a.toNat
      else a.toNat < 2 ^ 63

/-! ### What a record is worth after a share -/

theorem byteRuled_of_metric (h : env.metricIsBytes = true) (s : TgSession) :
    byteRuled env s = true := by
  unfold byteRuled
  rw [h, Bool.or_true]

@[simp] theorem byteRuled_addMs (env : Env) (s : TgSession) (a : UInt64) :
    byteRuled env (addMs s a) = byteRuled env s := rfl

@[simp] theorem byteRuled_tagMining (env : Env) (s : TgSession) :
    byteRuled env (tagMining s) = env.metricIsBytes := rfl

theorem entitlement_addMs {s' : TgSession} {a : UInt64} (hrule : byteRuled env s = false)
    (hrule' : byteRuled env s' = false) (hms : s'.allotmentMs = s.allotmentMs + a)
    (hstart : s'.startTimeMs = s.startTimeMs) :
    entitlement env s' = entitlement env s + a.toNat ↔
      s.allotmentMs.toInt64.toInt + a.toNat < 2 ^ 63 := by
  unfold entitlement
  rw [hrule, hrule', if_neg Bool.false_ne_true, if_neg Bool.false_ne_true, hms, hstart,
    ← UInt64.toInt_toInt64_add]
  omega

theorem entitlement_of_sameCounters {s' : TgSession} (hrule : byteRuled env s = true)
    (hrule' : byteRuled env s' = true) (hallot : s'.allotmentBytes = s.allotmentBytes)
    (hcons : s'.bytesConsumed = s.bytesConsumed) : entitlement env s' = entitlement env s := by
  unfold entitlement
  rw [hrule, hrule', if_pos rfl, if_pos rfl, hallot, hcons]

theorem entitlement_newMs {a : UInt64} (hrule : byteRuled env s = false)
    (hms : s.allotmentMs = a) (hstart : s.startTimeMs = env.now) :
    entitlement env s = a.toNat ↔ a.toNat < 2 ^ 63 := by
  unfold entitlement
  rw [hrule, if_neg Bool.false_ne_true, hms, hstart, Int64.sub_self,
    ← UInt64.toInt_toInt64_eq_iff]
  simp

theorem entitlement_of_counters {a n : UInt64} (hrule : byteRuled env s = true)
    (hallot : s.allotmentBytes = a) (hcons : s.bytesConsumed = n) :
    entitlement env s = a.toNat - n.toNat := by
  unfold entitlement
  rw [hrule, if_pos rfl, hallot, hcons]

theorem coreCredits_of_some (h : c.clientSession ip = some s) (a : UInt64) :
    CoreCredits env c ip a ↔
      byteRuled env s = false ∧ s.allotmentMs.toInt64.toInt + a.toNat < 2 ^ 63 := by
  unfold CoreCredits
  rw [h]

theorem coreCredits_of_none (h : c.clientSession ip = none) (a : UInt64) :
    CoreCredits env c ip a ↔
      c.slotForNew env ≠ none ∧ (env.metricIsBytes = true ∨ a.toNat < 2 ^ 63) := by
  unfold CoreCredits
  rw [h]

theorem onShareAccepted_credited_iff {sh : Share} (hsh : sh.Counts env) (c : Core) (ip : Ip) :
    Credited env c (onShareAccepted env c ip sh) ip (sh.allotment env) ↔
      CoreCredits env c ip (sh.allotment env) := by
  cases hs : c.clientSession ip with
  | some s =>
    rw [credited_iff_of_some hs (onShareAccepted_of_some hsh hs), coreCredits_of_some hs,
      byteRuled_addMs]
    -- the tag stays, so the same rule decides before and after
    cases hbr : byteRuled env s with
    | false =>
      have hworth : entitlement env (addMs s (sh.allotment env)) =
          entitlement env s + (sh.allotment env).toNat ↔
            s.allotmentMs.toInt64.toInt + (sh.allotment env).toNat < 2 ^ 63 :=
        entitlement_addMs hbr hbr rfl rfl
      rw [hworth]
      simp
    | true =>
      -- milliseconds are added to a session that reads bytes: it gains nothing
      have hpos : (sh.allotment env).toNat ≠ 0 :=
        fun h0 => hsh.2.2.2 (UInt64.toNat_inj.mp h0)
      have hworth : entitlement env (addMs s (sh.allotment env)) = entitlement env s :=
        entitlement_of_sameCounters hbr hbr rfl rfl
      rw [hworth]
      simp [hpos]
  | none =>
    rw [coreCredits_of_none hs]
    cases hslot : c.slotForNew env with
    | none =>
      have hno := (clientSession_of_refused sh hs hslot).1 hsh
      simp [not_credited_of_none hno]
    | some i =>
      rw [credited_iff_of_none hs (onShareAccepted_of_none hsh hs hslot)]
      cases hm : env.metricIsBytes with
      | true =>
        -- the byte counters are written anew and the byte metric reads them
        have hworth : entitlement env (tagMining (recordFor true env (c.sessions i) ip
            (sh.allotment env))) = (sh.allotment env).toNat - (0 : UInt64).toNat :=
          entitlement_of_counters hm rfl rfl
        rw [hworth]
        simp
      | false =>
        have hworth : entitlement env (tagMining (recordFor false env (c.sessions i) ip
            (sh.allotment env))) = (sh.allotment env).toNat ↔ (sh.allotment env).toNat < 2 ^ 63 :=
          entitlement_newMs hm rfl rfl
        rw [hworth]
        simp

theorem apiCredits_of_some (h : c.clientSession ip = some s) (a : UInt64) :
    ApiCredits env c ip a ↔ (env.metricIsBytes = true ∧ a = 0) ∨
      (byteRuled env s = false ∧ s.allotmentMs.toInt64.toInt + a.toNat < 2 ^ 63) := by
  unfold ApiCredits
  rw [h]

theorem apiCredits_of_none (h : c.clientSession ip = none) (a : UInt64) :
    ApiCredits env c ip a ↔ ∃ i, c.slotForNew env = some i ∧
      if env.metricIsBytes then
        ((c.sessions i).allotmentBytes.toNat : ℤ) - (c.sessions i).bytesConsumed.toNat = a.toNat
      else a.toNat < 2 ^ 63 := by
  unfold ApiCredits
  rw [h]

theorem apiPostMiningShare_credited_iff (env : Env) (c : Core) (ip : Ip) (sh : Share) :
    Credited env c (apiPostMiningShare env c ip sh) ip sh.allotmentMs ↔
      ApiCredits env c ip sh.allotmentMs := by
  cases hs : c.clientSession ip with
  | some s =>
    -- the session gets the mining tag, so the metric alone selects its rule
    rw [credited_iff_of_some hs (apiPostMiningShare_of_some sh hs), apiCredits_of_some hs,
      byteRuled_tagMining]
    cases hm : env.metricIsBytes with
    | true =>
      have hbr := byteRuled_of_metric hm s
      have hzero : sh.allotmentMs = 0 ↔ sh.allotmentMs.toNat = 0 := UInt64.toNat_inj.symm
      have hworth : entitlement env (tagMining (addMs s sh.allotmentMs)) = entitlement env s :=
        entitlement_of_sameCounters hbr hm rfl rfl
      rw [hworth, hbr, hzero]
      simp
    | false =>
      cases hbr : byteRuled env s with
      | true =>
        -- a byte session would lose its limit
        simp
      | false =>
        have hworth : entitlement env (tagMining (addMs s sh.allotmentMs)) =
            entitlement env s + sh.allotmentMs.toNat ↔
              s.allotmentMs.toInt64.toInt + sh.allotmentMs.toNat < 2 ^ 63 :=
          entitlement_addMs hbr hm rfl rfl
        rw [hworth]
        simp
  | none =>
    rw [apiCredits_of_none hs]
    cases hslot : c.slotForNew env with
    | none =>
      have hno := (clientSession_of_refused sh hs hslot).2
      simp [not_credited_of_none hno]
    | some i =>
      rw [credited_iff_of_none hs (apiPostMiningShare_of_none sh hs hslot)]
      simp only [Option.some.injEq, exists_eq_left']
      cases hm : env.metricIsBytes with
      | true =>
        -- what the slot held before decides
        have hworth : entitlement env (tagMining (newSession env (c.sessions i) ip
            sh.allotmentMs)) =
              (c.sessions i).allotmentBytes.toNat - (c.sessions i).bytesConsumed.toNat :=
          entitlement_of_counters hm rfl rfl
        rw [if_pos rfl, hworth]
      | false =>
        rw [if_neg Bool.false_ne_true]
        exact entitlement_newMs hm rfl rfl

/-- **When a mining share is real credit.** Of any table, under any metric and at
any clock reading: a share that counts is credited by
`tollgate_core_on_share_accepted` exactly under `CoreCredits`, and by
`api_post_mining_share` exactly under `ApiCredits`. -/
theorem share_credited_iff (env : Env) (c : Core) (ip : Ip) (sh : Share) :
    (sh.Counts env →
      (Credited env c (onShareAccepted env c ip sh) ip (sh.allotment env) ↔
        CoreCredits env c ip (sh.allotment env))) ∧
    (Credited env c (apiPostMiningShare env c ip sh) ip sh.allotmentMs ↔
      ApiCredits env c ip sh.allotmentMs) :=
  ⟨fun hsh => onShareAccepted_credited_iff hsh c ip, apiPostMiningShare_credited_iff env c ip sh⟩

/-- A share worth 500 milliseconds, or 500 bytes. -/
def smallShare : Share := ⟨true, true, true, 500, 500⟩

/-- A client with a minute is credited by both places under a time metric. -/
theorem smallShare_credited :
    smallShare.Counts (envAt 0 "milliseconds") ∧
      Credited (envAt 0 "milliseconds") minuteTable
        (onShareAccepted (envAt 0 "milliseconds") minuteTable 2 smallShare) 2 500 ∧
      Credited (envAt 0 "milliseconds") minuteTable
        (apiPostMiningShare (envAt 0 "milliseconds") minuteTable 2 smallShare) 2 500 := by
  have hsh : smallShare.Counts (envAt 0 "milliseconds") := by
    unfold Share.Counts
    decide
  have hs : minuteTable.clientSession 2 = some minuteSession := by decide
  have hcore : byteRuled (envAt 0 "milliseconds") minuteSession = false ∧
      minuteSession.allotmentMs.toInt64.toInt + (500 : UInt64).toNat < 2 ^ 63 := by decide
  obtain ⟨honShare, hapi⟩ := share_credited_iff (envAt 0 "milliseconds") minuteTable 2 smallShare
  refine ⟨hsh, (honShare hsh).mpr ?_, hapi.mpr ?_⟩
  · exact (coreCredits_of_some hs 500).mpr hcore
  · exact (apiCredits_of_some hs 500).mpr (Or.inr hcore)

/-- A client with 600 bytes left is credited 500 bytes by neither place: under the
byte metric the core adds them to its milliseconds, and under a time metric the API
turns its session into one without a limit. -/
theorem smallShare_not_credited :
    smallShare.Counts (envAt 0 "bytes") ∧
      ¬ Credited (envAt 0 "bytes") usedBytesTable
        (onShareAccepted (envAt 0 "bytes") usedBytesTable 2 smallShare) 2 500 ∧
      ¬ Credited (envAt 0 "milliseconds") usedBytesTable
        (apiPostMiningShare (envAt 0 "milliseconds") usedBytesTable 2 smallShare) 2 500 := by
  have hs : usedBytesTable.clientSession 2 = some usedBytesSession := by decide
  have hsh : smallShare.Counts (envAt 0 "bytes") := by
    unfold Share.Counts
    decide
  refine ⟨hsh, ?_, ?_⟩
  · rw [credited_iff_of_some hs (onShareAccepted_of_some hsh hs)]
    decide
  · rw [credited_iff_of_some hs (apiPostMiningShare_of_some smallShare hs)]
    decide

end Mining

end TollGate
