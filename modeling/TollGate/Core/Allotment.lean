import TollGate.Core.Payment
import TollGate.Core.TopUp

/-!
# What an amount buys

A token of some amount buys as many steps as the price goes into it
(`tollgate_core_cashu_calculate_allotment`). The product is formed in 64 bits, stored
as an unsigned number and compared as a signed one when the session's time is
looked at. Whoever pays more therefore gets at least as much as long as the product
fits, and under a time metric as long as it fits a signed number
(`pays_more_iff`): a larger one makes a session that is expired when it begins.
-/

namespace TollGate

namespace Core

open Cashu

variable {c : Core} {env : Env} {ip : Ip} {i : Slot} {price step : UInt64} {t₁ t₂ : Token}

/-- The exact number of milliseconds or bytes that a token pays for. -/
def worth (price step : UInt64) (t : Token) : ℕ :=
  t.totalAmount.toNat / price.toNat * step.toNat

/-- The allotment of a token. -/
def allotmentOf (price step : UInt64) (t : Token) : UInt64 :=
  calculateAllotment t.totalAmount price step

/-- The larger of two tokens buys the exact value of each, at least as much, and a
session that is unexpired at every clock reading at which the one for the smaller token
is. A token that buys nothing makes no session. -/
structure PaysMore (env : Env) (c : Core) (ip : Ip) (price step : UInt64) (t₁ t₂ : Token) :
    Prop where
  exact_fst : (allotmentOf price step t₁).toNat = worth price step t₁
  exact_snd : (allotmentOf price step t₂).toNat = worth price step t₂
  le : allotmentOf price step t₁ ≤ allotmentOf price step t₂
  lasts : allotmentOf price step t₁ ≠ 0 → ∀ s₁ s₂ env',
    Returns (c.buy env ip (allotmentOf price step t₁)) ip s₁ →
    Returns (c.buy env ip (allotmentOf price step t₂)) ip s₂ →
    env'.metric = env.metric → isExpired env' s₁ = false → isExpired env' s₂ = false

theorem toNat_allotmentOf (hprice : price ≠ 0) (t : Token) :
    (allotmentOf price step t).toNat = worth price step t % 2 ^ 64 := by
  unfold allotmentOf calculateAllotment worth
  rw [if_neg hprice, UInt64.toNat_mul, UInt64.toNat_div]

theorem allotmentOf_exact_iff (hprice : price ≠ 0) (t : Token) :
    (allotmentOf price step t).toNat = worth price step t ↔ worth price step t < 2 ^ 64 := by
  rw [toNat_allotmentOf hprice]
  omega

theorem worth_le_worth (h : t₁.totalAmount ≤ t₂.totalAmount) :
    worth price step t₁ ≤ worth price step t₂ :=
  Nat.mul_le_mul_right _ (Nat.div_le_div_right (UInt64.le_iff_toNat_le.mp h))

/-- A bought session is looked at by the rule of the metric it was bought under. -/
theorem isExpired_recordFor {env' : Env} (hmetric : env'.metric = env.metric) (old : TgSession)
    (ip : Ip) (a : UInt64) :
    isExpired env' (recordFor env.metricIsBytes env old ip a) =
      if env.metricIsBytes then decide (a = 0) else decide (env'.now - env.now ≥ a.toInt64) := by
  have hsame : env'.metricIsBytes = env.metricIsBytes := by
    unfold Env.metricIsBytes
    rw [hmetric]
  cases hbytes : env.metricIsBytes with
  | true =>
    have hrule : byteRuled env' (recordFor true env old ip a) = true := by
      unfold byteRuled
      rw [hsame, hbytes, Bool.or_true]
    rw [isExpired_of_byteRuled rfl hrule, if_pos rfl]
    have hzero : a ≤ 0 ↔ a = 0 := by
      rw [UInt64.le_iff_toNat_le, ← UInt64.toNat_inj, UInt64.toNat_zero, Nat.le_zero]
    exact decide_eq_decide.mpr hzero
  | false =>
    have hrule : byteRuled env' (recordFor false env old ip a) = false := by
      unfold byteRuled
      rw [hsame, hbytes]
      rfl
    rw [isExpired_of_timeRuled rfl hrule, if_neg Bool.false_ne_true]
    rfl

/-- The sessions of a new client. -/
theorem returns_buy_iff (hnew : c.clientSession ip = none) (hslot : c.slotForNew env = some i)
    (a : UInt64) {s : TgSession} :
    Returns (c.buy env ip a) ip s ↔ s = recordFor env.metricIsBytes env (c.sessions i) ip a := by
  have hret := sell_returns_of_none hnew hslot env.metricIsBytes a
  refine ⟨?_, ?_⟩
  · intro h
    exact Option.some.inj (h.clientSession.symm.trans hret.clientSession)
  · rintro rfl
    exact hret

/-- An allotment beyond the signed range makes a session that is expired at once. -/
theorem not_lasts (hnew : c.clientSession ip = none) (hslot : c.slotForNew env = some i)
    (hbytes : env.metricIsBytes = false) (hpos : 0 < worth price step t₁)
    (hfst : worth price step t₁ < 2 ^ 63) (hsnd : 2 ^ 63 ≤ worth price step t₂)
    (hfit : worth price step t₂ < 2 ^ 64) : ¬ PaysMore env c ip price step t₁ t₂ := by
  intro h
  have hone := h.exact_fst
  have htwo := h.exact_snd
  have hne : allotmentOf price step t₁ ≠ 0 := by
    intro hzero
    rw [hzero, UInt64.toNat_zero] at hone
    omega
  have hunexpired := h.lasts hne _ _ env ((returns_buy_iff hnew hslot _).mpr rfl)
    ((returns_buy_iff hnew hslot _).mpr rfl) rfl
  rw [isExpired_recordFor rfl, isExpired_recordFor rfl, hbytes, if_neg Bool.false_ne_true,
    if_neg Bool.false_ne_true, Int64.sub_self, decide_eq_false_iff_not, decide_eq_false_iff_not,
    ge_iff_le, ge_iff_le, Int64.le_iff_toInt_le, Int64.le_iff_toInt_le, UInt64.toInt_toInt64,
    UInt64.toInt_toInt64, hone, htwo, if_pos hfst, if_neg (by omega)] at hunexpired
  have hzero : (0 : Int64).toInt = 0 := rfl
  omega

/-- **Exactly when paying more never buys less.** For every price, step, table and clock
reading, and any two tokens of which the second is worth at least as much: the value of
the second fits 64 bits, and under a time metric it fits 63 unless that of the first
does not either, or the first buys nothing. -/
theorem pays_more_iff (hprice : price ≠ 0) (hle : t₁.totalAmount ≤ t₂.totalAmount)
    (hnew : c.clientSession ip = none) (hslot : c.slotForNew env = some i) :
    PaysMore env c ip price step t₁ t₂ ↔
      worth price step t₂ < 2 ^ 64 ∧ (env.metricIsBytes = true ∨ worth price step t₂ < 2 ^ 63 ∨
        2 ^ 63 ≤ worth price step t₁ ∨ worth price step t₁ = 0) := by
  have hworth : worth price step t₁ ≤ worth price step t₂ := worth_le_worth hle
  refine ⟨?_, ?_⟩
  · intro h
    have hfit := (allotmentOf_exact_iff hprice t₂).mp h.exact_snd
    refine ⟨hfit, ?_⟩
    by_contra hcond
    push Not at hcond
    obtain ⟨hbytes, hsnd, hfst, hpos⟩ := hcond
    exact not_lasts hnew hslot (by simpa using hbytes) (by omega) hfst hsnd hfit h
  · rintro ⟨hfit, hcond⟩
    have hone : (allotmentOf price step t₁).toNat = worth price step t₁ :=
      (allotmentOf_exact_iff hprice t₁).mpr (by omega)
    have htwo : (allotmentOf price step t₂).toNat = worth price step t₂ :=
      (allotmentOf_exact_iff hprice t₂).mpr hfit
    refine ⟨hone, htwo, ?_, ?_⟩
    · rw [UInt64.le_iff_toNat_le, hone, htwo]
      exact hworth
    · intro hne s₁ s₂ env' hs₁ hs₂ hmetric hlive
      rw [(returns_buy_iff hnew hslot _).mp hs₁, isExpired_recordFor hmetric] at hlive
      rw [(returns_buy_iff hnew hslot _).mp hs₂, isExpired_recordFor hmetric]
      have hpos : worth price step t₁ ≠ 0 := by
        intro hzero
        rw [hzero] at hone
        exact hne (UInt64.toNat_inj.mp hone)
      cases hbytes : env.metricIsBytes with
      | true =>
        -- a byte session that has not been used is expired when it is of no bytes
        rw [if_pos rfl, decide_eq_false_iff_not, ← UInt64.toNat_inj, htwo, UInt64.toNat_zero]
        omega
      | false =>
        rw [hbytes, if_neg Bool.false_ne_true, decide_eq_false_iff_not, ge_iff_le,
          Int64.le_iff_toInt_le, UInt64.toInt_toInt64, hone] at hlive
        rw [if_neg Bool.false_ne_true, decide_eq_false_iff_not, ge_iff_le, Int64.le_iff_toInt_le,
          UInt64.toInt_toInt64, htwo]
        rcases hcond with hcond | hcond | hcond | hcond
        · rw [hbytes] at hcond
          exact absurd hcond Bool.false_ne_true
        · rw [if_pos (by omega)] at hlive
          rw [if_pos hcond]
          omega
        · rw [if_neg (by omega)] at hlive
          rw [if_neg (by omega)]
          omega
        · exact absurd hcond hpos

/-- A token with one proof of the amount. -/
def oneProofToken (amount : UInt64) : Token :=
  ⟨[⟨amount, [], cstr "s", []⟩], cstr "https://mint", List.cons_ne_nil _ _, by simp⟩

/-- A minute costs 21 sats, and two cost 42. -/
theorem two_minutes_pay_more :
    PaysMore (envAt 0 "milliseconds") boot 2 21 60000 (oneProofToken 21) (oneProofToken 42) :=
  (pays_more_iff (by decide) (by decide) (by decide)
    (show boot.slotForNew (envAt 0 "milliseconds") = some 0 by decide)).mpr
    ⟨by decide, .inr (.inl (by decide))⟩

/-- The JSON text of a token that pays for 2^48 minutes. -/
def hugeJson : CStr :=
  cstr "\x7b\"mint\":\"https://mint\",\"proofs\":[\x7b\"amount\":5910974510923776,\"secret\":\"s\"\x7d]\x7d"

/-- The same in base64. -/
def hugeBase64 : CStr :=
  cstr "eyJtaW50IjoiaHR0cHM6Ly9taW50IiwicHJvb2ZzIjpbeyJhbW91bnQiOjU5MTA5NzQ1MTA5MjM3NzYsInNlY3JldCI6InMifV19"

/-- The text of the token. -/
def hugeToken : CStr := cstr "cashuA" ++ hugeBase64

/-- mbedTLS and cJSON on the texts of the token and of the one of 21 sats. -/
def hugeCodec : Codec where
  base64Decode input size :=
    if input = hugeBase64 ∧ hugeJson.length ≤ size then some hugeJson
    else sampleCodec.base64Decode input size
  parse text :=
    if text = hugeJson then some (tokenTree 5910974510923776) else sampleCodec.parse text

/-- The token buys less than one of 21 sats: its session is expired when it begins. -/
theorem huge_token_pays_less :
    ∃ t₁ t₂, decodeToken hugeCodec stepToken = some t₁ ∧ decodeToken hugeCodec hugeToken = some t₂ ∧
      t₁.totalAmount ≤ t₂.totalAmount ∧
      ¬ PaysMore (envAt 0 "milliseconds") boot 2 21 60000 t₁ t₂ := by
  have hstep : (decodeToken hugeCodec stepToken).map Token.totalAmount = some 21 := by
    decide
  have hhuge : (decodeToken hugeCodec hugeToken).map Token.totalAmount = some 5910974510923776 := by
    decide
  obtain ⟨t₁, ht₁, hone⟩ := Option.map_eq_some_iff.mp hstep
  obtain ⟨t₂, ht₂, htwo⟩ := Option.map_eq_some_iff.mp hhuge
  have hfst : worth 21 60000 t₁ = 60000 := by
    rw [worth, hone]
    rfl
  have hsnd : worth 21 60000 t₂ = 16888498602639360000 := by
    rw [worth, htwo]
    rfl
  refine ⟨t₁, t₂, ht₁, ht₂, ?_, ?_⟩
  · rw [hone, htwo]
    decide
  · exact not_lasts (by decide)
      (show boot.slotForNew (envAt 0 "milliseconds") = some 0 by decide)
      (by decide) (by omega) (by omega) (by omega) (by omega)

end Core

end TollGate
