import TollGate.Mcp.Metric
import TollGate.Wallet.Melt
import TollGate.Wallet.Payout

/-!
# Limits for the fee

Two callers hand a limit to `nucula_wallet_melt`. The tool `wallet_melt` hands on the number that
it is given as `max_fee_sats`, a limit for the fee; `payout_one` hands on the amount that it pays
and the fee that it tolerates, a limit for the cost. The function compares both with the cost, so
that the tool pays nothing that costs more than the fee may be.

`fee_limits_iff` says for both callers exactly when the limit means the fee. The payout's own limit
goes wrong where the product in it wraps, and both go wrong where the first wallet that holds
anything does not hold enough.
-/

namespace TollGate

namespace Mcp

open CJson TollGate.Wallet TollGate.Payout

/-! ### The callers -/

/-- `mcp_handle_wallet_melt`. The wallet has one error, `ESP_FAIL`. -/
def handleWalletMelt (parse : CStr → Option Json) (lib : MeltLibrary) (t : Till) (params : CStr) :
    Till × Response :=
  match parse params with
  | none => (t, failure "Invalid JSON params")
  | some root =>
    match (root.getObjectItem "bolt11").bind Json.asString with
    | none => (t, failure "Missing 'bolt11' field")
    | some bolt11 =>
      let fee := match (root.getObjectItem "max_fee_sats").bind Json.asNumber with
        | some n => n.valueUInt64
        | none => 10
      let r := nuculaWalletMelt lib t bolt11 fee
      (r.1, if r.2 then ⟨true, cstr "\x7b\"status\":\"ok\"\x7d", []⟩
        else failure "Melt failed: ESP_FAIL")

/-- The wallet, and a network that gives invoices, as `payout_one` uses them. -/
def walletOutside (lib : MeltLibrary) (unit : Till → CStr)
    (getInvoice : CStr → UInt64 → Option CStr) : Outside Till where
  walletBalance t := t.purse.balance
  walletUnit := unit
  lnurlGetInvoice t lightningAddress amountSats := (t, getInvoice lightningAddress amountSats)
  walletMelt t bolt11 maxFeeSats := nuculaWalletMelt lib t bolt11 maxFeeSats

/-! ### What a limit is to mean -/

/-- The tool attempts a payment exactly if the fee is within the limit. -/
def ToolLimitsFee (parse : CStr → Option Json) (lib : MeltLibrary) (t : Till) (params : CStr)
    (q : MeltQuote) (maxFee : UInt64) : Prop :=
  Attempts t (handleWalletMelt parse lib t params).1 ↔ q.feeReserve.toInt ≤ maxFee.toNat

/-- The payout attempts a payment exactly if the fee is within the share of the amount that is
tolerated. -/
def PayoutLimitsFee (o : Outside Till) (t : Till) (lightningAddress : CStr)
    (amountSats feeTolerancePct : UInt64) (q : MeltQuote) : Prop :=
  Attempts t (payoutOne o t lightningAddress amountSats feeTolerancePct).1 ↔
    q.feeReserve.toInt ≤ (amountSats.toNat * feeTolerancePct.toNat / 100 : ℕ)

section Limits

variable {parse : CStr → Option Json} {lib : MeltLibrary} {t : Till} {bolt11 : CStr}
  {q : MeltQuote}

/-- The limit of the tool is one for the cost. -/
theorem attempts_walletMelt {params : CStr} {root : Json} {n : Number}
    (hparse : parse params = some root)
    (hbolt11 : (root.getObjectItem "bolt11").bind Json.asString = some bolt11)
    (hfee : (root.getObjectItem "max_fee_sats").bind Json.asNumber = some n)
    (h : Quoted lib t.purse bolt11 q) :
    Attempts t (handleWalletMelt parse lib t params).1 ↔
      q.amount.toInt + q.feeReserve.toInt ≤ n.valueUInt64.toNat ∧ t.purse.Covers q := by
  unfold handleWalletMelt
  rw [hparse]
  dsimp only
  rw [hbolt11, hfee]
  exact melts_iff h

/-- The limit of the payout, as it is computed. -/
theorem toNat_maxCost {amountSats feeTolerancePct : UInt64} (hamount : amountSats.toNat < 2 ^ 31) :
    (amountSats + amountSats * feeTolerancePct / 100).toNat =
      amountSats.toNat + amountSats.toNat * feeTolerancePct.toNat % 2 ^ 64 / 100 := by
  have hshare : (amountSats * feeTolerancePct / 100).toNat =
      amountSats.toNat * feeTolerancePct.toNat % 2 ^ 64 / 100 := by
    rw [UInt64.toNat_div, UInt64.toNat_mul]
    rfl
  rw [UInt64.toNat_add, hshare]
  have hlt : amountSats.toNat * feeTolerancePct.toNat % 2 ^ 64 < 2 ^ 64 :=
    Nat.mod_lt _ (by decide)
  exact Nat.mod_eq_of_lt (by omega)

theorem attempts_payoutOne {unit : Till → CStr} {getInvoice : CStr → UInt64 → Option CStr}
    {lightningAddress : CStr} {amountSats feeTolerancePct : UInt64}
    (hinvoice : getInvoice lightningAddress amountSats = some bolt11)
    (hamount : (amountSats.toNat : ℤ) = q.amount.toInt) (h : Quoted lib t.purse bolt11 q) :
    Attempts t (payoutOne (walletOutside lib unit getInvoice) t lightningAddress amountSats
        feeTolerancePct).1 ↔
      amountSats ≠ 0 ∧
        q.feeReserve.toInt ≤ (amountSats.toNat * feeTolerancePct.toNat % 2 ^ 64 / 100 : ℕ) ∧
        t.purse.Covers q := by
  have hlt : q.amount.toInt < 2 ^ 31 := Int32.toInt_lt _
  unfold payoutOne
  by_cases hzero : amountSats = 0
  · rw [if_pos hzero]
    exact iff_of_false (not_not.mpr rfl) fun hand => hand.1 hzero
  · have hget : (walletOutside lib unit getInvoice).lnurlGetInvoice t lightningAddress amountSats =
        (t, some bolt11) := congrArg (Prod.mk t) hinvoice
    rw [if_neg hzero, and_iff_right hzero, hget]
    refine (melts_iff h).trans (and_congr_left' ?_)
    rw [toNat_maxCost (by omega), ← hamount]
    push_cast
    exact Int.add_le_add_iff_left _

/-- Where a payment is attempted only within the limit, the limit means the fee exactly if the fee
is above it or the payment is attempted. -/
theorem means_fee_iff {attempt : Prop} {fee limit : ℤ} (h : attempt → fee ≤ limit) :
    (attempt ↔ fee ≤ limit) ↔ limit < fee ∨ attempt := by
  constructor
  · intro hiff
    by_cases hle : fee ≤ limit
    · exact Or.inr (hiff.mpr hle)
    · exact Or.inl (not_le.mp hle)
  · rintro (hlt | hattempt)
    · exact iff_of_false (fun hattempt => absurd (h hattempt) (not_le.mpr hlt)) (not_le.mpr hlt)
    · exact iff_of_true hattempt (h hattempt)

/-- **Fee limits mean fees**, for the tool exactly if the fee is above the limit, or the amount
with it is not and the first wallet that holds anything holds the amount; for a payout exactly if
the fee is above what is tolerated, or it is not above it modulo `2 ^ 64` and the first wallet that
holds anything holds the amount, which is not zero. -/
theorem fee_limits_iff (parse : CStr → Option Json) (lib : MeltLibrary) (unit : Till → CStr)
    (getInvoice : CStr → UInt64 → Option CStr) (t : Till) {bolt11 : CStr} {q : MeltQuote}
    (h : Quoted lib t.purse bolt11 q) :
    (∀ params root n, parse params = some root →
      (root.getObjectItem "bolt11").bind Json.asString = some bolt11 →
      (root.getObjectItem "max_fee_sats").bind Json.asNumber = some n →
        (ToolLimitsFee parse lib t params q n.valueUInt64 ↔
          n.valueUInt64.toNat < q.feeReserve.toInt ∨
            (q.amount.toInt + q.feeReserve.toInt ≤ n.valueUInt64.toNat ∧ t.purse.Covers q))) ∧
    ∀ lightningAddress amountSats feeTolerancePct,
      getInvoice lightningAddress amountSats = some bolt11 →
      (amountSats.toNat : ℤ) = q.amount.toInt →
        (PayoutLimitsFee (walletOutside lib unit getInvoice) t lightningAddress amountSats
            feeTolerancePct q ↔
          (amountSats.toNat * feeTolerancePct.toNat / 100 : ℕ) < q.feeReserve.toInt ∨
            (amountSats ≠ 0 ∧
              q.feeReserve.toInt ≤
                (amountSats.toNat * feeTolerancePct.toNat % 2 ^ 64 / 100 : ℕ) ∧
              t.purse.Covers q)) := by
  refine ⟨fun params root n hparse hbolt11 hfee => ?_,
    fun lightningAddress amountSats feeTolerancePct hinvoice hamount => ?_⟩
  · unfold ToolLimitsFee
    rw [attempts_walletMelt hparse hbolt11 hfee h]
    refine means_fee_iff fun hattempt => ?_
    have hnonneg := h.amount_nonneg
    have hcost := hattempt.1
    omega
  · unfold PayoutLimitsFee
    rw [attempts_payoutOne hinvoice hamount h]
    refine means_fee_iff fun hattempt => hattempt.2.1.trans (Int.ofNat_le.mpr ?_)
    -- a product that has wrapped is less than it should be
    exact Nat.div_le_div_right (Nat.mod_le _ _)

end Limits

/-! ### An invoice of 21 sats -/

/-- A wallet that holds 64 sats. -/
def fullWallet : CashuWallet := ⟨cstr "https://mint", [⟨true, cstr "sat"⟩], true, [⟨64, cstr "a"⟩]⟩

/-- The only one. -/
def fullTill : Till := ⟨⟨[some fullWallet], fun _ => false⟩, []⟩

/-- An invoice, of which its mint says that it costs 21 sats and a fee of one. -/
def invoiceText : CStr := cstr "lnbc210n"

/-- The library on it. -/
def quoteLibrary : MeltLibrary where
  loadKeysets := fun _ => none
  selectProofs := fun _ _ => none
  swap := fun _ _ _ => none
  serializeTokenV3 := fun _ => []
  requestMeltQuote _ invoice := if invoice = invoiceText then some ⟨21, 1⟩ else none
  meltTokens w _ := (w, some 0)

theorem quoted_fullTill : Quoted quoteLibrary fullTill.purse invoiceText ⟨21, 1⟩ := by
  have hfind : fullTill.purse.findWalletForMelt = some (0, fullWallet) := rfl
  have hwallet : ∀ slot w, fullTill.purse.findWalletForMelt = some (slot, w) → w = fullWallet :=
    fun slot w h => (Prod.mk.inj (Option.some.inj (hfind.symm.trans h))).2.symm
  refine ⟨fun slot w h => ?_, fun slot w h => ?_, by decide, by decide⟩
  · rw [hwallet slot w h]
    rfl
  · rw [hwallet slot w h]
    rfl

/-- The arguments of a call of the tool. -/
def meltArguments (maxFee : Int32) : Json :=
  .object [(cstr "bolt11", .string invoiceText), (cstr "max_fee_sats", .number (.ofInt maxFee))]

/-- Their text, with a limit of 5 and with one of 22. -/
def meltText (maxFee : String) : CStr :=
  cstr ("\x7b\"bolt11\":\"lnbc210n\",\"max_fee_sats\":" ++ maxFee ++ "\x7d")

/-- cJSON on these texts. -/
def parseMelt (text : CStr) : Option Json :=
  if text = meltText "5" then some (meltArguments 5)
  else if text = meltText "22" then some (meltArguments 22)
  else none

/-- With a limit of 5 sats for the fee nothing is paid. -/
theorem tool_limits_cost :
    Quoted quoteLibrary fullTill.purse invoiceText ⟨21, 1⟩ ∧ 21 + 1 ≤ fullWallet.balance ∧
      ¬ToolLimitsFee parseMelt quoteLibrary fullTill (meltText "5") ⟨21, 1⟩ 5 := by
  refine ⟨quoted_fullTill, by decide, fun h => ?_⟩
  have hattempt := h.mpr (by decide)
  rw [attempts_walletMelt rfl rfl rfl quoted_fullTill] at hattempt
  exact absurd hattempt.1 (by decide)

/-- With a limit of 22 it is paid, and so is a payout that tolerates five percent. -/
theorem fee_limits_iff_sample :
    Quoted quoteLibrary fullTill.purse invoiceText ⟨21, 1⟩ ∧
      ToolLimitsFee parseMelt quoteLibrary fullTill (meltText "22") ⟨21, 1⟩ 22 ∧
      PayoutLimitsFee (walletOutside quoteLibrary (fun _ => cstr "sat")
        fun _ _ => some invoiceText) fullTill (cstr "a@b") 21 5 ⟨21, 1⟩ := by
  have hcovers : fullTill.purse.Covers ⟨21, 1⟩ := ⟨0, fullWallet, rfl, by decide⟩
  have hlimits := fee_limits_iff parseMelt quoteLibrary (fun _ => cstr "sat")
    (fun _ _ => some invoiceText) fullTill quoted_fullTill
  refine ⟨quoted_fullTill, ?_, ?_⟩
  · exact (hlimits.1 (meltText "22") _ _ rfl rfl rfl).mpr (Or.inr ⟨by decide, hcovers⟩)
  · exact (hlimits.2 (cstr "a@b") 21 5 rfl rfl).mpr
      (Or.inr ⟨by decide, by decide, hcovers⟩)

end Mcp

end TollGate
