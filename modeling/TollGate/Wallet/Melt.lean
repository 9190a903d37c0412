import TollGate.Wallet.Send

/-!
# Melting: paying an invoice out of the wallet

`nucula_wallet_melt` asks the mint of a wallet what an invoice costs, and pays it if the cost is
within a limit. The parameter for the limit is named after the fee; what is compared with it is
the amount and the fee together. The wallet is the first one that holds anything, whether it holds
enough or not (`melts_iff`).

The quote and the payment are the library's. `Till` keeps the payments that were attempted.
-/

namespace TollGate

namespace Wallet

/-! ### The source operations -/

/-- `cashu::MeltQuote`. -/
structure MeltQuote where
  amount : Int32
  feeReserve : Int32
deriving DecidableEq

/-- The functions of the library that melting needs besides the others: the quote of an invoice,
and the wallet after a payment with the change that it gave. -/
structure MeltLibrary extends Library where
  requestMeltQuote : CashuWallet → CStr → Option MeltQuote
  meltTokens : CashuWallet → MeltQuote → CashuWallet × Option Int32

/-- The loop of `nucula_wallet_melt`: the first wallet that holds anything. -/
def Purse.findWalletForMelt (s : Purse) : Option (ℕ × CashuWallet) :=
  (s.wallets.findIdx? fun w => (w.map fun w => decide (w.balance > 0)).getD false).bind fun i =>
    (s.wallets[i]?.bind id).map fun w => (i, w)

/-- A payment that is attempted. -/
structure Melt where
  slot : ℕ
  wallet : CashuWallet
  quote : MeltQuote

/-- `(uint64_t)quote.amount + (uint64_t)quote.fee_reserve`. -/
def MeltQuote.totalCost (q : MeltQuote) : UInt64 :=
  q.amount.toInt64.toUInt64 + q.feeReserve.toInt64.toUInt64

/-- `nucula_wallet_melt` up to the call of `melt_tokens`. -/
def meltChecks (lib : MeltLibrary) (s : Purse) (bolt11Invoice : CStr) (maxFeeSats : UInt64) :
    Purse × Option Melt :=
  match s.findWalletForMelt with
  | none => (s, none)
  | some (slot, w) =>
    let r := ensureKeysets lib.toLibrary w
    let s := { s with wallets := s.wallets.set slot (some r.1) }
    if !r.2 then (s, none)
    else match lib.requestMeltQuote r.1 bolt11Invoice with
      | none => (s, none)
      | some quote =>
        if quote.totalCost > maxFeeSats then (s, none)
        else if r.1.balance < quote.amount then (s, none)
        else (s, some ⟨slot, r.1, quote⟩)

/-- The wallets, and the payments that were attempted. -/
structure Till where
  purse : Purse
  melts : List Melt

/-- `nucula_wallet_melt`. -/
def nuculaWalletMelt (lib : MeltLibrary) (t : Till) (bolt11Invoice : CStr) (maxFeeSats : UInt64) :
    Till × Bool :=
  match meltChecks lib t.purse bolt11Invoice maxFeeSats with
  | (s, none) => ({ t with purse := s }, false)
  | (s, some melt) =>
    let r := lib.meltTokens melt.wallet melt.quote
    (⟨{ s with wallets := s.wallets.set melt.slot (some r.1) }, t.melts ++ [melt]⟩, r.2.isSome)

/-! ### When a payment is attempted -/

/-- A payment was attempted in between. -/
def Attempts (t t' : Till) : Prop := t'.melts ≠ t.melts

/-- The keysets are there, and the mint of the wallet that is taken gives this quote. -/
structure Quoted (lib : MeltLibrary) (s : Purse) (bolt11Invoice : CStr) (q : MeltQuote) : Prop where
  keysets : ∀ slot w, s.findWalletForMelt = some (slot, w) →
    (ensureKeysets lib.toLibrary w).2 = true
  quote : ∀ slot w, s.findWalletForMelt = some (slot, w) →
    lib.requestMeltQuote (ensureKeysets lib.toLibrary w).1 bolt11Invoice = some q
  amount_nonneg : 0 ≤ q.amount.toInt
  fee_nonneg : 0 ≤ q.feeReserve.toInt

/-- The first wallet that holds anything holds the amount. -/
def Purse.Covers (s : Purse) (q : MeltQuote) : Prop :=
  ∃ slot w, s.findWalletForMelt = some (slot, w) ∧ q.amount ≤ w.balance

section Attempt

variable {lib : MeltLibrary} {t : Till} {bolt11Invoice : CStr} {q : MeltQuote}
  {maxFeeSats : UInt64}

theorem attempts_iff_checks :
    Attempts t (nuculaWalletMelt lib t bolt11Invoice maxFeeSats).1 ↔
      (meltChecks lib t.purse bolt11Invoice maxFeeSats).2.isSome = true := by
  unfold Attempts nuculaWalletMelt
  generalize meltChecks lib t.purse bolt11Invoice maxFeeSats = r
  obtain ⟨s, melt⟩ := r
  cases melt with
  | none => exact iff_of_false (not_not.mpr rfl) Bool.false_ne_true
  | some melt => exact iff_of_true (by simp) rfl

/-- An amount that is not negative is cast as it is. -/
theorem toNat_toUInt64 {i : Int32} (h : 0 ≤ i.toInt) :
    (i.toInt64.toUInt64.toNat : ℤ) = i.toInt := by
  have hint : i.toInt64.toInt = i.toInt := Int32.toInt_toInt64 i
  have hle : 0 ≤ i.toInt64 := Int64.le_iff_toInt_le.mpr (hint ▸ h)
  rw [Int64.toNat_toUInt64_of_le hle, Int64.toNatClampNeg, hint, Int.toNat_of_nonneg h]

theorem MeltQuote.toNat_totalCost (hamount : 0 ≤ q.amount.toInt) (hfee : 0 ≤ q.feeReserve.toInt) :
    (q.totalCost.toNat : ℤ) = q.amount.toInt + q.feeReserve.toInt := by
  have ha := toNat_toUInt64 hamount
  have hr := toNat_toUInt64 hfee
  have ha' : q.amount.toInt < 2 ^ 31 := Int32.toInt_lt _
  have hr' : q.feeReserve.toInt < 2 ^ 31 := Int32.toInt_lt _
  unfold MeltQuote.totalCost
  rw [UInt64.toNat_add, Nat.mod_eq_of_lt (by omega)]
  push_cast
  rw [ha, hr]

@[simp] theorem balance_ensureKeysets (lib : Library) (w : CashuWallet) :
    (ensureKeysets lib w).1.balance = w.balance := by
  unfold CashuWallet.balance
  rw [proofs_ensureKeysets]

/-- **A payment is attempted** if the amount and the fee are within the limit together, and the
first wallet that holds anything holds the amount. -/
theorem melts_iff (h : Quoted lib t.purse bolt11Invoice q) :
    Attempts t (nuculaWalletMelt lib t bolt11Invoice maxFeeSats).1 ↔
      q.amount.toInt + q.feeReserve.toInt ≤ maxFeeSats.toNat ∧ t.purse.Covers q := by
  have hcost : q.totalCost ≤ maxFeeSats ↔
      q.amount.toInt + q.feeReserve.toInt ≤ maxFeeSats.toNat := by
    rw [UInt64.le_iff_toNat_le, ← q.toNat_totalCost h.amount_nonneg h.fee_nonneg]
    exact Int.ofNat_le.symm
  rw [attempts_iff_checks, ← hcost]
  unfold meltChecks Purse.Covers
  cases hfind : t.purse.findWalletForMelt with
  | none => exact iff_of_false Bool.false_ne_true fun hcovers => absurd hcovers.2 (by simp)
  | some found =>
    obtain ⟨slot, w⟩ := found
    have hcovers : (∃ slot' w', some (slot, w) = some (slot', w') ∧ q.amount ≤ w'.balance) ↔
        q.amount ≤ w.balance := by
      refine ⟨?_, fun hle => ⟨slot, w, rfl, hle⟩⟩
      rintro ⟨slot', w', heq, hle⟩
      obtain ⟨rfl, rfl⟩ := Prod.mk.inj (Option.some.inj heq)
      exact hle
    rw [hcovers]
    dsimp only
    rw [h.keysets slot w hfind, if_neg (by decide), h.quote slot w hfind]
    dsimp only
    rw [balance_ensureKeysets]
    by_cases hmax : q.totalCost ≤ maxFeeSats
    · rw [if_neg (UInt64.not_lt.mpr hmax), and_iff_right hmax]
      by_cases hbalance : q.amount ≤ w.balance
      · rw [if_neg (Int32.not_lt.mpr hbalance)]
        exact iff_of_true rfl hbalance
      · rw [if_pos (Int32.not_le.mp hbalance)]
        exact iff_of_false Bool.false_ne_true hbalance
    · rw [if_pos (UInt64.not_le.mp hmax)]
      exact iff_of_false Bool.false_ne_true fun hand => hmax hand.1

end Attempt

end Wallet

end TollGate
