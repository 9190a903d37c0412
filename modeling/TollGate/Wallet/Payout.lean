import TollGate.Lib.CTypes
import TollGate.Lib.Rounding

/-!
# Paying out over Lightning

Once a minute `lightning_payout_tick` pays what the wallet holds above a reserve to the configured
recipients, each its share. There is one pass for each mint. The wallet and the network behind it
are parameters: a state, and what the calls do to it.

The pass is made when the balance reaches `min_payout_amount`. Its pool is the balance without
`min_balance`, an unsigned difference that this test says nothing about, and each share is rounded
on its own. `reserve_kept_iff` says exactly for which balances, mints and recipients the reserve
is safe.
-/

namespace TollGate

namespace Payout

open Rounding

/-- `payout_recipient_t`, with an exact factor. -/
structure Recipient where
  lightningAddress : CStr
  factor : ℚ

/-- `payout_mint_config_t`. -/
structure MintConfig where
  url : CStr
  minBalance : UInt64
  minPayoutAmount : UInt64

/-- `payout_config_t`. -/
structure Config where
  enabled : Bool
  mints : List MintConfig
  recipients : List Recipient
  feeTolerancePct : UInt64
  checkIntervalS : Int32

/-- The static variables of `lightning_payout.c`. -/
structure Statics where
  config : Config
  lastCheckMs : Int64

/-- The wallet and the network. -/
structure Outside (σ : Type*) where
  walletBalance : σ → UInt64
  walletUnit : σ → CStr
  lnurlGetInvoice : σ → CStr → UInt64 → σ × Option CStr
  walletMelt : σ → CStr → UInt64 → σ × Bool

/-- What `payout_one` is asked to pay. -/
structure Request where
  lightningAddress : CStr
  amountSats : UInt64
deriving DecidableEq

/-- A pass of the loop over the mints: the mint, the balance it goes by, and its requests. -/
structure Pass where
  mint : MintConfig
  balance : UInt64
  requests : List Request

/-! ### The source operations -/

section Tick

variable {σ : Type*} (o : Outside σ)

/-- `payout_one`: what it leaves, and whether it paid. -/
def payoutOne (w : σ) (lightningAddress : CStr) (amountSats feeTolerancePct : UInt64) : σ × Bool :=
  if amountSats = 0 then (w, true)
  else match o.lnurlGetInvoice w lightningAddress amountSats with
    | (w, none) => (w, false)
    | (w, some bolt11) => o.walletMelt w bolt11 (amountSats + amountSats * feeTolerancePct / 100)

/-- The share of a recipient. -/
def share (payoutPool : UInt64) (factor : ℚ) : UInt64 :=
  UInt64.ofNat (roundAway (payoutPool.toNat * factor)).toNat

/-- The recipient is skipped. -/
def Recipient.skipped (r : Recipient) : Bool := r.factor ≤ 0 || r.lightningAddress = []

/-- One turn of the loop over the recipients, with the requests so far. -/
def payRecipient (feeTolerancePct payoutPool : UInt64) (s : σ × List Request) (r : Recipient) :
    σ × List Request :=
  if r.skipped then s
  else if share payoutPool r.factor = 0 then s
  else
    ((payoutOne o s.1 r.lightningAddress (share payoutPool r.factor) feeTolerancePct).1,
      s.2 ++ [⟨r.lightningAddress, share payoutPool r.factor⟩])

/-- The loop over the mints: the outside, `balance`, and the passes so far. -/
structure Loop (σ : Type*) where
  outside : σ
  balance : UInt64
  passes : List Pass

/-- One turn of the loop over the mints. The balance is read again when payments were made. -/
def payMint (config : Config) (l : Loop σ) (mc : MintConfig) : Loop σ :=
  if l.balance < mc.minPayoutAmount then { l with passes := l.passes ++ [⟨mc, l.balance, []⟩] }
  -- the difference wraps when the reserve is above the balance
  else if l.balance - mc.minBalance = 0 then
    { l with passes := l.passes ++ [⟨mc, l.balance, []⟩] }
  else
    -- whether a payment succeeds makes no difference to the others
    let r := config.recipients.foldl
      (payRecipient o config.feeTolerancePct (l.balance - mc.minBalance)) (l.outside, [])
    ⟨r.1, o.walletBalance r.1, l.passes ++ [⟨mc, l.balance, r.2⟩]⟩

/-- `lightning_payout_tick`, with the passes it makes. -/
def lightningPayoutTick (s : Statics) (now : Int64) (w : σ) : Statics × σ × List Pass :=
  if !s.config.enabled then (s, w, [])
  else if s.config.recipients = [] then (s, w, [])
  else if now - s.lastCheckMs < s.config.checkIntervalS.toInt64 * 1000 then (s, w, [])
  else if o.walletUnit w ≠ cstr "sat" then ({ s with lastCheckMs := now }, w, [])
  else
    let l := s.config.mints.foldl (payMint o s.config) ⟨w, o.walletBalance w, []⟩
    ({ s with lastCheckMs := now }, l.outside, l.passes)

end Tick

/-! ### The reserve -/

/-- What the requests sum to. -/
def requested (requests : List Request) : ℕ := (requests.map fun q => q.amountSats.toNat).sum

/-- A pass keeps the reserve of its mint: what it requests stays within the balance above the
reserve, and below the reserve it requests nothing. -/
def Pass.KeepsReserve (p : Pass) : Prop :=
  (p.mint.minBalance ≤ p.balance →
    requested p.requests ≤ p.balance.toNat - p.mint.minBalance.toNat) ∧
  (p.balance < p.mint.minBalance → p.requests = [])

instance (p : Pass) : Decidable p.KeepsReserve := inferInstanceAs (Decidable (_ ∧ _))

/-- The exact shares of the recipients that are paid. -/
def exactShares (recipients : List Recipient) (payoutPool : UInt64) : List ℚ :=
  (recipients.filter fun r => !r.skipped).map fun r => payoutPool.toNat * r.factor

/-- The balance is below the threshold; or it covers the reserve, and what rounding up adds to the
shares is covered by what rounding down drops and what the factors leave over; or it does not cover
the reserve, and all shares of the difference modulo `2 ^ 64` are below one half. -/
def ReserveSafe (recipients : List Recipient) (mc : MintConfig) (balance : UInt64) : Prop :=
  balance < mc.minPayoutAmount ∨
    (mc.minBalance ≤ balance ∧
      roundedUp (exactShares recipients (balance - mc.minBalance)) ≤
        roundedDown (exactShares recipients (balance - mc.minBalance)) +
          ((balance - mc.minBalance).toNat -
            (exactShares recipients (balance - mc.minBalance)).sum)) ∨
    (balance < mc.minBalance ∧ ∀ q ∈ exactShares recipients (balance - mc.minBalance), 2 * q < 1)

instance (recipients : List Recipient) (mc : MintConfig) (balance : UInt64) :
    Decidable (ReserveSafe recipients mc balance) :=
  inferInstanceAs (Decidable (_ ∨ _ ∧ _ ∨ _ ∧ _))

/-- The factors are no shares of more than the whole. -/
structure Config.Valid (config : Config) : Prop where
  nonneg : ∀ r ∈ config.recipients, 0 ≤ r.factor
  sum_le : (config.recipients.map Recipient.factor).sum ≤ 1

/-! ### The requests of a pass -/

/-- The requests that a pool gives rise to. -/
def requestsOf (recipients : List Recipient) (payoutPool : UInt64) : List Request :=
  ((recipients.filter fun r => !r.skipped).map fun r =>
    (⟨r.lightningAddress, share payoutPool r.factor⟩ : Request)).filter fun q => q.amountSats ≠ 0

/-- The requests of a pass are those of its pool, if the threshold is reached. -/
def Pass.Made (p : Pass) (config : Config) : Prop :=
  p.requests = if p.balance < p.mint.minPayoutAmount then []
    else requestsOf config.recipients (p.balance - p.mint.minBalance)

theorem requestsOf_cons (r : Recipient) (recipients : List Recipient) (payoutPool : UInt64) :
    requestsOf (r :: recipients) payoutPool =
      (if r.skipped ∨ share payoutPool r.factor = 0 then []
        else [⟨r.lightningAddress, share payoutPool r.factor⟩]) ++
        requestsOf recipients payoutPool := by
  unfold requestsOf
  cases hskipped : r.skipped with
  | true => rw [List.filter_cons_of_neg (by simp [hskipped]), if_pos (.inl rfl), List.nil_append]
  | false =>
    rw [List.filter_cons_of_pos (by simp [hskipped]), List.map_cons]
    by_cases hzero : share payoutPool r.factor = 0
    · rw [List.filter_cons_of_neg (by simp [hzero]), if_pos (.inr hzero), List.nil_append]
    · rw [List.filter_cons_of_pos (by simp [hzero]), if_neg (by simp [hzero]),
        List.singleton_append]

/-- An empty pool gives rise to none. -/
theorem requestsOf_zero (recipients : List Recipient) : requestsOf recipients 0 = [] := by
  have hshare : ∀ factor, share 0 factor = 0 := by
    intro factor
    have hround : roundAway (0 : ℚ) = 0 := (roundAway_eq_zero_iff le_rfl).mpr (by norm_num)
    rw [share, UInt64.toNat_zero, Nat.cast_zero, zero_mul, hround]
    rfl
  induction recipients with
  | nil => rfl
  | cons r recipients ih => rw [requestsOf_cons, if_pos (.inr (hshare _)), ih, List.append_nil]

section Passes

variable {σ : Type*} {o : Outside σ}

/-- What is requested for a recipient does not depend on how the payments before it went. -/
theorem requests_foldl (feeTolerancePct payoutPool : UInt64) (recipients : List Recipient)
    (s : σ × List Request) :
    (recipients.foldl (payRecipient o feeTolerancePct payoutPool) s).2 =
      s.2 ++ requestsOf recipients payoutPool := by
  induction recipients generalizing s with
  | nil => exact (List.append_nil _).symm
  | cons r recipients ih =>
    -- a recipient is skipped for the same reasons on both sides
    rw [List.foldl_cons, ih, payRecipient, requestsOf_cons]
    split
    next hskipped => rw [if_pos (.inl hskipped), List.nil_append]
    next hpaid =>
      split
      next hzero => rw [if_pos (.inr hzero), List.nil_append]
      next hshare => rw [if_neg (not_or.mpr ⟨hpaid, hshare⟩), List.append_assoc]

/-- A turn of the loop over the mints adds the pass of the mint. -/
theorem passes_payMint (config : Config) (l : Loop σ) (mc : MintConfig) :
    ∃ p : Pass, (payMint o config l mc).passes = l.passes ++ [p] ∧ p.mint = mc ∧ p.Made config := by
  unfold payMint
  split
  next hbelow => exact ⟨_, rfl, rfl, (if_pos hbelow).symm⟩
  next hreached =>
    split
    next hempty =>
      -- the pool is empty, and so are the requests it would give
      refine ⟨_, rfl, rfl, ?_⟩
      rw [Pass.Made, if_neg hreached, hempty, requestsOf_zero]
    next =>
      refine ⟨_, rfl, rfl, ?_⟩
      rw [Pass.Made, if_neg hreached, requests_foldl, List.nil_append]

/-- The loop makes a pass for each mint, in their order. -/
theorem passes_foldl (config : Config) (mints : List MintConfig) (l : Loop σ)
    (h : ∀ p ∈ l.passes, p.Made config) :
    (mints.foldl (payMint o config) l).passes.map Pass.mint = l.passes.map Pass.mint ++ mints ∧
      ∀ p ∈ (mints.foldl (payMint o config) l).passes, p.Made config := by
  induction mints generalizing l with
  | nil => exact ⟨(List.append_nil _).symm, h⟩
  | cons mc mints ih =>
    obtain ⟨p, hpasses, hmint, hmade⟩ := passes_payMint (o := o) config l mc
    have hnext : ∀ p ∈ (payMint o config l mc).passes, p.Made config := by
      intro p' hp'
      rw [hpasses, List.mem_append, List.mem_singleton] at hp'
      rcases hp' with hold | rfl
      · exact h p' hold
      · exact hmade
    obtain ⟨hmints, hall⟩ := ih (payMint o config l mc) hnext
    refine ⟨?_, hall⟩
    rw [List.foldl_cons, hmints, hpasses, List.map_append, List.map_singleton, hmint,
      List.append_assoc, List.singleton_append]

/-- A tick makes no pass, or one for each mint. -/
theorem passes_lightningPayoutTick (s : Statics) (now : Int64) (w : σ) :
    ((lightningPayoutTick o s now w).2.2 = [] ∨
        (lightningPayoutTick o s now w).2.2.map Pass.mint = s.config.mints) ∧
      ∀ p ∈ (lightningPayoutTick o s now w).2.2, p.Made s.config := by
  have hnone : ∀ p ∈ ([] : List Pass), p.Made s.config := fun p hp => absurd hp List.not_mem_nil
  unfold lightningPayoutTick
  split
  · exact ⟨.inl rfl, hnone⟩
  · split
    · exact ⟨.inl rfl, hnone⟩
    · split
      · exact ⟨.inl rfl, hnone⟩
      · split
        · exact ⟨.inl rfl, hnone⟩
        · obtain ⟨hmints, hall⟩ := passes_foldl (o := o) s.config s.config.mints
            ⟨w, o.walletBalance w, []⟩ hnone
          exact ⟨.inr hmints, hall⟩

end Passes

/-! ### The shares of a pool -/

section Shares

variable {config : Config} {payoutPool : UInt64}

/-- A factor of a valid configuration is at most one. -/
theorem Config.Valid.factor_le (h : config.Valid) {r : Recipient} (hr : r ∈ config.recipients) :
    r.factor ≤ 1 := by
  refine le_trans ?_ h.sum_le
  refine List.single_le_sum ?_ _ (List.mem_map_of_mem hr)
  intro factor hfactor
  obtain ⟨r', hr', rfl⟩ := List.mem_map.mp hfactor
  exact h.nonneg r' hr'

/-- No share overflows. -/
theorem toNat_share {factor : ℚ} (hnonneg : 0 ≤ factor) (hle : factor ≤ 1) :
    ((share payoutPool factor).toNat : ℤ) = roundAway (payoutPool.toNat * factor) := by
  have hpart : 0 ≤ payoutPool.toNat * factor := by positivity
  -- a part of the pool is rounded to no more than the pool
  have hround : roundAway (payoutPool.toNat * factor) ≤ payoutPool.toNat := by
    refine roundAway_le hpart ?_
    calc (payoutPool.toNat : ℚ) * factor ≤ payoutPool.toNat * 1 := by gcongr
      _ = ((payoutPool.toNat : ℤ) : ℚ) := by rw [mul_one, Int.cast_natCast]
  have hround' := roundAway_nonneg hpart
  have hlt := payoutPool.toNat_lt
  rw [share, UInt64.toNat_ofNat_of_lt' (by change _ < 2 ^ 64; omega), Int.toNat_of_nonneg hround']

theorem exactShares_nonneg (h : config.Valid) :
    ∀ q ∈ exactShares config.recipients payoutPool, 0 ≤ q := by
  intro q hq
  obtain ⟨r, hr, rfl⟩ := List.mem_map.mp hq
  have hfactor := h.nonneg r (List.mem_of_mem_filter hr)
  positivity

/-- The requests sum to the rounded shares: a share of zero is not requested, and adds nothing. -/
theorem requested_requestsOf (h : config.Valid) :
    (requested (requestsOf config.recipients payoutPool) : ℤ) =
      ((exactShares config.recipients payoutPool).map roundAway).sum := by
  have hall : ∀ r ∈ config.recipients, 0 ≤ r.factor ∧ r.factor ≤ 1 := fun r hr =>
    ⟨h.nonneg r hr, h.factor_le hr⟩
  unfold exactShares
  generalize config.recipients = recipients at hall ⊢
  induction recipients with
  | nil => rfl
  | cons r recipients ih =>
    have hrest := ih fun r' hr' => hall r' (List.mem_cons_of_mem r hr')
    obtain ⟨hnonneg, hle⟩ := hall r List.mem_cons_self
    have hsplit : ∀ a b : List Request, requested (a ++ b) = requested a + requested b := by
      intro a b
      rw [requested, List.map_append, List.sum_append]
      rfl
    rw [requestsOf_cons, hsplit, Nat.cast_add, hrest]
    cases hskipped : r.skipped with
    | true =>
      rw [List.filter_cons_of_neg (by simp [hskipped]), if_pos (.inl rfl)]
      exact Int.zero_add _
    | false =>
      rw [List.filter_cons_of_pos (by simp [hskipped]), List.map_cons, List.map_cons, List.sum_cons,
        ← toNat_share hnonneg hle]
      split
      next hzero =>
        rw [hzero.resolve_left Bool.false_ne_true]
        rfl
      next => simp [requested]

/-- Nothing is requested exactly if every share is below one half. -/
theorem requestsOf_eq_nil_iff (h : config.Valid) :
    requestsOf config.recipients payoutPool = [] ↔
      ∀ q ∈ exactShares config.recipients payoutPool, 2 * q < 1 := by
  unfold requestsOf exactShares
  rw [List.filter_eq_nil_iff, List.forall_mem_map, List.forall_mem_map]
  refine forall₂_congr fun r hr => ?_
  have hmem := List.mem_of_mem_filter hr
  have hnonneg := h.nonneg r hmem
  rw [← roundAway_eq_zero_iff (by positivity), ← toNat_share hnonneg (h.factor_le hmem)]
  simp [← UInt64.toNat_inj]

end Shares

/-- **Exactly when the reserve is safe.** For every valid configuration, and whatever the wallet and
the network do: in each pass of a tick. -/
theorem reserve_kept_iff {σ : Type*} (o : Outside σ) (s : Statics) (now : Int64) (w : σ)
    (hvalid : s.config.Valid) (p : Pass) (hp : p ∈ (lightningPayoutTick o s now w).2.2) :
    p.KeepsReserve ↔ ReserveSafe s.config.recipients p.mint p.balance := by
  have hmade := (passes_lightningPayoutTick s now w).2 p hp
  unfold Pass.Made at hmade
  unfold Pass.KeepsReserve ReserveSafe
  by_cases hbelow : p.balance < p.mint.minPayoutAmount
  · -- no pass below the threshold
    rw [hmade, if_pos hbelow]
    exact iff_of_true ⟨fun _ => Nat.zero_le _, fun _ => rfl⟩ (.inl hbelow)
  · rw [hmade, if_neg hbelow]
    simp only [hbelow, false_or]
    by_cases hcovers : p.mint.minBalance ≤ p.balance
    · -- the difference is exact, and the sum of the rounded shares decides
      have hnot : ¬ p.balance < p.mint.minBalance := UInt64.not_lt.mpr hcovers
      have hpool : (p.balance - p.mint.minBalance).toNat =
          p.balance.toNat - p.mint.minBalance.toNat := UInt64.toNat_sub_of_le _ _ hcovers
      simp only [hcovers, hnot, true_and, false_and, or_false, forall_const, IsEmpty.forall_iff,
        and_true]
      rw [← hpool, ← Int.ofNat_le, requested_requestsOf hvalid,
        sum_roundAway_le_iff (exactShares_nonneg hvalid), Int.cast_natCast]
    · -- the difference has wrapped, and any request at all is wrong
      have hless : p.balance < p.mint.minBalance := UInt64.not_le.mp hcovers
      simp only [hcovers, hless, false_and, false_or, true_and, forall_const, IsEmpty.forall_iff]
      exact requestsOf_eq_nil_iff hvalid

/-- A configuration that divides the pool by some factors. -/
def sampleStatics (mints : List MintConfig) (factors : List ℚ) : Statics where
  config :=
    { enabled := true
      mints := mints
      recipients := factors.map fun factor => ⟨cstr "owner@b", factor⟩
      feeTolerancePct := 10
      checkIntervalS := 60 }
  lastCheckMs := 0

/-- The mint of the default configuration. -/
def defaultMint : MintConfig := ⟨cstr "https://b", 64, 128⟩

/-- A wallet whose balance stays as it is, as no invoice can be had. -/
def offline (balance : UInt64) : Outside Unit where
  walletBalance := fun _ => balance
  walletUnit := fun _ => cstr "sat"
  lnurlGetInvoice := fun w _ _ => (w, none)
  walletMelt := fun w _ _ => (w, false)

/-- 201 sats are divided into halves. For a mint with a reserve of 1000 the pass requests
`2 ^ 64 - 798` sats, and for the default one it requests 69 and 69 of a pool of 137. -/
theorem reserve_touched :
    (sampleStatics [⟨cstr "https://a", 1000, 128⟩, defaultMint] [1 / 2, 1 / 2]).config.Valid ∧
      (lightningPayoutTick (offline 201)
        (sampleStatics [⟨cstr "https://a", 1000, 128⟩, defaultMint] [1 / 2, 1 / 2]) 60000
        ()).2.2.length = 2 ∧
      ∀ p ∈ (lightningPayoutTick (offline 201)
        (sampleStatics [⟨cstr "https://a", 1000, 128⟩, defaultMint] [1 / 2, 1 / 2]) 60000 ()).2.2,
        ¬ p.KeepsReserve := by
  refine ⟨⟨by decide +kernel, by decide +kernel⟩, by decide +kernel, by decide +kernel⟩

/-- 500 sats are divided 79 to 21: 344 and 92 of a pool of 436. -/
theorem reserve_kept_sample :
    (lightningPayoutTick (offline 500) (sampleStatics [defaultMint] [79 / 100, 21 / 100]) 60000
        ()).2.2.length = 1 ∧
      ∀ p ∈ (lightningPayoutTick (offline 500) (sampleStatics [defaultMint] [79 / 100, 21 / 100])
        60000 ()).2.2, p.KeepsReserve := by
  refine ⟨by decide, fun p hp => ?_⟩
  have hsafe : ∀ p ∈ (lightningPayoutTick (offline 500)
      (sampleStatics [defaultMint] [79 / 100, 21 / 100]) 60000 ()).2.2,
      ReserveSafe (sampleStatics [defaultMint] [79 / 100, 21 / 100]).config.recipients p.mint
        p.balance := by
    decide +kernel
  have hvalid : (sampleStatics [defaultMint] [79 / 100, 21 / 100]).config.Valid :=
    ⟨by decide +kernel, by decide +kernel⟩
  exact (reserve_kept_iff (offline 500) _ 60000 () hvalid p hp).mpr (hsafe p hp)

end Payout

end TollGate
