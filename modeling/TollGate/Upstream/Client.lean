import TollGate.Lib.Run
import TollGate.Wallet.Send
import TollGate.Upstream.Replies

/-!
# Paying the upstream TollGate

`tollgate_client.c` buys the uplink: it looks for a TollGate at the gateway of the station
interface, pays it with a token from the wallet, renews the session when it runs low, and tries
again after an error. What the outside decides (the answers over HTTP, the clock, the memory, the
library of the wallet, the configuration) comes with each input.

A token leaves the wallet before it is posted, and the buffer with its text is the only copy. It is
freed on every way out of `tollgate_client_pay`, so a payment that buys no session is lost, and the
next tick that retries makes another token. `payments_recovered_iff` says for which runs nothing
was lost before a token is made.
-/

namespace TollGate

namespace Upstream

open CJson Wallet

/-! ### The state -/

/-- `tollgate_client_state_t`. -/
inductive ClientState where
  | idle
  | detecting
  | noTollgate
  | needsPay
  | paying
  | paid
  | renewing
  | mining
  | error
deriving DecidableEq

/-- The results of type `esp_err_t`. -/
inductive EspErr where
  | fail
  | noMem
  | invalidState
  | notFound
deriving DecidableEq

/-- The static variables of `tollgate_client.c`. -/
structure Client where
  state : ClientState
  discovery : Discovery
  gwIp : CStr
  allotmentMs : Int64
  remainingMs : Int64
  lastPayTimeMs : Int64
  retryCount : Int32

/-- The money: the wallet, and besides it what was paid for sessions and to the mints. -/
structure Funds where
  purse : Purse
  granted : ℕ
  fees : ℕ

/-- The machine: the client and the money. -/
structure Machine where
  client : Client
  funds : Funds

/-- The fields of the configuration that the client reads. -/
structure Config where
  clientEnabled : Bool
  clientStepsToBuy : Int32
  clientRenewalThresholdPct : Int32
  clientRetryIntervalMs : Int32

/-- An answer over HTTP: the status and the bytes that are read. -/
structure Reply where
  status : Int32
  body : List UInt8

/-- What the outside decides about a payment: the library of the wallet, whether there is memory
for the two buffers, and the answer to the POST, if there is one. -/
structure Attempt where
  lib : Library
  tokenBuf : Bool
  respBuf : Bool
  post : Option Reply

/-- The calls into `tollgate_client.c`. -/
inductive Input where
  | staConnected (cfg : Config) (gwIp : CStr) (detectBuf : Bool) (discovery : Option Reply)
      (pay : Attempt) (paidAt : Int64)
  | staDisconnected
  | tick (cfg : Config) (now : Int64) (usage : Option Reply) (pay : Attempt) (paidAt : Int64)

/-- `tollgate_client_init`. -/
def Client.init : Client := ⟨.idle, .zero, [], 0, -1, 0, 0⟩

/-! ### The source operations -/

/-- The string in a buffer of `size` bytes after `http_get` or `http_post_text`. -/
def Reply.text (r : Reply) (size : ℕ) : CStr := (r.body.take (size - 1)).takeWhile (· ≠ 0)

section Machine

variable (parse : CStr → Option Json)

/-- `tollgate_client_detect`: whether a TollGate was found, and the record. -/
def clientDetect (buf : Bool) (reply : Option Reply) (d : Discovery) :
    Discovery × Except EspErr Unit :=
  if !buf then (d, .error .noMem)
  else match reply with
    | none => (d, .error .notFound)
    | some r =>
      if r.status ≠ 200 then (d, .error .notFound)
      else match clientParseDiscovery parse (r.text 4096) with
        | none => (d, .error .notFound)
        | some d => if d.isTollgate then (d, .ok ()) else (d, .error .notFound)

/-- `tollgate_client_pay` from the POST on: the allotment of the session that the upstream
grants. -/
def Attempt.grant (a : Attempt) : Except EspErr Int64 :=
  if !a.respBuf then .error .noMem
  else match a.post with
    | none => .error .fail
    | some r =>
      if r.status = 200 then
        match clientParseSession parse (r.text 8192) with
        | some allotment => .ok allotment
        | none => .error .fail
      else .error .fail

/-- `tollgate_client_pay`. Whatever the POST comes to, the token is gone. -/
def clientPay (f : Funds) (amountSats : Int32) (a : Attempt) : Funds × Except EspErr Int64 :=
  if f.purse.balance < amountSats.toInt64.toUInt64 then (f, .error .invalidState)
  else if !a.tokenBuf then (f, .error .noMem)
  else match nuculaWalletSend a.lib f.purse amountSats.toInt64.toUInt64 8192 with
    | (purse, none) => ({ f with purse := purse }, .error .fail)
    | (purse, some sent) =>
      -- the token has left the wallet; it is posted once and freed
      let f := { f with purse := purse, fees := f.fees + sent.fee }
      match a.grant parse with
      | .ok allotment => ({ f with granted := f.granted + worth sent.token.proofs }, .ok allotment)
      | .error e => (f, .error e)

/-- What is paid for the steps to buy. -/
def amountSats (cfg : Config) (d : Discovery) : Int32 :=
  (if cfg.clientStepsToBuy ≤ 0 then 1 else cfg.clientStepsToBuy) * d.pricePerStep

/-- The session that was bought. -/
def Client.bought (c : Client) (allotment paidAt : Int64) : Client :=
  { c with
    allotmentMs := allotment
    remainingMs := allotment
    lastPayTimeMs := paidAt
    state := .paid }

/-- `tollgate_client_on_sta_connected`. -/
def onStaConnected (s : Machine) (cfg : Config) (gwIp : CStr) (detectBuf : Bool)
    (discovery : Option Reply) (pay : Attempt) (paidAt : Int64) : Machine × Except EspErr Unit :=
  if !cfg.clientEnabled then (s, .ok ())
  else
    let c := { s.client with gwIp := gwIp.strncpy 16, state := .detecting, retryCount := 0 }
    match clientDetect parse detectBuf discovery c.discovery with
    -- the record of an earlier upstream stays when nothing is found
    | (d, .error _) =>
      ({ s with client := { c with discovery := d, state := .noTollgate } }, .ok ())
    | (d, .ok ()) =>
      match clientPay parse s.funds (amountSats cfg d) pay with
      | (f, .error e) => (⟨{ c with discovery := d, state := .error }, f⟩, .error e)
      | (f, .ok allotment) => (⟨{ c with discovery := d }.bought allotment paidAt, f⟩, .ok ())

/-- `tollgate_client_on_sta_disconnected`. -/
def onStaDisconnected (s : Machine) : Machine := { s with client := .init }

/-- `tollgate_client_tick` in `TG_CLIENT_ERROR`. -/
def tickError (s : Machine) (cfg : Config) (now : Int64) (pay : Attempt) (paidAt : Int64) :
    Machine :=
  if now - s.client.lastPayTimeMs < cfg.clientRetryIntervalMs.toInt64 then s
  else if s.client.gwIp = [] then s
  else match clientPay parse s.funds (amountSats cfg s.client.discovery) pay with
    | (f, .ok allotment) => ⟨{ s.client with retryCount := 0 }.bought allotment paidAt, f⟩
    -- the time is set on a failure too, so that the next attempt waits
    | (f, .error _) =>
      ⟨{ s.client with
          lastPayTimeMs := paidAt
          retryCount := s.client.retryCount + 1
          state := .error }, f⟩

/-- `tollgate_client_query_usage`, and what the tick keeps of it. -/
def Client.queryUsage (c : Client) (reply : Option Reply) : Client :=
  match reply with
  | none => c
  | some r =>
    if r.status ≠ 200 then c
    else match clientParseUsage (r.text 256) with
      | none => c
      | some (remaining, total) => { c with remainingMs := remaining, allotmentMs := total }

/-- `tollgate_client_tick` in `TG_CLIENT_PAID` and `TG_CLIENT_RENEWING`. -/
def tickPaid (s : Machine) (cfg : Config) (usage : Option Reply) (pay : Attempt) (paidAt : Int64) :
    Machine :=
  if s.client.gwIp = [] then s
  else
    let c := s.client.queryUsage usage
    -- the test goes by the last figures when the query failed
    if clientShouldRenew c.remainingMs c.allotmentMs cfg.clientRenewalThresholdPct then
      match clientPay parse s.funds (amountSats cfg c.discovery) pay with
      | (f, .ok allotment) => ⟨c.bought allotment paidAt, f⟩
      | (f, .error _) => ⟨{ c with state := .error, lastPayTimeMs := paidAt }, f⟩
    else { s with client := c }

/-- `tollgate_client_tick`. -/
def clientTick (s : Machine) (cfg : Config) (now : Int64) (usage : Option Reply) (pay : Attempt)
    (paidAt : Int64) : Machine :=
  match s.client.state with
  | .error => tickError parse s cfg now pay paidAt
  | .paid | .renewing => tickPaid parse s cfg usage pay paidAt
  | _ => s

/-- One call. -/
def step (s : Machine) : Input → Machine
  | .staConnected cfg gwIp detectBuf discovery pay paidAt =>
    (onStaConnected parse s cfg gwIp detectBuf discovery pay paidAt).1
  | .staDisconnected => onStaDisconnected s
  | .tick cfg now usage pay paidAt => clientTick parse s cfg now usage pay paidAt

/-! ### Payments along a run -/

/-- A tick finds that a payment is due: after an error when the time to retry has come, and for a
session when it runs low. -/
def Client.due (c : Client) (cfg : Config) (now : Int64) (usage : Option Reply) : Bool :=
  match c.state with
  | .error => decide (¬ now - c.lastPayTimeMs < cfg.clientRetryIntervalMs.toInt64)
  | .paid | .renewing =>
    clientShouldRenew (c.queryUsage usage).remainingMs (c.queryUsage usage).allotmentMs
      cfg.clientRenewalThresholdPct
  | _ => false

/-- The payment that a call makes: the amount, and the attempt. -/
def payment (s : Machine) : Input → Option (Int32 × Attempt)
  | .staConnected cfg _ detectBuf discovery pay _ =>
    let r := clientDetect parse detectBuf discovery s.client.discovery
    if cfg.clientEnabled ∧ r.2.isOk then some (amountSats cfg r.1, pay) else none
  | .staDisconnected => none
  | .tick cfg now usage pay _ =>
    if s.client.due cfg now usage ∧ s.client.gwIp ≠ [] then
      some (amountSats cfg s.client.discovery, pay)
    else none

/-- The swap that an attempt makes, if it comes that far. -/
def attemptSwap (f : Funds) (amountSats : Int32) (a : Attempt) : Option Exchange :=
  if f.purse.balance < amountSats.toInt64.toUInt64 ∨ a.tokenBuf = false then none
  else (exchange a.lib f.purse amountSats.toInt64.toUInt64).2

/-- A call makes a token. -/
def Creates (s : Machine) (input : Input) : Prop :=
  ∃ p ∈ payment parse s input, ∃ x ∈ attemptSwap s.funds p.1 p.2, x.Fits p.2.lib 8192

instance (s : Machine) (input : Input) : Decidable (Creates parse s input) :=
  inferInstanceAs (Decidable (∃ p ∈ payment parse s input, ∃ x ∈ attemptSwap s.funds p.1 p.2, _))

/-- What is in the wallet and what was paid for. -/
def Funds.total (f : Funds) : ℕ := f.purse.spendable + f.granted + f.fees

/-- The machine after boot. -/
def boot (purse : Purse) : Machine := ⟨.init, purse, 0, 0⟩

/-- Before a token is made, all the money is in the wallet or was paid for a session or a fee: the
tokens that bought no session are back. The client keeps no token from one call to the next. -/
def Recovered (purse : Purse) (inputs : List Input) : Prop :=
  ∀ front input back, inputs = front ++ input :: back →
    Creates parse (StepRun.run (step parse) (boot purse) front) input →
    (StepRun.run (step parse) (boot purse) front).funds.total = purse.spendable

/-- The libraries of the payments keep their promises. -/
def LawfulPayment (s : Machine) (input : Input) : Prop :=
  ∀ p ∈ payment parse s input, p.2.lib.Lawful s.funds.purse

/-- A payment loses nothing: once the swap is made, the token fits its buffer and the upstream
grants a session for it, or what would be lost is worth nothing. -/
def Attempt.LosesNothing (a : Attempt) (f : Funds) (amount : Int32) : Prop :=
  ∀ x ∈ attemptSwap f amount a,
    (x.Fits a.lib 8192 ∧ ((a.grant parse).isOk = true ∨ worth x.token.proofs = 0)) ∨
      (¬ x.Fits a.lib 8192 ∧ worth x.selected = 0)

/-- The payment of a call, if it makes one, loses nothing. -/
def LosesNothing (s : Machine) (input : Input) : Prop :=
  ∀ p ∈ payment parse s input, p.2.LosesNothing parse s.funds p.1

instance (a : Attempt) (f : Funds) (amount : Int32) : Decidable (a.LosesNothing parse f amount) :=
  inferInstanceAs (Decidable (∀ x ∈ attemptSwap f amount a, _ ∨ _))

instance (s : Machine) (input : Input) : Decidable (LosesNothing parse s input) :=
  inferInstanceAs (Decidable (∀ p ∈ payment parse s input, _))

/-! ### What a call does to the money -/

variable {parse}

theorem funds_onStaConnected (s : Machine) (cfg : Config) (gwIp : CStr) (detectBuf : Bool)
    (discovery : Option Reply) (pay : Attempt) (paidAt : Int64) :
    (onStaConnected parse s cfg gwIp detectBuf discovery pay paidAt).1.funds =
      if cfg.clientEnabled ∧ (clientDetect parse detectBuf discovery s.client.discovery).2.isOk then
        (clientPay parse s.funds (amountSats cfg
          (clientDetect parse detectBuf discovery s.client.discovery).1) pay).1
      else s.funds := by
  unfold onStaConnected
  cases hdisabled : cfg.clientEnabled with
  | false => simp
  | true =>
    dsimp only
    rcases clientDetect parse detectBuf discovery s.client.discovery with ⟨d, e | _⟩
    · -- no TollGate, and no payment
      simp [Except.isOk, Except.toBool]
    · rcases hpay : clientPay parse s.funds (amountSats cfg d) pay with ⟨f, e | allotment⟩
      all_goals simp [Except.isOk, Except.toBool, hpay]

@[simp] theorem discovery_queryUsage (c : Client) (reply : Option Reply) :
    (c.queryUsage reply).discovery = c.discovery := by
  unfold Client.queryUsage
  split
  · rfl
  · split
    · rfl
    · split <;> rfl

theorem funds_tickError (s : Machine) (cfg : Config) (now : Int64) (pay : Attempt)
    (paidAt : Int64) :
    (tickError parse s cfg now pay paidAt).funds =
      if ¬ now - s.client.lastPayTimeMs < cfg.clientRetryIntervalMs.toInt64 ∧
          s.client.gwIp ≠ [] then
        (clientPay parse s.funds (amountSats cfg s.client.discovery) pay).1
      else s.funds := by
  unfold tickError
  split
  next hearly => rw [if_neg fun h => h.1 hearly]
  next hdue =>
    split
    next hip => rw [if_neg fun h => h.2 hip]
    next hip =>
      rw [if_pos ⟨hdue, hip⟩]
      split
      next f allotment hpay => rw [hpay]
      next f e hpay => rw [hpay]

theorem funds_tickPaid (s : Machine) (cfg : Config) (usage : Option Reply) (pay : Attempt)
    (paidAt : Int64) :
    (tickPaid parse s cfg usage pay paidAt).funds =
      if clientShouldRenew (s.client.queryUsage usage).remainingMs
          (s.client.queryUsage usage).allotmentMs cfg.clientRenewalThresholdPct ∧
          s.client.gwIp ≠ [] then
        (clientPay parse s.funds (amountSats cfg s.client.discovery) pay).1
      else s.funds := by
  unfold tickPaid
  split
  next hip => rw [if_neg fun h => h.2 hip]
  next hip =>
    dsimp only
    split
    next hrenew =>
      rw [if_pos ⟨hrenew, hip⟩, discovery_queryUsage]
      split
      next f allotment hpay => rw [hpay]
      next f e hpay => rw [hpay]
    next hrenew => rw [if_neg fun h => hrenew h.1]

/-- A call moves money through its payment only. -/
theorem funds_step (s : Machine) (input : Input) :
    (step parse s input).funds = (payment parse s input).elim s.funds fun p =>
      (clientPay parse s.funds p.1 p.2).1 := by
  cases input with
  | staDisconnected => rfl
  | staConnected cfg gwIp detectBuf discovery pay paidAt =>
    rw [step, funds_onStaConnected, payment]
    split <;> rfl
  | tick cfg now usage pay paidAt =>
    rw [step, clientTick, payment, Client.due]
    cases s.client.state with
    | error =>
      -- a retry, when its time has come
      dsimp only
      simp only [funds_tickError, decide_eq_true_eq]
      split <;> rfl
    | paid | renewing =>
      -- a renewal, when the session runs low
      dsimp only
      rw [funds_tickPaid]
      split <;> rfl
    | idle | detecting | noTollgate | needsPay | paying | mining => simp

section Pay

variable {f : Funds} {a : Attempt}

/-- A payment that stops before the wallet is asked changes nothing. -/
theorem clientPay_of_stopped {amount : Int32}
    (h : f.purse.balance < amount.toInt64.toUInt64 ∨ a.tokenBuf = false) :
    attemptSwap f amount a = none ∧ (clientPay parse f amount a).1 = f := by
  refine ⟨if_pos h, ?_⟩
  unfold clientPay
  split
  next => rfl
  next hrich => rw [h.resolve_left hrich, Bool.not_false, if_pos rfl]

/-- The ways a payment can go: no swap is made; the token buys a session; it was made and is lost;
or it is lost in the wallet already. -/
theorem clientPay_cases (hvalid : f.purse.Valid) (hlaw : a.lib.Lawful f.purse) (amount : Int32) :
    (clientPay parse f amount a).1.purse.Valid ∧
      ((attemptSwap f amount a = none ∧ (clientPay parse f amount a).1.total = f.total) ∨
        ∃ x, attemptSwap f amount a = some x ∧
          ((x.Fits a.lib 8192 ∧ (a.grant parse).isOk = true ∧
              (clientPay parse f amount a).1.total = f.total) ∨
            (x.Fits a.lib 8192 ∧ (a.grant parse).isOk = false ∧
              (clientPay parse f amount a).1.total + worth x.token.proofs = f.total) ∨
            (¬ x.Fits a.lib 8192 ∧
              (clientPay parse f amount a).1.total + worth x.selected = f.total))) := by
  by_cases hstopped : f.purse.balance < amount.toInt64.toUInt64 ∨ a.tokenBuf = false
  · obtain ⟨hnone, hsame⟩ := @clientPay_of_stopped parse _ _ _ hstopped
    rw [hsame]
    exact ⟨hvalid, .inl ⟨hnone, rfl⟩⟩
  · obtain ⟨hrich, hbuf⟩ := not_or.mp hstopped
    have hswap : attemptSwap f amount a = (exchange a.lib f.purse amount.toInt64.toUInt64).2 :=
      if_neg hstopped
    unfold clientPay
    rw [hswap, if_neg hrich, eq_true_of_ne_false hbuf, Bool.not_true, if_neg Bool.false_ne_true]
    rcases nuculaWalletSend_cases hvalid hlaw amount.toInt64.toUInt64 8192 with
      ⟨hnone, purse, hsend, hvalid', hsame⟩ | ⟨w, x, -, hsome, hrest⟩
    · rw [hnone, hsend]
      exact ⟨hvalid', .inl ⟨rfl, by rw [Funds.total, Funds.total, hsame]⟩⟩
    · rw [hsome]
      rcases hrest with ⟨hfits, purse, hsend, hvalid', hkept⟩ |
        ⟨hfits, purse, hsend, hvalid', hdropped⟩
      · rw [hsend]
        dsimp only
        cases hgrant : a.grant parse with
        | ok allotment =>
          -- what the wallet gave is paid for
          refine ⟨hvalid', .inr ⟨x, rfl, .inl ⟨hfits, rfl, ?_⟩⟩⟩
          simp only [Funds.total]
          omega
        | error e =>
          -- the token is in nobody's hands
          refine ⟨hvalid', .inr ⟨x, rfl, .inr (.inl ⟨hfits, rfl, ?_⟩)⟩⟩
          simp only [Funds.total]
          omega
      · -- the wallet made the swap and handed nothing out
        rw [hsend]
        refine ⟨hvalid', .inr ⟨x, rfl, .inr (.inr ⟨hfits, ?_⟩)⟩⟩
        simp only [Funds.total]
        omega

/-- A payment never brings money, and it keeps all of it exactly if it loses nothing. -/
theorem clientPay_total (hvalid : f.purse.Valid) (hlaw : a.lib.Lawful f.purse) (amount : Int32) :
    (clientPay parse f amount a).1.total ≤ f.total ∧
      ((clientPay parse f amount a).1.total = f.total ↔ a.LosesNothing parse f amount) := by
  unfold Attempt.LosesNothing
  rcases (@clientPay_cases parse _ _ hvalid hlaw amount).2 with
    ⟨hnone, htotal⟩ | ⟨x, hsome, hcase⟩
  · rw [hnone]
    exact ⟨htotal.le, iff_of_true htotal fun x hx => absurd hx (by simp)⟩
  · rw [hsome]
    simp only [Option.mem_def, Option.some.injEq, forall_eq']
    rcases hcase with ⟨hfits, hgrant, htotal⟩ | ⟨hfits, hgrant, htotal⟩ | ⟨hfits, htotal⟩
    · exact ⟨htotal.le, iff_of_true htotal (.inl ⟨hfits, .inl hgrant⟩)⟩
    · -- lost, unless the token was worth nothing
      refine ⟨by omega, ?_⟩
      simp only [hfits, hgrant, Bool.false_eq_true, false_or, true_and, not_true, false_and,
        or_false]
      omega
    · refine ⟨by omega, ?_⟩
      simp only [hfits, false_and, not_false_eq_true, true_and, false_or]
      omega

end Pay

/-- The same for a call. -/
theorem step_total (s : Machine) (input : Input) (hvalid : s.funds.purse.Valid)
    (hlaw : LawfulPayment parse s input) :
    (step parse s input).funds.purse.Valid ∧
      (step parse s input).funds.total ≤ s.funds.total ∧
      ((step parse s input).funds.total = s.funds.total ↔ LosesNothing parse s input) := by
  rw [funds_step]
  unfold LawfulPayment LosesNothing at *
  cases hpay : payment parse s input with
  | none => exact ⟨hvalid, le_rfl, iff_of_true rfl fun p h => absurd h (by simp)⟩
  | some p =>
    have hlawful := hlaw p hpay
    obtain ⟨hle, hkeep⟩ := @clientPay_total parse _ _ hvalid hlawful p.1
    refine ⟨(clientPay_cases hvalid hlawful p.1).1, hle, hkeep.trans ⟨?_, fun h => h p rfl⟩⟩
    rintro h p' heq
    obtain rfl := Option.some.inj heq
    exact h

/-- **Exactly when failed payments are recovered.** For every run of the client from boot and
libraries that keep their promises: whenever a token is made, all payments before it lost
nothing. -/
theorem payments_recovered_iff (purse : Purse) (inputs : List Input) (hvalid : purse.Valid)
    (hlaw : StepRun.AllSteps (step parse) (LawfulPayment parse) (boot purse) inputs) :
    Recovered parse purse inputs ↔
      ∀ front input back, inputs = front ++ input :: back →
        Creates parse (StepRun.run (step parse) (boot purse) front) input →
        StepRun.AllSteps (step parse) (LosesNothing parse) (boot purse) front := by
  refine forall_congr' fun front => forall_congr' fun input => forall_congr' fun back =>
    forall_congr' fun hinputs => forall_congr' fun _ => ?_
  rw [hinputs] at hlaw
  -- the state in question is the one after `front`
  have hfront := ((StepRun.allSteps_append front (input :: back)).mp hlaw).1
  have hloss := StepRun.run_loss (f := fun s : Machine => s.funds.total)
    (P := fun s : Machine => s.funds.purse.Valid) step_total hvalid hfront
  exact hloss.2

end Machine

/-- The attempt that comes with an input. -/
def Input.attempt : Input → Option Attempt
  | .staConnected _ _ _ _ pay _ => some pay
  | .staDisconnected => none
  | .tick _ _ _ pay _ => some pay

theorem attempt_of_payment {parse : CStr → Option Json} {s : Machine} {input : Input}
    {p : Int32 × Attempt} (h : p ∈ payment parse s input) : input.attempt = some p.2 := by
  cases input with
  | staDisconnected => exact absurd h (by simp [payment])
  | staConnected cfg gwIp detectBuf discovery pay paidAt =>
    rw [payment, Option.mem_def, Option.ite_none_right_eq_some] at h
    rw [← Option.some.inj h.2]
    rfl
  | tick cfg now usage pay paidAt =>
    rw [payment, Option.mem_def, Option.ite_none_right_eq_some] at h
    rw [← Option.some.inj h.2]
    rfl

/-- The document of an upstream that takes 21 sats for a step. -/
def discoveryText : CStr :=
  cstr "\x7b\"kind\":10021,\"tags\":[[\"price_per_step\",\"cashu\",\"21\",\"sat\",\"m\",\"1\"]]\x7d"

/-- The session that it sells. -/
def sessionText : CStr := cstr "\x7b\"kind\":1022,\"tags\":[[\"allotment\",\"60000\"]]\x7d"

/-- A tree with a kind and one tag. -/
def taggedTree (kind : Int32) (tag : List String) : Json :=
  .object [(cstr "kind", .number (.ofInt kind)),
    (cstr "tags", .array [.array (tag.map fun s => .string (cstr s))])]

/-- The parser on these texts. -/
def sampleParse (text : CStr) : Option Json :=
  if text = discoveryText then
    some (taggedTree 10021 ["price_per_step", "cashu", "21", "sat", "m", "1"])
  else if text = sessionText then some (taggedTree 1022 ["allotment", "60000"])
  else none

/-- The defaults of the configuration. -/
def sampleConfig : Config := ⟨true, 1, 20, 30000⟩

/-- A connection to it, and how it answers the payment. -/
def connection (post : Reply) : Input :=
  .staConnected sampleConfig (cstr "10.0.0.1") true (some ⟨200, discoveryText⟩)
    ⟨sampleLibrary, true, true, some post⟩ 1000

/-- What the mint gives for the change of the first payment. -/
def secondSwap : Swap where
  newProofs := [⟨16, cstr "i"⟩, ⟨4, cstr "j"⟩, ⟨1, cstr "k"⟩]
  change := [⟨16, cstr "l"⟩, ⟨4, cstr "m"⟩, ⟨2, cstr "n"⟩]
  fee := 0

/-- A tick forty seconds later, with what it learns of the usage. -/
def laterTick (usage : Option Reply) : Input :=
  .tick sampleConfig 41000 usage
    ⟨swapLibrary sampleSwap.change secondSwap, true, true, some ⟨200, sessionText⟩⟩ 41001

theorem sample_lawful (post : Reply) (usage : Option Reply)
    (hunspent : ∀ p ∈ sampleSwap.change,
      (step sampleParse (boot samplePurse) (connection post)).funds.purse.spent p = false)
    (hfresh : ∀ p ∈ secondSwap.change,
      (step sampleParse (boot samplePurse) (connection post)).funds.purse.spent p = false ∧
        p ∉ (step sampleParse (boot samplePurse) (connection post)).funds.purse.proofs) :
    StepRun.AllSteps (step sampleParse) (LawfulPayment sampleParse) (boot samplePurse)
      [connection post, laterTick usage] := by
  refine ⟨?_, ?_, trivial⟩
  · intro p hp
    rw [← Option.some.inj (attempt_of_payment hp)]
    exact sampleLibrary_lawful
  · intro p hp
    rw [← Option.some.inj (attempt_of_payment hp)]
    exact swapLibrary_lawful (by decide) (by decide) hunspent ⟨by decide, hfresh⟩

/-- The upstream turns the first token away. It is gone, and the next tick makes another one. -/
theorem rejected_token_lost :
    samplePurse.Valid ∧
      StepRun.AllSteps (step sampleParse) (LawfulPayment sampleParse) (boot samplePurse)
        [connection ⟨402, []⟩, laterTick none] ∧
      ¬ Recovered sampleParse samplePurse [connection ⟨402, []⟩, laterTick none] := by
  refine ⟨samplePurse_valid, sample_lawful _ _ (by decide +kernel) (by decide +kernel), ?_⟩
  intro h
  have hcreates : Creates sampleParse (step sampleParse (boot samplePurse) (connection ⟨402, []⟩))
      (laterTick none) := by
    decide +kernel
  have hlost : (step sampleParse (boot samplePurse) (connection ⟨402, []⟩)).funds.total ≠
      samplePurse.spendable := by
    decide +kernel
  have hbefore := h [connection ⟨402, []⟩] (laterTick none) [] rfl
  rw [StepRun.run_cons, StepRun.run_nil] at hbefore
  exact hlost (hbefore hcreates)

/-- A session that is granted and renewed. -/
theorem payments_recovered_of_session :
    Creates sampleParse (step sampleParse (boot samplePurse) (connection ⟨200, sessionText⟩))
        (laterTick (some ⟨200, cstr "5000/60000"⟩)) ∧
      Recovered sampleParse samplePurse
        [connection ⟨200, sessionText⟩, laterTick (some ⟨200, cstr "5000/60000"⟩)] := by
  refine ⟨by decide +kernel, ?_⟩
  have hlaw := sample_lawful ⟨200, sessionText⟩ (some ⟨200, cstr "5000/60000"⟩)
    (by decide +kernel) (by decide +kernel)
  rw [payments_recovered_iff samplePurse _ samplePurse_valid hlaw]
  intro front input back hinputs _
  have hfirst : LosesNothing sampleParse (boot samplePurse) (connection ⟨200, sessionText⟩) := by
    decide +kernel
  match front, hinputs with
  | [], _ => trivial
  | [_], hinputs =>
    rw [List.singleton_append] at hinputs
    obtain ⟨rfl, -⟩ := List.cons.inj hinputs
    exact ⟨hfirst, trivial⟩
  | _ :: _ :: front, hinputs =>
    have hlength := congrArg List.length hinputs
    simp at hlength

end Upstream

end TollGate
