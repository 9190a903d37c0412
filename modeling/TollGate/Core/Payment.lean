import TollGate.Core.Cashu
import TollGate.Core.Client

/-!
# Processing a payment

`tollgate_core_process_payment` checks a token, has the platform spend it, turns
its value into an allotment and sells the client a session for it. The platform
callbacks are optional and answer as they like (`Platform`); what the mint answers
to the state check is an input too.

The spend comes before the allotment and the session. `payment_atomic_iff` says
exactly what that costs: a call that returns an error leaves the tables as they
were, always, and leaves the token unspent unless the platform spent it and then
either the allotment is zero or the client is new and there is no slot.
-/

namespace TollGate

namespace Core

open Cashu

/-! ### The platform -/

/-- The callbacks of `tollgate_platform_t` that payments use, each with the answer it
gives; `none` is a `NULL` callback. -/
structure Platform where
  getPriceSats : Option UInt16
  getStepMs : Option Int32
  /-- The callback may itself return `NULL`. -/
  getMintUrl : Option (Option CStr)
  getMetric : Option CStr
  getStepBytes : Option Int32
  spendProofs : Option (CStr → Bool)

namespace Platform

variable (p : Platform)

/-- The `accepted_mint` of `tollgate_core_process_payment`. -/
def mintUrl : Option CStr := p.getMintUrl.join

/-- The `metric` of `tollgate_core_process_payment`. -/
def metric : CStr := p.getMetric.getD (cstr "milliseconds")

/-- `(uint64_t)` of a 32-bit signed number. -/
def toUInt64 (n : Int32) : UInt64 := n.toInt64.toUInt64

/-- The `price` of `tollgate_core_process_payment`. -/
def price : UInt64 := (p.getPriceSats.getD 21).toUInt64

/-- The `step_size` of `tollgate_core_process_payment`. -/
def stepSize : UInt64 :=
  if p.metric = cstr "bytes" then (p.getStepBytes.map toUInt64).getD 22020096
  else (p.getStepMs.map toUInt64).getD 60000

/-- The `allotment` of `tollgate_core_process_payment`. -/
def allotment (token : Token) : UInt64 := calculateAllotment token.totalAmount p.price p.stepSize

end Platform

/-! ### The payment -/

/-- What a payment leaves: the tables, whether `ESP_OK` was returned, and whether a
call of `spend_proofs` succeeded. -/
structure PaymentOutcome where
  core : Core
  ok : Bool
  tokenSpent : Bool

/-- An error return that has touched nothing. -/
def rejectPayment (c : Core) : PaymentOutcome := ⟨c, false, false⟩

/-- The end of `tollgate_core_process_payment`, behind the spend. -/
def settlePayment (p : Platform) (env : Env) (c : Core) (ip : Ip) (token : Token)
    (tokenSpent : Bool) : PaymentOutcome :=
  let allotment := p.allotment token
  if allotment = 0 then ⟨c, false, tokenSpent⟩
  else
    let r := c.sell (p.metric = cstr "bytes") env ip allotment
    ⟨r.1, r.2.isSome, tokenSpent⟩

/-- The checks of `tollgate_core_process_payment` in front of the spend. -/
def checkToken (codec : Codec) (p : Platform) (reply : HttpReply) (text : CStr) : Option Token :=
  match p.mintUrl with
  | none => none
  | some acceptedMint =>
    if acceptedMint = [] then none
    else
      match decodeToken codec text with
      | none => none
      | some token =>
        if !isMintAccepted token.mintUrl acceptedMint then none
        else
          match checkProofStates codec reply token with
          | none => none
          | some states => if states.any id then none else some token

/-- `tollgate_core_process_payment`. -/
def processPayment (codec : Codec) (platform : Option Platform) (env : Env) (reply : HttpReply)
    (c : Core) (ip : Ip) (tokenStr : Option CStr) : PaymentOutcome :=
  match platform, tokenStr with
  | some p, some text =>
    match checkToken codec p reply text with
    | none => rejectPayment c
    | some token =>
      match p.spendProofs with
      | some spendProofs =>
        if !spendProofs text then rejectPayment c else settlePayment p env c ip token true
      | none => settlePayment p env c ip token false
  | _, _ => rejectPayment c

section Outcomes

variable {codec : Codec} {platform : Option Platform} {p : Platform} {env : Env}
  {reply : HttpReply} {c : Core} {ip : Ip} {text : CStr} {tokenStr : Option CStr} {token : Token}

/-- The token passes every check in front of the spend: it decodes, it names the
accepted mint, and the mint's answer says `SPENT` of none of its proofs. -/
structure Passes (codec : Codec) (p : Platform) (reply : HttpReply) (text : CStr)
    (token : Token) : Prop where
  decoded : decodeToken codec text = some token
  mint : token.mintUrl ≠ [] ∧ p.mintUrl = some token.mintUrl
  unspent : ∃ states, checkProofStates codec reply token = some states ∧ states.any id = false

theorem Passes.unique {token' : Token} (h : Passes codec p reply text token)
    (h' : Passes codec p reply text token') : token = token' :=
  Option.some.inj (h.decoded.symm.trans h'.decoded)

theorem checkToken_eq_some_iff :
    checkToken codec p reply text = some token ↔ Passes codec p reply text token := by
  unfold checkToken
  refine ⟨?_, ?_⟩
  · intro h
    -- each check is passed in turn, in the order of the source; a failed one returns `none`
    split at h
    · exact absurd h (Option.some_ne_none token).symm
    · next accepted hmint =>
      split at h
      · exact absurd h (Option.some_ne_none token).symm
      · split at h
        · exact absurd h (Option.some_ne_none token).symm
        · next token' hdec =>
          split at h
          · exact absurd h (Option.some_ne_none token).symm
          · next hacc =>
            split at h
            · exact absurd h (Option.some_ne_none token).symm
            · next states hstates =>
              split at h
              · exact absurd h (Option.some_ne_none token).symm
              · next hany =>
                obtain rfl : token' = token := Option.some.inj h
                rw [Bool.not_eq_true, Bool.not_eq_false', isMintAccepted_iff] at hacc
                obtain ⟨hne, rfl⟩ := hacc
                exact ⟨hdec, ⟨hne, hmint⟩, states, hstates, by simpa using hany⟩
  · rintro ⟨hdec, ⟨hne, hmint⟩, states, hstates, hany⟩
    have hacc : isMintAccepted token.mintUrl token.mintUrl = true :=
      isMintAccepted_iff.mpr ⟨hne, rfl⟩
    simp [hmint, hne, hdec, hacc, hstates, hany]

/-- No `spend_proofs` callback refuses the token. -/
def Platform.Spends (p : Platform) (text : CStr) : Prop :=
  ∀ spendProofs, p.spendProofs = some spendProofs → spendProofs text = true

/-- **What a payment does.** Its token passes every check, is not refused by
`spend_proofs` and is settled; or the payment is rejected with nothing touched. -/
theorem processPayment_cases (codec : Codec) (p : Platform) (env : Env) (reply : HttpReply)
    (c : Core) (ip : Ip) (text : CStr) :
    (∃ token, Passes codec p reply text token ∧ p.Spends text ∧
      processPayment codec (some p) env reply c ip (some text) =
        settlePayment p env c ip token p.spendProofs.isSome) ∨
    ((∀ token, Passes codec p reply text token → ¬ p.Spends text) ∧
      processPayment codec (some p) env reply c ip (some text) = rejectPayment c) := by
  unfold processPayment
  cases hcheck : checkToken codec p reply text with
  | none =>
    refine Or.inr ⟨fun token hpass => ?_, by simp only [hcheck]⟩
    rw [checkToken_eq_some_iff.mpr hpass] at hcheck
    exact absurd hcheck (Option.some_ne_none token)
  | some token =>
    have hpass := checkToken_eq_some_iff.mp hcheck
    -- the token passed; what is left is the optional `spend_proofs`
    unfold Platform.Spends
    cases hspend : p.spendProofs with
    | none =>
      refine Or.inl ⟨token, hpass, fun f hf => absurd hf.symm (Option.some_ne_none f), ?_⟩
      simp [hcheck, hspend]
    | some f =>
      cases hf : f text with
      | true =>
        refine Or.inl ⟨token, hpass, fun f' hf' => Option.some.inj hf' ▸ hf, ?_⟩
        simp [hcheck, hspend, hf]
      | false =>
        refine Or.inr ⟨fun _ _ hspends => ?_, by simp [hcheck, hspend, hf]⟩
        rw [hspends f rfl] at hf
        exact absurd hf Bool.noConfusion

/-! ### Atomicity -/

/-- The call is atomic: after an error the token is unspent and the tables are as
they were. -/
def Atomic (c : Core) (o : PaymentOutcome) : Prop :=
  o.ok = false → o.tokenSpent = false ∧ o.core = c

/-- The client cannot be given a session for the token. -/
def CannotSettle (p : Platform) (env : Env) (c : Core) (ip : Ip) (token : Token) : Prop :=
  p.allotment token = 0 ∨ (c.findByIp ip = none ∧ c.NoSlot env)

/-- The part behind the spend fails exactly when no session can be given, and a
failure leaves the tables alone. -/
theorem settlePayment_spec (p : Platform) (env : Env) (c : Core) (ip : Ip) (token : Token)
    (spent : Bool) :
    (settlePayment p env c ip token spent).tokenSpent = spent ∧
      ((settlePayment p env c ip token spent).ok = false ↔ CannotSettle p env c ip token) ∧
      ((settlePayment p env c ip token spent).ok = false →
        (settlePayment p env c ip token spent).core = c) := by
  unfold settlePayment CannotSettle
  by_cases hzero : p.allotment token = 0
  · simp [hzero]
  · have hiff := sell_eq_none_iff (p.metric = cstr "bytes") env c ip (p.allotment token)
    simp only [hzero, if_false, false_or, Option.isSome_eq_false_iff, Option.isNone_iff_eq_none]
    -- a refused sale returns the tables it was given
    refine ⟨trivial, hiff, fun hnone => ?_⟩
    obtain ⟨hs, hslot⟩ := hiff.mp hnone
    rw [sell_eq_of_refused (clientSession_eq_none_iff.mpr hs) (slotForNew_eq_none_iff.mpr hslot)]

theorem settlePayment_atomic_iff (p : Platform) (env : Env) (c : Core) (ip : Ip) (token : Token)
    (spent : Bool) :
    Atomic c (settlePayment p env c ip token spent) ↔
      ¬ (spent = true ∧ CannotSettle p env c ip token) := by
  obtain ⟨hspent, hok, hsame⟩ := settlePayment_spec p env c ip token spent
  unfold Atomic
  rw [hspent]
  refine ⟨?_, ?_⟩
  · -- the spend is not undone
    rintro h ⟨rfl, hcannot⟩
    exact absurd (h (hok.mpr hcannot)).1 Bool.noConfusion
  · intro h hfail
    refine ⟨?_, hsame hfail⟩
    rw [← Bool.not_eq_true]
    exact fun hs => h ⟨hs, hok.mp hfail⟩

theorem rejectPayment_atomic (c : Core) : Atomic c (rejectPayment c) := fun _ => ⟨rfl, rfl⟩

theorem processPayment_ok_iff :
    (processPayment codec (some p) env reply c ip (some text)).ok = true ↔
      ∃ token, Passes codec p reply text token ∧ p.Spends text ∧
        ¬ CannotSettle p env c ip token := by
  obtain ⟨token, hpass, hspends, heq⟩ | ⟨hnot, heq⟩ :=
    processPayment_cases codec p env reply c ip text
  · obtain ⟨-, hok, -⟩ := settlePayment_spec p env c ip token p.spendProofs.isSome
    rw [heq, ← Bool.not_eq_false, hok]
    refine ⟨?_, ?_⟩
    · exact fun hcan => ⟨token, hpass, hspends, hcan⟩
    · rintro ⟨token', hpass', -, hcan⟩
      rw [hpass.unique hpass']
      exact hcan
  · rw [heq]
    refine iff_of_false Bool.false_ne_true ?_
    rintro ⟨token, hpass, hspends, -⟩
    exact hnot token hpass hspends

/-- The tables after a payment: the sale of the allotment, or nothing. -/
theorem core_processPayment (codec : Codec) (p : Platform) (env : Env) (reply : HttpReply)
    (c : Core) (ip : Ip) (text : CStr) :
    ((processPayment codec (some p) env reply c ip (some text)).ok = false →
      (processPayment codec (some p) env reply c ip (some text)).core = c) ∧
    ((processPayment codec (some p) env reply c ip (some text)).ok = true →
      ∃ token, decodeToken codec text = some token ∧
        (processPayment codec (some p) env reply c ip (some text)).core =
          (c.sell (p.metric = cstr "bytes") env ip (p.allotment token)).1) := by
  obtain ⟨token, hpass, -, heq⟩ | ⟨-, heq⟩ := processPayment_cases codec p env reply c ip text
  · obtain ⟨-, -, hsame⟩ := settlePayment_spec p env c ip token p.spendProofs.isSome
    rw [heq]
    refine ⟨hsame, fun hok => ⟨token, hpass.decoded, ?_⟩⟩
    unfold settlePayment at hok ⊢
    by_cases hzero : p.allotment token = 0
    · simp [hzero] at hok
    · simp only [hzero, if_false]
  · rw [heq]
    exact ⟨fun _ => rfl, fun hok => absurd hok Bool.false_ne_true⟩

/-- **When a failed payment leaves no trace.** For every state, client, token text,
answer of the mint and behaviour of the platform callbacks: the call is atomic if
and only if it is not the case that the token passes every check, `spend_proofs`
spends it, and then the allotment is zero or the client has no session and there is
no slot for a new one. -/
theorem payment_atomic_iff (codec : Codec) (platform : Option Platform) (env : Env)
    (reply : HttpReply) (c : Core) (ip : Ip) (tokenStr : Option CStr) :
    Atomic c (processPayment codec platform env reply c ip tokenStr) ↔
      ¬ ∃ p text token spendProofs, platform = some p ∧ tokenStr = some text ∧
        Passes codec p reply text token ∧
        p.spendProofs = some spendProofs ∧ spendProofs text = true ∧
        CannotSettle p env c ip token := by
  cases platform with
  | none =>
    -- without a platform nothing is called
    refine iff_of_true (rejectPayment_atomic c) ?_
    rintro ⟨p, -, -, -, hp, -⟩
    exact absurd hp.symm (Option.some_ne_none p)
  | some p =>
    cases tokenStr with
    | none =>
      refine iff_of_true (rejectPayment_atomic c) ?_
      rintro ⟨-, text, -, -, -, htext, -⟩
      exact absurd htext.symm (Option.some_ne_none text)
    | some text =>
      obtain ⟨token, hpass, hspends, heq⟩ | ⟨hnot, heq⟩ :=
        processPayment_cases codec p env reply c ip text
      · -- a settled payment: `tokenSpent` says whether there is a callback
        rw [heq, settlePayment_atomic_iff]
        refine not_congr ⟨?_, ?_⟩
        · rintro ⟨hsome, hcannot⟩
          obtain ⟨f, hf⟩ := Option.isSome_iff_exists.mp hsome
          exact ⟨p, text, token, f, rfl, rfl, hpass, hf, hspends f hf, hcannot⟩
        · rintro ⟨p', text', token', f, hp, htext, hpass', hf, -, hcannot⟩
          obtain rfl := Option.some.inj hp
          obtain rfl := Option.some.inj htext
          rw [hpass.unique hpass', hf]
          exact ⟨rfl, hcannot⟩
      · rw [heq]
        refine iff_of_true (rejectPayment_atomic c) ?_
        rintro ⟨p', text', token, f, hp, htext, hpass, hf, hspent, -⟩
        obtain rfl := Option.some.inj hp
        obtain rfl := Option.some.inj htext
        exact hnot token hpass fun f' hf' => Option.some.inj (hf.symm.trans hf') ▸ hspent

end Outcomes

/-! ### A token that is too small -/

/-- The JSON text of a token with one proof worth one sat. -/
def oneSatJson : CStr :=
  cstr "\x7b\"mint\":\"https://mint\",\"proofs\":[\x7b\"amount\":1,\"secret\":\"s\"\x7d]\x7d"

/-- The same in base64. -/
def oneSatBase64 : CStr :=
  cstr "eyJtaW50IjoiaHR0cHM6Ly9taW50IiwicHJvb2ZzIjpbeyJhbW91bnQiOjEsInNlY3JldCI6InMifV19"

/-- The JSON text of a token with one proof worth 21 sats. -/
def stepJson : CStr :=
  cstr "\x7b\"mint\":\"https://mint\",\"proofs\":[\x7b\"amount\":21,\"secret\":\"s\"\x7d]\x7d"

/-- The same in base64. -/
def stepBase64 : CStr :=
  cstr "eyJtaW50IjoiaHR0cHM6Ly9taW50IiwicHJvb2ZzIjpbeyJhbW91bnQiOjIxLCJzZWNyZXQiOiJzIn1dfQ=="

/-- The text of the token of one sat. -/
def oneSatToken : CStr := cstr "cashuA" ++ oneSatBase64

/-- The text of the token of 21 sats. -/
def stepToken : CStr := cstr "cashuA" ++ stepBase64

/-- An answer to the state check that knows of no spent proof. -/
def unspentText : CStr := cstr "\x7b\"states\":[\x7b\"state\":\"UNSPENT\"\x7d]\x7d"

/-- A proof with the secret `s`, as a JSON tree. -/
def proofTree (amount : UInt64) : CJson.Json :=
  .object [(cstr "amount", .number ⟨amount.toInt64.toInt32, amount, amount.toNat⟩),
    (cstr "secret", .string (cstr "s"))]

/-- A token with that proof, as a JSON tree. -/
def tokenTree (amount : UInt64) : CJson.Json :=
  .object [(cstr "mint", .string (cstr "https://mint")),
    (cstr "proofs", .array [proofTree amount])]

/-- mbedTLS and cJSON on these texts. -/
def sampleCodec : Codec where
  base64Decode input size :=
    if input = oneSatBase64 ∧ oneSatJson.length ≤ size then some oneSatJson
    else if input = stepBase64 ∧ stepJson.length ≤ size then some stepJson
    else none
  parse text :=
    if text = oneSatJson then some (tokenTree 1)
    else if text = stepJson then some (tokenTree 21)
    else if text = unspentText then
      some (.object [(cstr "states", .array [.object [(cstr "state", .string (cstr "UNSPENT"))]])])
    else none

/-- A platform that sells a minute for 21 sats and whose `spend_proofs` returns true,
as the one of the firmware does. -/
def samplePlatform : Platform where
  getPriceSats := some 21
  getStepMs := some 60000
  getMintUrl := some (some (cstr "https://mint"))
  getMetric := some (cstr "milliseconds")
  getStepBytes := some 22020096
  spendProofs := some fun _ => true

/-- A token of one sat passes the checks, is spent, and buys nothing: the call
returns an error and the customer's token is gone. -/
theorem oneSat_spent_for_nothing :
    (processPayment sampleCodec (some samplePlatform) (envAt 0 "milliseconds")
        (some (200, unspentText)) boot 2 (some oneSatToken)).ok = false ∧
      (processPayment sampleCodec (some samplePlatform) (envAt 0 "milliseconds")
        (some (200, unspentText)) boot 2 (some oneSatToken)).tokenSpent = true ∧
      ¬ Atomic boot (processPayment sampleCodec (some samplePlatform) (envAt 0 "milliseconds")
        (some (200, unspentText)) boot 2 (some oneSatToken)) := by
  have hfail : (processPayment sampleCodec (some samplePlatform) (envAt 0 "milliseconds")
      (some (200, unspentText)) boot 2 (some oneSatToken)).ok = false := by
    decide
  have hspent : (processPayment sampleCodec (some samplePlatform) (envAt 0 "milliseconds")
      (some (200, unspentText)) boot 2 (some oneSatToken)).tokenSpent = true := by
    decide
  refine ⟨hfail, hspent, fun h => ?_⟩
  rw [(h hfail).1] at hspent
  exact absurd hspent Bool.false_ne_true

end Core

end TollGate
