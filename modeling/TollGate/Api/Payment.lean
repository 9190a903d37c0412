import TollGate.Core.Config

/-!
# Payments over HTTP

`api_post_payment` in `tollgate_api.c` is a second implementation of the payment
protocol of `tollgate_core_process_payment`. It reads the configuration directly,
checks in its own order, sells the session first and hands the token to the wallet
last (`tls_worker_submit`).

It is cut into its three parts: the checks that need the token alone (`apiDecode`),
the answer of the mint (`apiUnspent`), and the sale (`apiCredit`). What makes it
accept is listed by `apiPostPayment_accepted_iff`.

The two implementations differ in three ways that the handler's own text decides. It
limits the body to 16384 bytes; it takes a token that names no mint for one of the
configured mint; and when the state check fails it goes on, relying on the wallet.
Outside of these they agree, and in the last two the core rejects
(`payments_agree`). The price is compared in the range of the platform callback's
`uint16_t`.
-/

namespace TollGate

namespace Api

open Cashu TollGate.Core

/-! ### The handler -/

/-- A status line and the notice `create_notice("error", code, content)`. -/
structure Notice where
  status : String
  code : String
  content : String
deriving DecidableEq

/-- An answer of the handler. -/
inductive Response where
  | notice (n : Notice)
  /-- The session event of `create_session_event`. -/
  | session (clientIp : Ip) (allotment : UInt64)
deriving DecidableEq

/-- What a request leaves: the tables, the answer, and the token handed to
`tls_worker_submit`, if any. -/
structure Outcome where
  core : Core
  response : Response
  submitted : Option CStr

/-- The payment was accepted. -/
def Outcome.accepted (o : Outcome) : Bool :=
  match o.response with
  | .session _ _ => true
  | .notice _ => false

/-- The `mint_url` of `api_post_payment`: the token's, or the configured one. -/
def mintUrl (cfg : Config) (token : Token) : CStr :=
  if token.mintUrl ≠ [] then token.mintUrl else cfg.mintUrl

/-- The checks of `api_post_payment` up to the mint's acceptance. -/
def apiDecode (codec : Codec) (cfg : Config) (body : List UInt8) : Except Notice Token :=
  if body.length = 0 ∨ body.length > 16384 then
    .error ⟨"400 Bad Request", "payment-error-invalid", "Invalid request body"⟩
  else
    match decodeToken codec (asCStr body) with
    | none =>
      .error ⟨"400 Bad Request", "payment-error-invalid", "Failed to decode Cashu token"⟩
    | some token =>
      if !cfg.acceptedMints.any fun accepted => isMintAccepted (mintUrl cfg token) accepted then
        .error ⟨"402 Payment Required", "payment-error-mint-not-accepted", "Mint not accepted"⟩
      else .ok token

/-- The spend check of `api_post_payment`. A failed state check counts as no proof
checked. -/
def apiUnspent (states : Option (List Bool)) : Except Notice Unit :=
  if (states.getD []).any id then
    .error ⟨"402 Payment Required", "payment-error-token-spent", "Token already spent"⟩
  else .ok ()

/-- The allotment `api_post_payment` computes. -/
def apiAllotment (cfg : Config) (token : Token) : UInt64 :=
  let stepSize := if cfg.metric = cstr "bytes" then Platform.toUInt64 cfg.stepSizeBytes
    else Platform.toUInt64 cfg.stepSizeMs
  calculateAllotment token.totalAmount (Platform.toUInt64 cfg.pricePerStep) stepSize

/-- The sale at the end of `api_post_payment`. -/
def apiCredit (cfg : Config) (env : Env) (c : Core) (ip : Ip) (body : List UInt8)
    (token : Token) : Outcome :=
  let allotment := apiAllotment cfg token
  if allotment = 0 then
    ⟨c, .notice ⟨"402 Payment Required", "payment-error-insufficient", "Token value too low"⟩,
      none⟩
  else
    let r := c.sell (cfg.metric = cstr "bytes") env ip allotment
    match r.2 with
    | none =>
      ⟨r.1, .notice ⟨"503 Service Unavailable", "session-error", "Failed to create session"⟩,
        none⟩
    | some _ => ⟨r.1, .session ip allotment, some (asCStr body)⟩

/-- `api_post_payment`, on a body that was received whole. -/
def apiPostPayment (codec : Codec) (cfg : Config) (env : Env) (reply : HttpReply) (c : Core)
    (ip : Ip) (body : List UInt8) : Outcome :=
  match apiDecode codec cfg body with
  | .error n => ⟨c, .notice n, none⟩
  | .ok token =>
    match apiUnspent (checkProofStates codec reply token) with
    | .error n => ⟨c, .notice n, none⟩
    | .ok () => apiCredit cfg env c ip body token

/-! ### What the handler accepts -/

variable {codec : Codec} {cfg : Config} {env : Env} {reply : HttpReply} {c : Core} {ip : Ip}
  {body : List UInt8} {token : Token}

/-- The token is taken for one of an accepted mint. -/
def MintTaken (cfg : Config) (token : Token) : Prop :=
  mintUrl cfg token ≠ [] ∧ mintUrl cfg token ∈ cfg.acceptedMints

theorem mintTaken_iff :
    (cfg.acceptedMints.any fun accepted => isMintAccepted (mintUrl cfg token) accepted) = true ↔
      MintTaken cfg token := by
  unfold MintTaken
  simp only [List.any_eq_true, isMintAccepted_iff]
  refine ⟨?_, ?_⟩
  · rintro ⟨accepted, hmem, hne, rfl⟩
    exact ⟨hne, hmem⟩
  · rintro ⟨hne, hmem⟩
    exact ⟨_, hmem, hne, rfl⟩

theorem apiDecode_eq_ok_iff :
    apiDecode codec cfg body = .ok token ↔
      (0 < body.length ∧ body.length ≤ 16384) ∧ decodeToken codec (asCStr body) = some token ∧
        MintTaken cfg token := by
  unfold apiDecode
  by_cases hlen : body.length = 0 ∨ body.length > 16384
  · rw [if_pos hlen]
    simp only [reduceCtorEq, false_iff, not_and]
    omega
  · have hfits : 0 < body.length ∧ body.length ≤ 16384 := by omega
    rw [if_neg hlen]
    cases hdec : decodeToken codec (asCStr body) with
    | none => simp
    | some token' =>
      simp only [Option.some.injEq, hfits, and_self, true_and]
      by_cases htaken : MintTaken cfg token'
      · have hany := mintTaken_iff.mpr htaken
        simp only [hany, Bool.not_true, Bool.false_eq_true, if_false, Except.ok.injEq]
        exact ⟨fun h => ⟨h, h ▸ htaken⟩, And.left⟩
      · have hany := mt mintTaken_iff.mp htaken
        simp only [Bool.not_eq_true] at hany
        simp only [hany, Bool.not_false, if_true, reduceCtorEq, false_iff, not_and]
        rintro rfl
        exact htaken

theorem apiUnspent_eq_ok_iff {states : Option (List Bool)} :
    apiUnspent states = .ok () ↔ ∀ l, states = some l → l.any id = false := by
  unfold apiUnspent
  cases states with
  | none => simp
  | some l =>
    simp only [Option.getD_some, Option.some.injEq, forall_eq']
    by_cases hany : l.any id = true
    · rw [if_pos hany, hany]
      simp only [reduceCtorEq, Bool.true_eq_false]
    · rw [if_neg hany, Bool.not_eq_true] at *
      exact ⟨fun _ => hany, fun _ => rfl⟩

/-- The sale succeeds exactly when the allotment is positive and there is a session
or a slot, and it sells what the metric says. -/
theorem apiCredit_accepted_iff (cfg : Config) (env : Env) (c : Core) (ip : Ip)
    (body : List UInt8) (token : Token) :
    (apiCredit cfg env c ip body token).accepted = true ↔
      apiAllotment cfg token ≠ 0 ∧ ¬ (c.findByIp ip = none ∧ c.NoSlot env) := by
  have hiff := sell_eq_none_iff (cfg.metric = cstr "bytes") env c ip (apiAllotment cfg token)
  unfold apiCredit
  by_cases hzero : apiAllotment cfg token = 0
  · simp [hzero, Outcome.accepted]
  · rw [← hiff]
    simp only [hzero, if_false]
    split
    · next hnone => simp [hnone, Outcome.accepted]
    · next i hsome => simp [hsome, hzero, Outcome.accepted]

/-- A sale that is refused leaves the tables alone. -/
theorem core_apiCredit (cfg : Config) (env : Env) (c : Core) (ip : Ip) (body : List UInt8)
    (token : Token) :
    ((apiCredit cfg env c ip body token).accepted = false →
      (apiCredit cfg env c ip body token).core = c) ∧
    ((apiCredit cfg env c ip body token).accepted = true →
      (apiCredit cfg env c ip body token).core =
        (c.sell (cfg.metric = cstr "bytes") env ip (apiAllotment cfg token)).1) := by
  have hiff := sell_eq_none_iff (cfg.metric = cstr "bytes") env c ip (apiAllotment cfg token)
  unfold apiCredit
  by_cases hzero : apiAllotment cfg token = 0
  · simp [hzero, Outcome.accepted]
  · simp only [hzero, if_false]
    split
    · next hnone =>
      obtain ⟨hs, hslot⟩ := hiff.mp hnone
      -- no slot: the sale was refused and left the tables alone
      refine ⟨fun _ => ?_, fun h => absurd h Bool.false_ne_true⟩
      rw [sell_eq_of_refused (clientSession_eq_none_iff.mpr hs)
        (slotForNew_eq_none_iff.mpr hslot)]
    · exact ⟨fun h => absurd h Bool.noConfusion, fun _ => rfl⟩

/-- **What the HTTP handler accepts.** -/
theorem apiPostPayment_accepted_iff :
    (apiPostPayment codec cfg env reply c ip body).accepted = true ↔
      (0 < body.length ∧ body.length ≤ 16384) ∧
      ∃ token, decodeToken codec (asCStr body) = some token ∧ MintTaken cfg token ∧
        (∀ states, checkProofStates codec reply token = some states → states.any id = false) ∧
        apiAllotment cfg token ≠ 0 ∧ ¬ (c.findByIp ip = none ∧ c.NoSlot env) := by
  unfold apiPostPayment
  refine ⟨?_, ?_⟩
  · intro h
    -- an accepted request got through the three parts of the handler
    split at h
    · exact absurd h Bool.false_ne_true
    · next token hdec =>
      split at h
      · exact absurd h Bool.false_ne_true
      · next hunspent =>
        obtain ⟨hlen, hdec, hmint⟩ := apiDecode_eq_ok_iff.mp hdec
        obtain ⟨hpos, hslot⟩ := (apiCredit_accepted_iff cfg env c ip body token).mp h
        exact ⟨hlen, token, hdec, hmint, apiUnspent_eq_ok_iff.mp hunspent, hpos, hslot⟩
  · rintro ⟨hlen, token, hdec, hmint, hstates, hpos, hslot⟩
    rw [apiDecode_eq_ok_iff.mpr ⟨hlen, hdec, hmint⟩]
    simp only [apiUnspent_eq_ok_iff.mpr hstates]
    exact (apiCredit_accepted_iff cfg env c ip body token).mpr ⟨hpos, hslot⟩

/-- The tables after the handler: the sale of the allotment, or nothing. -/
theorem core_apiPostPayment (codec : Codec) (cfg : Config) (env : Env) (reply : HttpReply)
    (c : Core) (ip : Ip) (body : List UInt8) :
    ((apiPostPayment codec cfg env reply c ip body).accepted = false →
      (apiPostPayment codec cfg env reply c ip body).core = c) ∧
    ((apiPostPayment codec cfg env reply c ip body).accepted = true →
      ∃ token, decodeToken codec (asCStr body) = some token ∧
        (apiPostPayment codec cfg env reply c ip body).core =
          (c.sell (cfg.metric = cstr "bytes") env ip (apiAllotment cfg token)).1) := by
  unfold apiPostPayment
  split
  · exact ⟨fun _ => rfl, fun h => absurd h Bool.false_ne_true⟩
  · next token hdec =>
    split
    · exact ⟨fun _ => rfl, fun h => absurd h Bool.false_ne_true⟩
    · obtain ⟨-, hdec, -⟩ := apiDecode_eq_ok_iff.mp hdec
      obtain ⟨hrefused, hsold⟩ := core_apiCredit cfg env c ip body token
      exact ⟨hrefused, fun h => ⟨token, hdec, hsold h⟩⟩

/-! ### The two implementations -/

theorem allotment_espPlatform (h0 : 0 ≤ cfg.pricePerStep.toInt)
    (h1 : cfg.pricePerStep.toInt ≤ 65535) (token : Token) :
    cfg.espPlatform.allotment token = apiAllotment cfg token := by
  -- the two read the same configuration; only the price goes through a narrower type
  have hprice : cfg.espPlatform.price = Platform.toUInt64 cfg.pricePerStep :=
    Config.espGetPriceSats_toUInt64 h0 h1
  unfold Platform.allotment apiAllotment
  rw [hprice]
  rfl

theorem length_pos_of_decodeToken (h : decodeToken codec (asCStr body) = some token) :
    0 < body.length := by
  cases body with
  | nil => exact absurd h (Option.some_ne_none token).symm
  | cons b bs => exact Nat.succ_pos _

/-- With one accepted mint, the configured one, the handler takes the tokens of that
mint and those that name none. -/
theorem mintTaken_iff_of_single (hmints : cfg.acceptedMints = [cfg.mintUrl]) :
    MintTaken cfg token ↔
      cfg.mintUrl ≠ [] ∧ (token.mintUrl = [] ∨ token.mintUrl = cfg.mintUrl) := by
  unfold MintTaken mintUrl
  rw [hmints, List.mem_singleton]
  -- a token without a mint is read as one of the configured mint
  by_cases hname : token.mintUrl = []
  · simp [hname]
  · simp only [hname, ne_eq, not_false_eq_true, if_true, true_and, false_or]
    refine ⟨?_, ?_⟩
    · intro h
      exact ⟨h ▸ hname, h⟩
    · exact And.right

/-- The token names its mint, and the state check got an answer. -/
def NamedAndChecked (codec : Codec) (reply : HttpReply) (text : CStr) : Prop :=
  ∃ token, decodeToken codec text = some token ∧ token.mintUrl ≠ [] ∧
    checkProofStates codec reply token ≠ none

/-- **The two payment implementations agree up to the handler's own rules.** For every
token text, client, table, answer of the mint (or none), step sizes and metric, with
the configured mint as the only accepted one and a price in the range of the
platform callback: the core accepts a payment of at most 16384 bytes if and only if
the handler does and moreover the token names its mint and the state check got an
answer. Whenever both accept they leave the same tables, and a payment that is
rejected leaves them unchanged. -/
theorem payments_agree (codec : Codec) (cfg : Config) (reply : HttpReply) (c : Core) (ip : Ip)
    (body : List UInt8) (now : Int64) (macForIp : Ip → Option CStr)
    (hmints : cfg.acceptedMints = [cfg.mintUrl]) (h0 : 0 ≤ cfg.pricePerStep.toInt)
    (h1 : cfg.pricePerStep.toInt ≤ 65535) :
    ((processPayment codec (some cfg.espPlatform) (cfg.env now macForIp) reply c ip
          (some (asCStr body))).ok = true ∧ body.length ≤ 16384 ↔
        (apiPostPayment codec cfg (cfg.env now macForIp) reply c ip body).accepted = true ∧
          NamedAndChecked codec reply (asCStr body)) ∧
      ((processPayment codec (some cfg.espPlatform) (cfg.env now macForIp) reply c ip
          (some (asCStr body))).ok = true →
        (apiPostPayment codec cfg (cfg.env now macForIp) reply c ip body).accepted = true →
        (apiPostPayment codec cfg (cfg.env now macForIp) reply c ip body).core =
          (processPayment codec (some cfg.espPlatform) (cfg.env now macForIp) reply c ip
            (some (asCStr body))).core) ∧
      ((processPayment codec (some cfg.espPlatform) (cfg.env now macForIp) reply c ip
          (some (asCStr body))).ok = false →
        (processPayment codec (some cfg.espPlatform) (cfg.env now macForIp) reply c ip
          (some (asCStr body))).core = c) ∧
      ((apiPostPayment codec cfg (cfg.env now macForIp) reply c ip body).accepted = false →
        (apiPostPayment codec cfg (cfg.env now macForIp) reply c ip body).core = c) := by
  obtain ⟨hfailed, hsold⟩ := core_processPayment codec cfg.espPlatform (cfg.env now macForIp) reply
    c ip (asCStr body)
  obtain ⟨hfailed', hsold'⟩ := core_apiPostPayment codec cfg (cfg.env now macForIp) reply c ip body
  refine ⟨?_, ?_, hfailed, hfailed'⟩
  · rw [processPayment_ok_iff, apiPostPayment_accepted_iff]
    refine ⟨?_, ?_⟩
    · rintro ⟨⟨token, ⟨hdec, ⟨hname, hmint⟩, states, hstates, hany⟩, -, hcan⟩, hlen⟩
      have hmint' : token.mintUrl = cfg.mintUrl := (Option.some.inj hmint).symm
      -- what the core has checked is what the handler checks, and two things more
      unfold CannotSettle at hcan
      rw [allotment_espPlatform h0 h1, not_or] at hcan
      refine ⟨⟨⟨length_pos_of_decodeToken hdec, hlen⟩, token, hdec, ?_, ?_, hcan⟩, ?_⟩
      · exact (mintTaken_iff_of_single hmints).mpr ⟨hmint' ▸ hname, Or.inr hmint'⟩
      · intro states' hstates'
        rw [Option.some.inj (hstates'.symm.trans hstates)]
        exact hany
      · exact ⟨token, hdec, hname, by rw [hstates]; exact Option.some_ne_none states⟩
    · rintro ⟨⟨⟨-, hlen⟩, token, hdec, hmint, hunspent, hcan⟩, token', hdec', hname, hchecked⟩
      obtain rfl : token = token' := Option.some.inj (hdec.symm.trans hdec')
      obtain ⟨states, hstates⟩ := Option.ne_none_iff_exists'.mp hchecked
      have hmint' : token.mintUrl = cfg.mintUrl :=
        ((mintTaken_iff_of_single hmints).mp hmint).2.resolve_left hname
      refine ⟨⟨token, ⟨hdec, ⟨hname, congrArg some hmint'.symm⟩, states, hstates,
        hunspent states hstates⟩, ?_, ?_⟩, hlen⟩
      · -- the firmware's `spend_proofs` returns true
        intro f hf
        rw [← Option.some.inj hf]
      · unfold CannotSettle
        rw [allotment_espPlatform h0 h1, not_or]
        exact hcan
  · intro hok hacc
    -- both sell the allotment of the same token in the same metric
    obtain ⟨token, hdec, hcore⟩ := hsold hok
    obtain ⟨token', hdec', hcore'⟩ := hsold' hacc
    obtain rfl : token = token' := Option.some.inj (hdec.symm.trans hdec')
    rw [hcore, hcore', allotment_espPlatform h0 h1]
    rfl

/-- A token of 21 sats that the mint calls unspent buys a minute in both. -/
theorem stepToken_agrees :
    (processPayment sampleCodec (some timeConfig.espPlatform) (timeConfig.env 0 fun _ => none)
        (some (200, unspentText)) boot 2 (some (asCStr stepToken))).ok = true ∧
      (apiPostPayment sampleCodec timeConfig (timeConfig.env 0 fun _ => none)
        (some (200, unspentText)) boot 2 stepToken).accepted = true ∧
      (apiPostPayment sampleCodec timeConfig (timeConfig.env 0 fun _ => none)
        (some (200, unspentText)) boot 2 stepToken).core =
      (processPayment sampleCodec (some timeConfig.espPlatform) (timeConfig.env 0 fun _ => none)
        (some (200, unspentText)) boot 2 (some (asCStr stepToken))).core := by
  obtain ⟨hiff, hcore, -⟩ := payments_agree sampleCodec timeConfig (some (200, unspentText)) boot 2
    stepToken 0 (fun _ => none) rfl (by decide) (by decide)
  have hok : (processPayment sampleCodec (some timeConfig.espPlatform)
      (timeConfig.env 0 fun _ => none) (some (200, unspentText)) boot 2
      (some (asCStr stepToken))).ok = true := by
    decide
  have hacc := (hiff.mp ⟨hok, by decide⟩).1
  exact ⟨hok, hacc, hcore hok hacc⟩

/-- When the state check gets no answer, the handler sells the minute and the core
rejects the payment. -/
theorem stepToken_unchecked_disagrees :
    timeConfig.acceptedMints = [timeConfig.mintUrl] ∧
      (processPayment sampleCodec (some timeConfig.espPlatform) (timeConfig.env 0 fun _ => none)
        none boot 2 (some (asCStr stepToken))).ok = false ∧
      (apiPostPayment sampleCodec timeConfig (timeConfig.env 0 fun _ => none) none boot 2
        stepToken).accepted = true := by
  decide

end Api

end TollGate
