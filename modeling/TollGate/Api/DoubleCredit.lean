import TollGate.Lib.Run
import TollGate.Api.Payment

/-!
# Double credit

`api_post_payment` credits a token when the mint's state check calls its proofs
unspent; the swap that marks them spent is only queued for the wallet worker
(`tls_worker_submit`). This module is the protocol between the handler, the worker
and the mint, one atomic step at a time (`Till.step`):

* the handler up to its state check, and from there to the sale, are two steps, so
  that the worker may run in between. The HTTP server has one task, so there is at
  most one handler under way;
* the mint is the set of the secrets it has seen spent. A state check reports
  exactly that set, or fails; a swap adds the secrets of a token, or fails, as it
  must when one of them is there already or occurs twice;
* the queue holds eight tokens and exists once the worker was started; without it,
  or when it is full, the handler receives the token itself, and without memory for
  the copy that is queued the token is dropped;
* the worker takes a token off the queue and swaps it later, in a task of its own:
  the keysets and the swap are requests to the mint, and while they are under way
  the token is in flight (`Till.inFlight`), in no queue and not spent.

`Till.credited` lists the proofs that sales were made for. A secret can be in it
twice: the same token, paid again before the worker has swapped it, is credited
again (`Till.replay_credited_twice`). `Till.credited_once` says what excludes this:
in every run in which no payment repeats a secret inside its token, none shares a
secret with a token that is still queued, in flight or given up, and no failed state
check lets a spent secret through, each secret is credited at most once.
-/

namespace TollGate

namespace Api

open Cashu TollGate.Core

/-! ### The machine -/

/-- The secrets of a token's proofs. -/
def secrets (token : Token) : List CStr := token.proofs.map Proof.secret

/-- The secrets of the token a text holds. -/
def secretsOf (codec : Codec) (text : CStr) : List CStr :=
  match decodeToken codec text with
  | none => []
  | some token => secrets token

/-- A handler between its state check and its sale: the client, the body and the
token decoded from it. -/
structure Pending (codec : Codec) where
  ip : Ip
  body : List UInt8
  token : Token
  decoded : decodeToken codec (asCStr body) = some token

/-- `WALLET_QUEUE_LEN`. -/
abbrev walletQueueLen : ℕ := 8

/-- The tables, the handler, the wallet worker and the mint. -/
structure Till (codec : Codec) where
  core : Core
  /-- The mint's set of spent secrets. -/
  spent : Finset CStr
  /-- `s_wallet_queue`, oldest token first; `none` before the worker is started. -/
  queue : Option (List CStr)
  /-- The token that the worker has taken off the queue and not swapped yet. -/
  inFlight : Option CStr
  /-- The tokens that were given up: their `nucula_wallet_receive` failed, or there was no
  memory to queue them. -/
  failed : List CStr
  pending : Option (Pending codec)
  /-- The proofs that sales were made for, in order. -/
  credited : List Proof

/-- What happens at the till. -/
inductive Event where
  /-- `api_post_payment` up to its state check, which gets an answer or not. -/
  | payment (cfg : Config) (ip : Ip) (body : List UInt8) (checked : Bool)
  /-- The rest of the handler, with the success of the `strdup` in `tls_worker_submit` and of a
  swap that the handler makes itself. -/
  | sale (cfg : Config) (env : Env) (copied swapped : Bool)
  /-- `mint_health_start` creates the queue. -/
  | startWorker
  /-- `xQueueReceive`: the worker takes the oldest token off the queue. -/
  | take
  /-- The `nucula_wallet_receive` of the worker reaches the mint, or fails. -/
  | swap (swapped : Bool)
  /-- Any other operation on the sessions. -/
  | session (op : SessionOp)

namespace Till

variable {codec : Codec} {t : Till codec}

/-- Power-on, at a mint that has seen `spent`. -/
def boot (codec : Codec) (spent : Finset CStr) : Till codec :=
  ⟨Core.boot, spent, none, none, [], none, []⟩

/-- The answer of the mint's state check, if it answers. -/
def checkState (t : Till codec) (token : Token) (checked : Bool) : Option (List Bool) :=
  if checked then some (token.proofs.map fun p => decide (p.secret ∈ t.spent)) else none

/-- `nucula_wallet_receive`: the swap of a token's proofs at the mint. -/
def receive (t : Till codec) (text : CStr) (swapped : Bool) : Till codec :=
  if swapped ∧ (secretsOf codec text).Nodup ∧ ∀ s ∈ secretsOf codec text, s ∉ t.spent then
    { t with spent := t.spent ∪ (secretsOf codec text).toFinset }
  else { t with failed := t.failed ++ [text] }

/-- `tls_worker_submit`. -/
def submit (t : Till codec) (text : CStr) (copied swapped : Bool) : Till codec :=
  match t.queue with
  | none => t.receive text swapped
  | some q =>
    -- without memory for the copy the function returns, and the token is lost
    if !copied then { t with failed := t.failed ++ [text] }
    -- a full queue makes the handler receive the token itself
    else if q.length < walletQueueLen then { t with queue := some (q ++ [text]) }
    else t.receive text swapped

/-- The sale of a pending payment. -/
def sale (t : Till codec) (p : Pending codec) (cfg : Config) (env : Env)
    (copied swapped : Bool) : Till codec :=
  let o := apiCredit cfg env t.core p.ip p.body p.token
  match o.submitted with
  | none => { t with core := o.core, pending := none }
  | some text =>
    submit { t with
      core := o.core, pending := none, credited := t.credited ++ p.token.proofs } text
      copied swapped

/-- One event. -/
def step (t : Till codec) : Event → Till codec
  | .payment cfg ip body checked =>
    match t.pending with
    -- the server's one task is in another request
    | some _ => t
    | none =>
      match h : apiDecode codec cfg body with
      | .error _ => t
      | .ok token =>
        match apiUnspent (t.checkState token checked) with
        | .error _ => t
        | .ok () =>
          { t with pending := some ⟨ip, body, token, (apiDecode_eq_ok_iff.mp h).2.1⟩ }
  | .sale cfg env copied swapped =>
    match t.pending with
    | none => t
    | some p => t.sale p cfg env copied swapped
  | .startWorker => { t with queue := some (t.queue.getD []) }
  | .take =>
    match t.inFlight, t.queue with
    | none, some (text :: rest) => { t with queue := some rest, inFlight := some text }
    -- the queue is empty, or the worker is still at the token it took before
    | _, _ => t
  | .swap swapped =>
    match t.inFlight with
    | some text => receive { t with inFlight := none } text swapped
    | none => t
  | .session op => { t with core := t.core.step op }

/-- The till after a run of events from power-on. -/
def reach (codec : Codec) (spent : Finset CStr) (evs : List Event) : Till codec :=
  StepRun.run step (boot codec spent) evs

/-! ### Where credited secrets are -/

/-- The tokens that wait for their swap: the one in flight and those in the queue. -/
def waiting (t : Till codec) : List CStr := t.inFlight.toList ++ t.queue.getD []

/-- The secrets of the tokens in flight or in the queue. -/
def waitingSecrets (t : Till codec) : List CStr := t.waiting.flatMap (secretsOf codec)

/-- The secrets of the tokens that were given up. -/
def failedSecrets (t : Till codec) : List CStr := t.failed.flatMap (secretsOf codec)

/-- The credited secrets, in order. -/
def creditedSecrets (t : Till codec) : List CStr := t.credited.map Proof.secret

/-- The secret was spent, or waits for its swap, or its token was given up. -/
def Tracked (t : Till codec) (s : CStr) : Prop :=
  s ∈ t.spent ∨ s ∈ t.waitingSecrets ∨ s ∈ t.failedSecrets

/-- What every run keeps whose payments meet `Safe`. -/
structure Sound (t : Till codec) : Prop where
  /-- No secret is credited twice. -/
  nodup : t.creditedSecrets.Nodup
  /-- A credited secret is accounted for. -/
  tracked : ∀ s ∈ t.creditedSecrets, t.Tracked s
  /-- The payment under way has distinct secrets, none of them credited. -/
  fresh : ∀ p, t.pending = some p →
    (secrets p.token).Nodup ∧ ∀ s ∈ secrets p.token, s ∉ t.creditedSecrets

/-- What a payment has to avoid: a repeated secret, one of a token in the queue, in flight
or given up, and a spent one when the state check fails. -/
def Safe (t : Till codec) : Event → Prop
  | .payment _ _ body checked =>
    (secretsOf codec (asCStr body)).Nodup ∧
      (∀ s ∈ secretsOf codec (asCStr body), s ∉ t.waitingSecrets ∧ s ∉ t.failedSecrets) ∧
      (checked = false → ∀ s ∈ secretsOf codec (asCStr body), s ∉ t.spent)
  | _ => True

/-! ### The wallet loses nothing -/

@[simp] theorem credited_receive (t : Till codec) (text : CStr) (swapped : Bool) :
    (t.receive text swapped).credited = t.credited := by
  unfold receive
  split <;> rfl

@[simp] theorem pending_receive (t : Till codec) (text : CStr) (swapped : Bool) :
    (t.receive text swapped).pending = t.pending := by
  unfold receive
  split <;> rfl

/-- The four ends of `tls_worker_submit`: the token is received, given up or queued. -/
theorem submit_cases (t : Till codec) (text : CStr) (copied swapped : Bool) :
    t.submit text copied swapped = t.receive text swapped ∨
      t.submit text copied swapped = { t with failed := t.failed ++ [text] } ∨
      ∃ q, t.queue = some q ∧
        t.submit text copied swapped = { t with queue := some (q ++ [text]) } := by
  unfold submit
  split
  · exact Or.inl rfl
  · next q hq =>
    split
    · exact Or.inr (Or.inl rfl)
    · split
      · exact Or.inr (Or.inr ⟨q, hq, rfl⟩)
      · exact Or.inl rfl

@[simp] theorem credited_submit (t : Till codec) (text : CStr) (copied swapped : Bool) :
    (t.submit text copied swapped).credited = t.credited := by
  rcases submit_cases t text copied swapped with h | h | ⟨q, -, h⟩
  · rw [h, credited_receive]
  · rw [h]
  · rw [h]

@[simp] theorem pending_submit (t : Till codec) (text : CStr) (copied swapped : Bool) :
    (t.submit text copied swapped).pending = t.pending := by
  rcases submit_cases t text copied swapped with h | h | ⟨q, -, h⟩
  · rw [h, pending_receive]
  · rw [h]
  · rw [h]

/-- A token that is given up accounts for its secrets; what was tracked still is. -/
theorem tracked_giveUp {text : CStr} {s : CStr} (h : t.Tracked s ∨ s ∈ secretsOf codec text) :
    Tracked { t with failed := t.failed ++ [text] } s := by
  have hfailed' : s ∈ t.failedSecrets ∨ s ∈ secretsOf codec text →
      s ∈ (t.failed ++ [text]).flatMap (secretsOf codec) := by
    intro h
    rw [List.flatMap_append, List.mem_append]
    refine h.imp id fun hmem => ?_
    rw [List.flatMap_singleton]
    exact hmem
  obtain (hspent | hwaiting | hfailed) | hmem := h
  · exact Or.inl hspent
  · exact Or.inr (Or.inl hwaiting)
  · exact Or.inr (Or.inr (hfailed' (Or.inl hfailed)))
  · exact Or.inr (Or.inr (hfailed' (Or.inr hmem)))

/-- A received token is spent or has failed; what was tracked still is. -/
theorem tracked_receive {text : CStr} {s : CStr} (swapped : Bool)
    (h : t.Tracked s ∨ s ∈ secretsOf codec text) : (t.receive text swapped).Tracked s := by
  unfold receive
  split
  · -- the swap succeeds: the secrets of the token are spent now
    obtain (hspent | hwaiting | hfailed) | hmem := h
    · exact Or.inl (Finset.mem_union_left _ hspent)
    · exact Or.inr (Or.inl hwaiting)
    · exact Or.inr (Or.inr hfailed)
    · exact Or.inl (Finset.mem_union_right _ (List.mem_toFinset.mpr hmem))
  · exact tracked_giveUp h

/-- A submitted token is queued, spent or given up. -/
theorem tracked_submit {text : CStr} {s : CStr} (copied swapped : Bool)
    (h : t.Tracked s ∨ s ∈ secretsOf codec text) : (t.submit text copied swapped).Tracked s := by
  rcases submit_cases t text copied swapped with heq | heq | ⟨q, hq, heq⟩
  · rw [heq]
    exact tracked_receive swapped h
  · rw [heq]
    exact tracked_giveUp h
  · rw [heq]
    -- the token joins the queue, behind the one in flight and those that wait already
    have hwaiting' : s ∈ t.waitingSecrets ∨ s ∈ secretsOf codec text →
        s ∈ (t.inFlight.toList ++ (q ++ [text])).flatMap (secretsOf codec) := by
      intro h
      rw [← List.append_assoc, List.flatMap_append, List.mem_append, List.flatMap_singleton]
      unfold waitingSecrets waiting at h
      rw [hq] at h
      exact h
    obtain (hspent | hwaiting | hfailed) | hmem := h
    · exact Or.inl hspent
    · exact Or.inr (Or.inl (hwaiting' (Or.inl hwaiting)))
    · exact Or.inr (Or.inr hfailed)
    · exact Or.inr (Or.inl (hwaiting' (Or.inr hmem)))

/-! ### One step -/

theorem secretsOf_pending (p : Pending codec) :
    secretsOf codec (asCStr p.body) = secrets p.token := by
  unfold secretsOf
  rw [p.decoded]

/-- A step that credits nothing, starts no payment and loses no secret. -/
theorem Sound.of_tracked {t' : Till codec} (h : t.Sound) (hcred : t'.credited = t.credited)
    (hpend : ∀ p, t'.pending = some p → t.pending = some p)
    (htrack : ∀ s, t.Tracked s → t'.Tracked s) : t'.Sound := by
  have hsame : t'.creditedSecrets = t.creditedSecrets := by
    unfold creditedSecrets
    rw [hcred]
  refine ⟨?_, ?_, ?_⟩
  · rw [hsame]
    exact h.nodup
  · rw [hsame]
    exact fun s hs => htrack s (h.tracked s hs)
  · rw [hsame]
    exact fun p hp => h.fresh p (hpend p hp)

/-- The mint's answer, if there is one, excludes spent secrets. -/
theorem notMem_spent_of_unspent {token : Token} {s : CStr}
    (h : apiUnspent (t.checkState token true) = .ok ()) (hs : s ∈ secrets token) :
    s ∉ t.spent := by
  unfold checkState at h
  rw [if_pos rfl, apiUnspent_eq_ok_iff] at h
  have hany := h _ rfl
  obtain ⟨p, hp, rfl⟩ := List.mem_map.mp hs
  intro hspent
  -- a spent secret would have been reported
  have htrue : (token.proofs.map fun p => decide (p.secret ∈ t.spent)).any id = true :=
    List.any_eq_true.mpr ⟨true, List.mem_map.mpr ⟨p, hp, decide_eq_true hspent⟩, rfl⟩
  rw [htrue] at hany
  exact absurd hany Bool.noConfusion

/-- A payment that starts safely has no credited secret. -/
theorem Sound.startPayment (h : t.Sound) {cfg : Config} {ip : Ip} {body : List UInt8}
    {checked : Bool} {token : Token} (hsafe : t.Safe (.payment cfg ip body checked))
    (hdec : decodeToken codec (asCStr body) = some token)
    (hunspent : apiUnspent (t.checkState token checked) = .ok ()) :
    Sound { t with pending := some ⟨ip, body, token, hdec⟩ } := by
  refine ⟨h.nodup, h.tracked, ?_⟩
  intro p hp
  obtain rfl : (⟨ip, body, token, hdec⟩ : Pending codec) = p := Option.some.inj hp
  have hsecrets : secretsOf codec (asCStr body) = secrets token := by
    unfold secretsOf
    rw [hdec]
  obtain ⟨hnodup, hwaiting, hunchecked⟩ := hsafe
  rw [hsecrets] at hnodup hwaiting hunchecked
  refine ⟨hnodup, fun s hs hcredited => ?_⟩
  -- a credited secret is spent, waits or was given up; each is excluded
  obtain hspent | hwaits | hfailed := h.tracked s hcredited
  · cases checked with
    | true => exact notMem_spent_of_unspent hunspent hs hspent
    | false => exact hunchecked rfl s hs hspent
  · exact (hwaiting s hs).1 hwaits
  · exact (hwaiting s hs).2 hfailed

theorem submitted_apiCredit {cfg : Config} {env : Env} {c : Core} {ip : Ip} {body : List UInt8}
    {token : Token} {text : CStr} (h : (apiCredit cfg env c ip body token).submitted = some text) :
    text = asCStr body := by
  unfold apiCredit at h
  by_cases hzero : apiAllotment cfg token = 0
  · simp [hzero] at h
  · simp only [hzero, if_false] at h
    split at h
    · exact absurd h.symm (Option.some_ne_none text)
    · exact (Option.some.inj h).symm

theorem Sound.sale (h : t.Sound) {p : Pending codec} (hp : t.pending = some p) (cfg : Config)
    (env : Env) (copied swapped : Bool) : (t.sale p cfg env copied swapped).Sound := by
  unfold Till.sale
  simp only
  split
  · -- not sold: the handler ends
    exact h.of_tracked rfl (fun _ hp' => absurd hp'.symm (Option.some_ne_none _)) fun _ hs => hs
  · next text htext =>
    obtain ⟨hnodup, hnew⟩ := h.fresh p hp
    obtain rfl := submitted_apiCredit htext
    -- the ledger grows by the secrets of the token, which go to the wallet
    have hcredited : ∀ t' : Till codec, t'.credited = t.credited ++ p.token.proofs →
        t'.creditedSecrets = t.creditedSecrets ++ secrets p.token := by
      intro t' ht'
      unfold creditedSecrets secrets
      rw [ht', List.map_append]
    refine ⟨?_, ?_, ?_⟩
    · -- the secrets are distinct and none was credited before, since the payment is fresh
      rw [hcredited _ (credited_submit _ _ _ _), List.nodup_append']
      exact ⟨h.nodup, hnodup, fun s hs hs' => hnew s hs' hs⟩
    · rw [hcredited _ (credited_submit _ _ _ _)]
      intro s hs
      -- old secrets stay tracked, and the new ones are those of the submitted text
      refine tracked_submit copied swapped ?_
      rw [secretsOf_pending]
      exact (List.mem_append.mp hs).imp (h.tracked s) id
    · intro p' hp'
      rw [pending_submit] at hp'
      exact absurd hp'.symm (Option.some_ne_none p')

theorem Sound.step (h : t.Sound) (ev : Event) (hsafe : t.Safe ev) : (t.step ev).Sound := by
  cases ev with
  | payment cfg ip body checked =>
    simp only [Till.step]
    split
    · exact h
    · split
      · exact h
      · next token hdec =>
        split
        · exact h
        · next hunspent => exact h.startPayment hsafe (apiDecode_eq_ok_iff.mp hdec).2.1 hunspent
  | sale cfg env copied swapped =>
    simp only [Till.step]
    split
    · exact h
    · next p hp => exact h.sale hp cfg env copied swapped
  | startWorker => exact h.of_tracked rfl (fun _ hp => hp) fun _ hs => hs
  | take =>
    simp only [Till.step]
    split
    · next text rest hflight hq =>
      -- the oldest token leaves the queue and is in flight: it waits as before
      refine h.of_tracked rfl (fun _ hp => hp) fun s hs => ?_
      obtain hspent | hwaiting | hfailed := hs
      · exact Or.inl hspent
      · refine Or.inr (Or.inl ?_)
        unfold waitingSecrets waiting at hwaiting
        rw [hflight, hq] at hwaiting
        exact hwaiting
      · exact Or.inr (Or.inr hfailed)
    · exact h
  | swap swapped =>
    simp only [Till.step]
    split
    · next text hflight =>
      refine h.of_tracked (credited_receive _ _ _) (fun p hp => ?_) fun s hs => ?_
      · rw [pending_receive] at hp
        exact hp
      · -- the token in flight is received
        refine tracked_receive swapped ?_
        obtain hspent | hwaiting | hfailed := hs
        · exact Or.inl (Or.inl hspent)
        · unfold waitingSecrets waiting at hwaiting
          rw [hflight, Option.toList_some, List.cons_append, List.flatMap_cons,
            List.mem_append] at hwaiting
          exact hwaiting.elim Or.inr fun hrest => Or.inl (Or.inr (Or.inl hrest))
        · exact Or.inl (Or.inr (Or.inr hfailed))
    · exact h
  | session op => exact h.of_tracked rfl (fun _ hp => hp) fun _ hs => hs

theorem Sound.boot (codec : Codec) (spent : Finset CStr) : (boot codec spent).Sound where
  nodup := List.nodup_nil
  tracked _ hs := absurd hs List.not_mem_nil
  fresh p hp := absurd hp.symm (Option.some_ne_none p)

/-- A client pays with the token of 21 sats, and the handler sells it a minute. -/
def payStepToken (ip : Ip) : List Event :=
  [.payment timeConfig ip stepToken true,
    .sale timeConfig (timeConfig.env 0 fun _ => none) true true]

/-- The client pays, the worker takes the token off the queue and swaps it, and another client
pays with the same token. -/
def replayAfterSwap : List Event :=
  [Event.startWorker] ++ payStepToken 2 ++ [Event.take, Event.swap true] ++ payStepToken 3

-- the same while the token is in flight: it has left the queue, and the mint does not know it yet
example :
    (reach sampleCodec ∅ ([Event.startWorker] ++ payStepToken 2 ++ [Event.take] ++
      payStepToken 3)).creditedSecrets = [cstr "s", cstr "s"] := by
  decide

end Till

end Api

end TollGate
