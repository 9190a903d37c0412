import TollGate.Mining.Gateway

/-!
# Laws of share submissions

What a submission brings its sender is `Rewards`: an accepted share more in one of
the counters, or a change of the session tables. The submissions that do are given by
`acceptedSubmit` (`rewards_iff_accepted`), and two laws of the gateway are read off it.

A `mining.submit` line is rewarded for a header that meets the target. A posted share is
rewarded when the pool gets it, whatever its hash (`proof_before_credit_iff`). Every
submission is rewarded at most once, but nothing remembers it, so that the same tuple
submitted again is rewarded again (`credited_once_per_submission`).
-/

namespace TollGate

namespace Mining

open CStr CJson TollGate.Core

variable {p : Platform} {g : Gateway} {input : Input}

/-! ### Submissions and what they bring -/

/-- A line to the proxy, or a posted share. -/
def Input.IsSubmission : Input → Prop
  | .line _ _ _ => True
  | .post _ _ => True
  | _ => False

/-- The job id, nonce, time and version that are submitted. -/
def submittedAt (p : Platform) (g : Gateway) : Input → Option Submit
  | .line _ i text =>
    if (g.miners i).isSome && methodOf text = some (cstr "mining.submit") then
      some (submitParams g.job.version text)
    else none
  | .post _ r => (r.submit p).toOption
  | _ => none

/-- The gateway gives a posted share to the pool. -/
def Gateway.passesOn (g : Gateway) (r : PostRequest) (s : Submit) : Bool :=
  g.job.valid && g.job.jobId = s.jobId && g.connected && r.written

/-- The submission that is accepted. -/
def acceptedSubmit (p : Platform) (g : Gateway) (input : Input) : Option Submit :=
  if g.fault.isSome then none
  else match input with
    | .line _ _ _ => (submittedAt p g input).filter (g.passes p)
    | .post _ r => (submittedAt p g input).filter (g.passesOn r)
    | _ => none

/-- The step counts an accepted share or changes the session tables. -/
def Rewards (g g' : Gateway) : Prop :=
  g'.totalAccepted ≠ g.totalAccepted ∨ g'.poolAccepted ≠ g.poolAccepted ∨
    CountsAccepted g.clients g'.clients ∨ g'.core ≠ g.core

/-- One of the two totals is one more. -/
def Counted (g g' : Gateway) : Prop :=
  g'.totalAccepted = g.totalAccepted + 1 ∧ g'.poolAccepted = g.poolAccepted ∨
    g'.totalAccepted = g.totalAccepted ∧ g'.poolAccepted = g.poolAccepted + 1

theorem not_rewards_iff {g g' : Gateway} :
    ¬ Rewards g g' ↔ g'.totalAccepted = g.totalAccepted ∧ g'.poolAccepted = g.poolAccepted ∧
      ¬ CountsAccepted g.clients g'.clients ∧ g'.core = g.core := by
  unfold Rewards
  push Not
  rfl

theorem not_rewards_self (g : Gateway) : ¬ Rewards g g :=
  not_rewards_iff.mpr ⟨rfl, rfl, not_countsAccepted_self _, rfl⟩

theorem add_one_ne_self (n : UInt64) : n + 1 ≠ n := by
  intro h
  have hnat := congrArg UInt64.toNat h
  rw [UInt64.toNat_add, UInt64.toNat_one] at hnat
  have := n.toNat_lt
  omega

theorem Counted.rewards {g g' : Gateway} (h : Counted g g') : Rewards g g' := by
  rcases h with ⟨h, -⟩ | ⟨-, h⟩
  · exact .inl (h ▸ add_one_ne_self _)
  · exact .inr (.inl (h ▸ add_one_ne_self _))

/-- A submission that passes the checks is counted, any other brings nothing. -/
theorem handleSubmit_spec (env : Env) (miner : Miner) (id : UInt32) (s : Submit) :
    if g.passes p s then Counted g (handleSubmit p env g miner id s).1
    else ¬ Rewards g (handleSubmit p env g miner id s).1 := by
  unfold Gateway.passes handleSubmit
  cases g.job.valid with
  | false => simp [not_rewards_iff, not_countsAccepted_self]
  | true =>
    by_cases hjob : s.jobId = g.job.jobId
    case neg => simp [hjob, not_rewards_iff, not_countsAccepted_self]
    cases checkPow p.sha256d (g.header s) (g.target p) 32 with
    | true => simp [hjob, Counted]
    | false => simp [hjob, not_rewards_iff, not_countsAccepted_rejected]

/-- A line that submits nothing brings nothing. -/
theorem handleLine_of_not_submit {env : Env} {i : Fin maxMiners} {miner : Miner} {text : CStr}
    (h : methodOf text ≠ some (cstr "mining.submit")) :
    ¬ Rewards g (handleLine p env g i miner text).1 := by
  unfold handleLine
  cases hmethod : methodOf text with
  | none => exact not_rewards_self g
  | some method =>
    rw [hmethod, Ne, Option.some.injEq] at h
    simp only [h, if_false]
    split
    · exact not_rewards_self g
    · split
      · exact not_rewards_iff.mpr ⟨rfl, rfl, not_countsAccepted_self _, rfl⟩
      · split
        · exact not_rewards_self g
        · split <;> exact not_rewards_self g

theorem handleLine_of_submit {env : Env} {i : Fin maxMiners} {miner : Miner} {text : CStr}
    (h : methodOf text = some (cstr "mining.submit")) :
    handleLine p env g i miner text =
      handleSubmit p env g miner (idOf text) (submitParams g.job.version text) := by
  unfold handleLine
  rw [h]
  simp only [if_neg (show cstr "mining.submit" ≠ cstr "mining.subscribe" by decide),
    if_neg (show cstr "mining.submit" ≠ cstr "mining.authorize" by decide), if_true]

/-- The rest of the handler leaves the totals alone. -/
theorem settlePost_totals (env : Env) (g : Gateway) (r : PostRequest) (accepted : Bool) :
    (g.settlePost env r accepted).totalAccepted = g.totalAccepted ∧
      (g.settlePost env r accepted).poolAccepted = g.poolAccepted := by
  unfold Gateway.settlePost
  cases accepted with
  | false => exact ⟨rfl, rfl⟩
  | true =>
    simp only [Bool.not_true, Bool.false_eq_true, if_false]
    split <;> exact ⟨rfl, rfl⟩

/-- For a share the pool did not get it brings nothing. -/
theorem settlePost_rejected (env : Env) (g : Gateway) (r : PostRequest) :
    ¬ Rewards g (g.settlePost env r false) :=
  not_rewards_iff.mpr ⟨rfl, rfl, not_countsAccepted_trans
    (not_countsAccepted_rejected env.now g.clients r.ip) (not_countsAccepted_getOrCreate _ _ _),
    rfl⟩

/-- A posted share that is passed on is counted, any other brings nothing. -/
theorem postMiningShare_spec (env : Env) (r : PostRequest) {s : Submit} (hs : r.submit p = .ok s) :
    if g.passesOn r s then Counted g (postMiningShare p env g r).1
    else ¬ Rewards g (postMiningShare p env g r).1 := by
  unfold Gateway.passesOn postMiningShare
  rw [hs]
  cases g.job.valid with
  | false => simp [not_rewards_self]
  | true =>
    by_cases hjob : g.job.jobId = s.jobId
    case neg => simp [hjob, not_rewards_self]
    cases hconn : g.connected with
    | false =>
      have hup : g.submitUpstream r.written = (g, false) := by simp [Gateway.submitUpstream, hconn]
      simpa [hjob, hup] using settlePost_rejected env g r
    | true =>
      cases hwritten : r.written with
      | false =>
        have hup : g.submitUpstream false =
            ({ g with reqId := g.reqId + 1, poolRejected := g.poolRejected + 1 }, false) := by
          simp [Gateway.submitUpstream, hconn]
        have hsettle : ¬ Rewards g (Gateway.settlePost env
            { g with reqId := g.reqId + 1, poolRejected := g.poolRejected + 1 } r false) :=
          settlePost_rejected env
            { g with reqId := g.reqId + 1, poolRejected := g.poolRejected + 1 } r
        simpa [hjob, hup] using hsettle
      | true =>
        have hup : g.submitUpstream true =
            ({ g with reqId := g.reqId + 1, poolAccepted := g.poolAccepted + 1 }, true) := by
          simp [Gateway.submitUpstream, hconn]
        obtain ⟨htotal, hpool⟩ := settlePost_totals env
          { g with reqId := g.reqId + 1, poolAccepted := g.poolAccepted + 1 } r true
        simp only [hjob, hup, Bool.not_true, ne_eq, not_true_eq_false, decide_false, Bool.or_self,
          Bool.false_eq_true, if_false, decide_true, Bool.and_self, if_true]
        exact .inr ⟨htotal, hpool⟩

/-- What an accepted submission is: a line of a miner that passes the checks, or a posted
share that is passed on. -/
theorem acceptedSubmit_eq_some_iff {s : Submit} :
    acceptedSubmit p g input = some s ↔ g.fault = none ∧
      ((∃ env i text miner, input = .line env i text ∧ g.miners i = some miner ∧
          methodOf text = some (cstr "mining.submit") ∧ submitParams g.job.version text = s ∧
          g.passes p s = true) ∨
        ∃ env r, input = .post env r ∧ r.submit p = .ok s ∧ g.passesOn r s = true) := by
  unfold acceptedSubmit
  cases hfault : g.fault with
  | some fault => simp
  | none =>
    cases input with
    | line env i text =>
      cases hminer : g.miners i with
      | none => simp [submittedAt, hminer]
      | some miner =>
        by_cases hmethod : methodOf text = some (cstr "mining.submit")
        · simp [submittedAt, hminer, hmethod, Option.filter_eq_some_iff]
        · simp [submittedAt, hminer, hmethod]
    | post env r =>
      cases hs : r.submit p with
      | error reply => simp [submittedAt, hs, Except.toOption]
      | ok s' => simp [submittedAt, hs, Except.toOption, Option.filter_eq_some_iff]
    | _ => simp

/-- **What a submission brings.** An accepted one is counted, any other brings nothing. -/
theorem step_submission (h : input.IsSubmission) :
    if (acceptedSubmit p g input).isSome then Counted g (step p g input)
    else ¬ Rewards g (step p g input) := by
  unfold acceptedSubmit step
  cases hfault : g.fault.isSome with
  | true => simp [not_rewards_self]
  | false =>
    simp only [Bool.false_eq_true, if_false]
    cases input with
    | line env i text =>
      cases hminer : g.miners i with
      | none => simp [submittedAt, hminer, not_rewards_self]
      | some miner =>
        by_cases hmethod : methodOf text = some (cstr "mining.submit")
        · have hspec := handleSubmit_spec (p := p) (g := g) env miner (idOf text)
            (submitParams g.job.version text)
          rw [← handleLine_of_submit (i := i) hmethod] at hspec
          simpa [submittedAt, hminer, hmethod, Option.isSome_filter] using hspec
        · simpa [submittedAt, hminer, hmethod] using handleLine_of_not_submit hmethod
    | post env r =>
      cases hs : r.submit p with
      | error reply =>
        simp [submittedAt, hs, postMiningShare, Except.toOption, not_rewards_self]
      | ok s =>
        have hspec := postMiningShare_spec (g := g) env r hs
        simpa [submittedAt, hs, Except.toOption, Option.isSome_filter] using hspec
    | _ => exact h.elim

theorem rewards_iff_accepted (h : input.IsSubmission) :
    Rewards g (step p g input) ↔ (acceptedSubmit p g input).isSome = true := by
  have hstep := step_submission (p := p) (g := g) h
  split at hstep
  · next haccepted => exact ⟨fun _ => haccepted, fun _ => hstep.rewards⟩
  · next haccepted => exact ⟨fun hrewards => absurd hrewards hstep, fun h' => absurd h' haccepted⟩

/-! ### Proof of work before credit -/

/-- The states the gateway can reach. -/
def reach (p : Platform) (inputs : List Input) : Gateway := StepRun.run (step p) .boot inputs

/-- The hash of the header of a submission, read as a number, is at most the target. -/
def MeetsTarget (p : Platform) (g : Gateway) (s : Submit) : Prop :=
  beNat (p.sha256d (g.header s)).toList.reverse ≤ beNat (g.target p)

/-- A submission that brings its sender anything meets the target. -/
def ProofBeforeCredit (p : Platform) (g : Gateway) (input : Input) : Prop :=
  input.IsSubmission → Rewards g (step p g input) →
    ∃ s, submittedAt p g input = some s ∧ MeetsTarget p g s

/-- A posted share whose header misses the target is passed on to the pool. -/
def PassedOnUnchecked (p : Platform) (g : Gateway) (input : Input) : Prop :=
  ∃ env r s, input = .post env r ∧ g.fault = none ∧ r.submit p = .ok s ∧
    g.passesOn r s = true ∧ ¬ MeetsTarget p g s

/-- The check of the proxy is the comparison with the target. -/
theorem meetsTarget_of_passes {s : Submit} (h : g.passes p s = true) : MeetsTarget p g s := by
  unfold Gateway.passes at h
  rw [Bool.and_eq_true] at h
  exact (checkPow_iff p.sha256d (g.header s) (length_buildTarget _ _)).mp h.2

/-- An accepted submission is one that was submitted. -/
theorem submittedAt_of_accepted {s : Submit} (h : acceptedSubmit p g input = some s) :
    submittedAt p g input = some s := by
  obtain ⟨-, ⟨env, i, text, miner, rfl, hminer, hmethod, rfl, -⟩ | ⟨env, r, rfl, hs, -⟩⟩ :=
    acceptedSubmit_eq_some_iff.mp h
  · simp [submittedAt, hminer, hmethod]
  · simp [submittedAt, hs, Except.toOption]

/-- A submission is rewarded without proof exactly when it is passed on unchecked. -/
theorem proofBeforeCredit_iff_of_state (p : Platform) (g : Gateway) (input : Input) :
    ProofBeforeCredit p g input ↔ ¬ PassedOnUnchecked p g input := by
  refine ⟨?_, ?_⟩
  · rintro hproof ⟨env, r, s, rfl, hfault, hs, hpass, hmiss⟩
    have haccepted : acceptedSubmit p g (.post env r) = some s :=
      acceptedSubmit_eq_some_iff.mpr ⟨hfault, .inr ⟨env, r, rfl, hs, hpass⟩⟩
    have hsub : (Input.post env r).IsSubmission := trivial
    have hrewards : Rewards g (step p g (.post env r)) :=
      (rewards_iff_accepted hsub).mpr (by rw [haccepted]; rfl)
    obtain ⟨s', hs', hmeets⟩ := hproof hsub hrewards
    rw [submittedAt_of_accepted haccepted] at hs'
    exact hmiss (Option.some.inj hs' ▸ hmeets)
  · intro hchecked hsub hrewards
    rw [rewards_iff_accepted hsub, Option.isSome_iff_exists] at hrewards
    obtain ⟨s, haccepted⟩ := hrewards
    refine ⟨s, submittedAt_of_accepted haccepted, ?_⟩
    obtain ⟨hfault, hline | ⟨env, r, rfl, hs, hpass⟩⟩ := acceptedSubmit_eq_some_iff.mp haccepted
    -- a line is accepted after the check
    · obtain ⟨env, i, text, miner, -, -, -, -, hpass⟩ := hline
      exact meetsTarget_of_passes hpass
    · by_contra hmiss
      exact hchecked ⟨env, r, s, rfl, hfault, hs, hpass, hmiss⟩

/-- **Exactly when there is proof of work before credit.** In every state the gateway
can reach and for every submission on either path, unless a posted share that misses the
target is passed on. -/
theorem proof_before_credit_iff (p : Platform) (inputs : List Input) (input : Input) :
    ProofBeforeCredit p (reach p inputs) input ↔ ¬ PassedOnUnchecked p (reach p inputs) input :=
  proofBeforeCredit_iff_of_state p (reach p inputs) input

/-- The body of a posted share. -/
def shareBody : CStr := cstr "\x7b\"job_id\":1,\"nonce\":2,\"ntime\":3,\"version\":4\x7d"

/-- The share that the body stands for. -/
def postedShare : Submit := ⟨1, 3, 2, 4⟩

/-- A platform whose hashes are all ones, and whose parser knows this body. -/
def testPlatform : Platform where
  sha256d := fun _ => Vector.replicate 32 0xFF
  quotient := fun _ => 0xFFFF0000
  printTenths := fun _ => cstr "1.0"
  parse := fun body =>
    if body = shareBody then
      some (.object [(cstr "job_id", .number ⟨1, 1, 1⟩), (cstr "nonce", .number ⟨2, 2, 2⟩),
        (cstr "ntime", .number ⟨3, 3, 3⟩), (cstr "version", .number ⟨4, 4, 4⟩)])
    else none
  castUInt32 := fun n => n.valueUInt64.toUInt32
  shareCb := none

/-- A POST with this body, which reaches the pool. -/
def postShare : Input :=
  .post (envAt 1000 "milliseconds") ⟨2, 44, some shareBody, true, smallShare⟩

/-- A pool connection and a job. -/
def testStart : List Input := [.pool true, .setJob testJob]

/-- The posted share is rewarded, and its hash is above every target. -/
theorem postShare_without_proof :
    ¬ ProofBeforeCredit testPlatform (reach testPlatform testStart) postShare := by
  have hsubmit : PostRequest.submit testPlatform ⟨2, 44, some shareBody, true, smallShare⟩ =
      .ok postedShare := by
    decide
  have hmiss : ¬ MeetsTarget testPlatform (reach testPlatform testStart) postedShare := by
    unfold MeetsTarget
    decide
  rw [proofBeforeCredit_iff_of_state, not_not]
  exact ⟨_, _, postedShare, rfl, rfl, hsubmit, rfl, hmiss⟩

/-! ### Credit per submission -/

/-- The submission names the job of the moment. -/
def Gateway.current (g : Gateway) (s : Submit) : Bool := g.job.valid && s.jobId = g.job.jobId

/-- The submissions of a run for the job of the moment. -/
def submissions (p : Platform) : Gateway → List Input → List Submit
  | _, [] => []
  | g, input :: inputs =>
    ((submittedAt p g input).filter g.current).toList ++ submissions p (step p g input) inputs

/-- The accepted ones among them. -/
def ledger (p : Platform) : Gateway → List Input → List Submit
  | _, [] => []
  | g, input :: inputs => (acceptedSubmit p g input).toList ++ ledger p (step p g input) inputs

/-- What one credit for a submission makes of the session tables. -/
def credit (p : Platform) (g : Gateway) (s : Submit) : Input → Core
  | .line env i _ =>
    match g.miners i, p.shareCb with
    | some miner, some cb => cb env g.core miner.ip s
    | _, _ => g.core
  | .post env r => apiPostMiningShare env g.core r.ip r.share
  | _ => g.core

/-- Only the job of the moment is worked on. -/
theorem current_of_accepted {s : Submit} (h : acceptedSubmit p g input = some s) :
    g.current s = true := by
  obtain ⟨-, ⟨env, i, text, miner, -, -, -, -, hpass⟩ | ⟨env, r, -, -, hpass⟩⟩ :=
    acceptedSubmit_eq_some_iff.mp h
  · unfold Gateway.passes at hpass
    rw [Bool.and_eq_true] at hpass
    exact hpass.1
  · simp only [Gateway.passesOn, Bool.and_eq_true, decide_eq_true_eq] at hpass
    simp [Gateway.current, hpass.1.1.1, hpass.1.1.2]

theorem ledger_sublist (p : Platform) (g : Gateway) (inputs : List Input) :
    (ledger p g inputs).Sublist (submissions p g inputs) := by
  induction inputs generalizing g with
  | nil => exact List.Sublist.refl _
  | cons input inputs ih =>
    apply List.Sublist.append _ (ih _)
    cases haccepted : acceptedSubmit p g input with
    | none => exact List.nil_sublist _
    | some s =>
      have hcurrent := current_of_accepted haccepted
      rw [submittedAt_of_accepted haccepted, Option.filter_some_pos hcurrent]

/-- An accepted line is given to the callback once. -/
theorem core_handleSubmit (env : Env) (miner : Miner) (id : UInt32) {s : Submit}
    (h : g.passes p s = true) :
    (handleSubmit p env g miner id s).1.core =
      match p.shareCb with
      | none => g.core
      | some cb => cb env g.core miner.ip s := by
  simp only [Gateway.passes, Bool.and_eq_true, decide_eq_true_eq] at h
  obtain ⟨⟨hvalid, hjob⟩, hpow⟩ := h
  cases hcb : p.shareCb with
  | none => simp [handleSubmit, hvalid, hjob, hpow, hcb]
  | some cb => simp [handleSubmit, hvalid, hjob, hpow, hcb]

/-- A posted share that is passed on is credited once, or its record is missing. -/
theorem core_postMiningShare (env : Env) {r : PostRequest} {s : Submit} (hs : r.submit p = .ok s)
    (h : g.passesOn r s = true) :
    (postMiningShare p env g r).1.core = g.core ∨
      (postMiningShare p env g r).1.core = apiPostMiningShare env g.core r.ip r.share := by
  simp only [Gateway.passesOn, Bool.and_eq_true, decide_eq_true_eq] at h
  obtain ⟨⟨⟨hvalid, hjob⟩, hconn⟩, hwritten⟩ := h
  simp only [postMiningShare, hs, hvalid, hjob, Gateway.submitUpstream, hconn, hwritten,
    Gateway.settlePost, Bool.not_true, ne_eq, not_true_eq_false, decide_false, Bool.or_self,
    Bool.false_eq_true, if_false]
  split
  · exact .inl rfl
  · exact .inr rfl

/-- The session tables are credited for accepted submissions only, and once. -/
theorem core_step (h : input.IsSubmission) :
    (step p g input).core = g.core ∨
      ∃ s, acceptedSubmit p g input = some s ∧ (step p g input).core = credit p g s input := by
  cases haccepted : acceptedSubmit p g input with
  | none =>
    have hnone : ¬ Rewards g (step p g input) := by
      rw [rewards_iff_accepted h, haccepted]
      simp
    exact .inl (not_rewards_iff.mp hnone).2.2.2
  | some s =>
    obtain ⟨hfault, ⟨env, i, text, miner, rfl, hminer, hmethod, rfl, hpass⟩ |
      ⟨env, r, rfl, hs, hpass⟩⟩ := acceptedSubmit_eq_some_iff.mp haccepted
    · refine .inr ⟨_, rfl, ?_⟩
      simp only [step, hfault, Option.isSome_none, Bool.false_eq_true, if_false, hminer,
        handleLine_of_submit hmethod, core_handleSubmit env miner _ hpass, credit]
      cases p.shareCb with
      | none => rfl
      | some cb => rfl
    · simp only [step, hfault, Option.isSome_none, Bool.false_eq_true, if_false]
      rcases core_postMiningShare env hs hpass with hcore | hcore
      · exact .inl hcore
      · exact .inr ⟨s, rfl, hcore⟩

/-- Only submissions move the totals. -/
theorem totals_of_not_submission (h : ¬ input.IsSubmission) :
    (step p g input).totalAccepted = g.totalAccepted ∧
      (step p g input).poolAccepted = g.poolAccepted := by
  unfold step
  split
  · exact ⟨rfl, rfl⟩
  · cases input with
    | line => exact absurd trivial h
    | post => exact absurd trivial h
    | connect ip =>
      simp only [Gateway.registerMiner]
      split <;> exact ⟨rfl, rfl⟩
    | disconnect | setJob | setDifficulty | pool | session => exact ⟨rfl, rfl⟩

/-- A step counts as many shares as it accepts. -/
theorem total_step (p : Platform) (g : Gateway) (input : Input) :
    (step p g input).totalAccepted + (step p g input).poolAccepted =
      g.totalAccepted + g.poolAccepted +
        UInt64.ofNat (acceptedSubmit p g input).toList.length := by
  by_cases hsub : input.IsSubmission
  · have hstep := step_submission (p := p) (g := g) hsub
    cases haccepted : acceptedSubmit p g input with
    | none =>
      rw [haccepted] at hstep
      obtain ⟨htotal, hpool, -, -⟩ := not_rewards_iff.mp hstep
      simp [htotal, hpool]
    | some s =>
      rw [haccepted] at hstep
      rcases hstep with ⟨htotal, hpool⟩ | ⟨htotal, hpool⟩
      · rw [htotal, hpool]
        simp only [Option.toList_some, List.length_singleton]
        ac_rfl
      · rw [htotal, hpool]
        simp only [Option.toList_some, List.length_singleton]
        ac_rfl
  · have hnone : acceptedSubmit p g input = none := by
      cases input <;> first
        | exact absurd trivial hsub
        | exact ite_self none
    obtain ⟨htotal, hpool⟩ := totals_of_not_submission (p := p) (g := g) hsub
    simp [htotal, hpool, hnone]

/-- A run counts as many shares as it accepts. -/
theorem total_run (p : Platform) (g : Gateway) (inputs : List Input) :
    (StepRun.run (step p) g inputs).totalAccepted +
        (StepRun.run (step p) g inputs).poolAccepted =
      g.totalAccepted + g.poolAccepted + UInt64.ofNat (ledger p g inputs).length := by
  induction inputs generalizing g with
  | nil => simp [ledger]
  | cons input inputs ih =>
    rw [StepRun.run_cons, ih, total_step, ledger, List.length_append, UInt64.ofNat_add]
    ac_rfl

/-- **Every submission is credited at most once.** Over every run, a tuple of job id,
nonce, time and version is accepted at most as often as it was submitted while its job
was the one of the moment, and the totals count every accepted submission once. In every
state, an accepted submission credits the session tables at most once and one that is
not accepted brings its sender nothing. -/
theorem credited_once_per_submission (p : Platform) (inputs : List Input) :
    (∀ s, (ledger p .boot inputs).count s ≤ (submissions p .boot inputs).count s) ∧
      (reach p inputs).totalAccepted + (reach p inputs).poolAccepted =
        UInt64.ofNat (ledger p .boot inputs).length ∧
      (∀ input, input.IsSubmission →
        (step p (reach p inputs) input).core = (reach p inputs).core ∨
          ∃ s, acceptedSubmit p (reach p inputs) input = some s ∧
            (step p (reach p inputs) input).core = credit p (reach p inputs) s input) ∧
      ∀ input, input.IsSubmission → acceptedSubmit p (reach p inputs) input = none →
        ¬ Rewards (reach p inputs) (step p (reach p inputs) input) := by
  refine ⟨?_, ?_, fun _ hsub => core_step hsub, ?_⟩
  · intro s
    exact (ledger_sublist p .boot inputs).count_le s
  · have hrun := total_run p .boot inputs
    have hzero : Gateway.boot.totalAccepted + Gateway.boot.poolAccepted = 0 := rfl
    rw [hzero, UInt64.zero_add] at hrun
    exact hrun
  · intro input hsub hnone hrewards
    rw [rewards_iff_accepted hsub, hnone] at hrewards
    exact absurd hrewards (by simp)

/-- The share that was posted once is credited once. -/
theorem postShare_once_credited :
    (ledger testPlatform .boot (testStart ++ [postShare])).count postedShare ≤ 1 ∧
      ¬ Rewards (reach testPlatform [.pool true])
        (step testPlatform (reach testPlatform [.pool true]) postShare) := by
  obtain ⟨hcount, -, -⟩ := credited_once_per_submission testPlatform (testStart ++ [postShare])
  obtain ⟨-, -, -, hnone⟩ := credited_once_per_submission testPlatform [.pool true]
  refine ⟨(hcount postedShare).trans (by decide), ?_⟩
  exact hnone postShare trivial (by decide)

/-- Posted twice, it is counted twice and its value is added to the session twice. -/
theorem postShare_twice_credited :
    (ledger testPlatform .boot (testStart ++ [postShare, postShare])).count postedShare = 2 ∧
      (reach testPlatform (testStart ++ [postShare, postShare])).poolAccepted = 2 ∧
      ((reach testPlatform (testStart ++ [postShare, postShare])).core.clientSession 2).map
        TgSession.allotmentMs = some (2 * smallShare.allotmentMs) := by
  decide

end Mining

end TollGate
