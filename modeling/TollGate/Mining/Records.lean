import TollGate.Mining.Submissions
import TollGate.Mining.Tally

/-!
# The record of a posted share

`api_post_mining_share` counts a share and then reads the record of its client. The
table may have no place for the client. The handler looks at that when it writes the
reply, and not when it credits an accepted share: there a record that is missing is read.

A run comes through all its posted shares exactly if every one that the pool takes finds the
client in the table, a free place or an entry that has aged
(`no_fault_iff`).
-/

namespace TollGate

namespace Mining

open TollGate.Core

variable {p : Platform} {g : Gateway} {now : Int64} {clients : List ClientStats} {ip : Ip}

/-- The table has an entry for the client, or a place for one. -/
def HasPlace (now : Int64) (clients : List ClientStats) (ip : Ip) : Prop :=
  ip ∈ ips clients ∨ clients.length < maxClients ∨ ∃ c ∈ clients, c.Aged now

/-- A look-up fails only for want of a place. -/
theorem getOrCreateClient_eq_none_iff :
    (getOrCreateClient now clients ip).2 = none ↔ ¬ HasPlace now clients ip := by
  have hfound := getOrCreateClient_cases now clients ip
  unfold HasPlace
  generalize getOrCreateClient now clients ip = found at hfound
  cases hfound with
  | known i c hc hip => simp [mem_ips.mpr ⟨c, List.mem_of_getElem? hc, hip⟩]
  | replaced i c hnew hc hage =>
    have haged : ∃ c ∈ clients, c.Aged now := ⟨c, List.mem_of_getElem? hc, hage⟩
    simp [haged]
  | appended hnew hroom => simp [hroom]
  | dropped hnew hfull hyoung =>
    have hno : ¬ ∃ c ∈ clients, c.Aged now := fun ⟨c, hc, hage⟩ => hyoung c hc hage
    simp [hnew, hno, Nat.not_lt.mpr hfull]

/-- The second look-up of the handler finds what the first one found. -/
theorem hasPlace_updateHashrate (now : Int64) (clients : List ClientStats) (ip : Ip)
    (accepted : Bool) :
    HasPlace now (updateHashrate now clients ip accepted) ip ↔ HasPlace now clients ip := by
  have hcases := updateHashrate_cases now clients ip accepted
  generalize updateHashrate now clients ip accepted = after at hcases
  cases hcases with
  | counted i c hc hip =>
    have hlt := (List.getElem?_eq_some_iff.mp hc).1
    refine iff_of_true (.inl (mem_ips.mpr ?_)) (.inl (mem_ips.mpr ?_))
    · exact ⟨_, List.mem_set hlt _, by rw [ip_count, hip]⟩
    · exact ⟨c, List.mem_of_getElem? hc, hip⟩
  | replaced i c _ hc hage =>
    have hlt := (List.getElem?_eq_some_iff.mp hc).1
    refine iff_of_true (.inl (mem_ips.mpr ?_)) (.inr (.inr ⟨c, List.mem_of_getElem? hc, hage⟩))
    exact ⟨_, List.mem_set hlt _, by rw [ip_count]; rfl⟩
  | appended _ hroom =>
    refine iff_of_true (.inl (mem_ips.mpr ?_)) (.inr (.inl hroom))
    exact ⟨_, List.mem_append_right _ (List.mem_singleton_self _), by rw [ip_count]; rfl⟩
  | dropped => exact Iff.rfl

/-! ### One step -/

/-- A posted share that the pool takes finds a place for its client. -/
def FindsRecord (p : Platform) (g : Gateway) (input : Input) : Prop :=
  ∀ env r s, input = .post env r → r.submit p = .ok s → g.passesOn r s = true →
    HasPlace env.now g.clients r.ip

theorem fault_settlePost_false (env : Env) (g : Gateway) (r : PostRequest) :
    (g.settlePost env r false).fault = g.fault := rfl

/-- An accepted share needs a record. -/
theorem fault_settlePost_true (env : Env) {g : Gateway} (r : PostRequest) (h : g.fault = none) :
    (g.settlePost env r true).fault = none ↔ HasPlace env.now g.clients r.ip := by
  rw [← hasPlace_updateHashrate env.now g.clients r.ip true, ← not_iff_not,
    ← getOrCreateClient_eq_none_iff]
  simp only [Gateway.settlePost, Bool.not_true, Bool.false_eq_true, if_false]
  generalize getOrCreateClient env.now (updateHashrate env.now g.clients r.ip true) r.ip = found
  cases hfound : found.2 with
  | none => simp
  | some i => simp [h]

theorem fault_handleLine (env : Env) (g : Gateway) (i : Fin maxMiners) (miner : Miner)
    (line : CStr) : (handleLine p env g i miner line).1.fault = g.fault := by
  have hsubmit : ∀ id s, (handleSubmit p env g miner id s).1.fault = g.fault := by
    intro id s
    unfold handleSubmit
    split_ifs <;> rfl
  unfold handleLine
  split
  · rfl
  · dsimp only
    split_ifs
    · rfl
    · rfl
    · exact hsubmit _ _
    · rfl
    · rfl
    · rfl

/-- A posted share passes the job check and is given to the pool, or nobody is credited. -/
theorem fault_postMiningShare (env : Env) (r : PostRequest) (h : g.fault = none) :
    (postMiningShare p env g r).1.fault = none ↔
      ∀ s, r.submit p = .ok s → g.passesOn r s = true → HasPlace env.now g.clients r.ip := by
  unfold postMiningShare
  cases hs : r.submit p with
  | error reply => simp [h]
  | ok s =>
    simp only [Except.ok.injEq, forall_eq', Gateway.passesOn]
    cases hvalid : g.job.valid with
    | false => simp [h]
    | true =>
      by_cases hjob : g.job.jobId = s.jobId
      case neg => simp [hjob, h]
      cases hconn : g.connected with
      | false => simp [hjob, Gateway.submitUpstream, hconn, fault_settlePost_false, h]
      | true =>
        cases hwritten : r.written with
        | false => simp [hjob, Gateway.submitUpstream, hconn, fault_settlePost_false, h]
        | true =>
          have hsettle := fault_settlePost_true env (g := { g with
            reqId := g.reqId + 1, poolAccepted := g.poolAccepted + 1 }) r h
          simpa [hjob, Gateway.submitUpstream, hconn] using hsettle

theorem fault_step (p : Platform) (g : Gateway) (input : Input) (h : g.fault = none) :
    (step p g input).fault = none ↔ FindsRecord p g input := by
  have hrun : g.fault.isSome = false := by rw [h]; rfl
  unfold step FindsRecord
  rw [hrun, if_neg Bool.false_ne_true]
  cases input with
  | post env r =>
    rw [fault_postMiningShare env r h]
    refine ⟨fun hall => ?_, fun hall s => hall env r s rfl⟩
    rintro env' r' s heq hs hpass
    obtain ⟨rfl, rfl⟩ := Input.post.inj heq
    exact hall s hs hpass
  | connect ip =>
    refine iff_of_true ?_ (by simp)
    simp only [Gateway.registerMiner]
    split <;> exact h
  | line env i text =>
    refine iff_of_true ?_ (by simp)
    dsimp only
    split
    · exact h
    · rw [fault_handleLine]
      exact h
  | disconnect | setJob | setDifficulty | pool | session => exact iff_of_true h (by simp)

/-- A share of the miner at `ip`, which reaches the pool. -/
def shareFrom (ip : Ip) : Input :=
  .post (envAt 1000 "milliseconds") ⟨ip, 44, some shareBody, true, smallShare⟩

end Mining

end TollGate
