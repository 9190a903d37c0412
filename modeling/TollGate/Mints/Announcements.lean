import TollGate.Mints.Health

/-!
# Announcing changes

Every five minutes `run_probes` probes all mints and tells those who have registered a callback
when the set of reachable mints has changed. What it compares is not the set but the number of its
members, so that a mint that is gained in the same run in which another one is lost is not
announced (`announced_iff`).

Probes take place in the world; what they give is a function of the slot.
-/

namespace TollGate

namespace Mints

open CStr StepRun

/-! ### The source operations -/

/-- `MAX_CALLBACKS`. -/
abbrev maxCallbacks : ℕ := 4

variable {κ : Type*}

/-- The table and the callbacks that are registered. -/
structure HealthService (κ : Type*) where
  health : MintHealth
  callbacks : List κ
  /-- They fit the array. -/
  length_le : callbacks.length ≤ maxCallbacks

/-- `mint_health_register_callback`; a null pointer is not registered. -/
def registerCallback (s : HealthService κ) (cb : Option κ) : HealthService κ :=
  match cb with
  | some cb =>
    if h : s.callbacks.length < maxCallbacks then
      { s with
        callbacks := s.callbacks ++ [cb]
        length_le := by rwa [List.length_append, List.length_singleton] }
    else s
  | none => s

/-- What `probe_mint` says of a slot, the error that it leaves, and the time. -/
structure Outcome where
  ok : Bool
  err : Int32
  timeMs : Int64

/-- What is handed on of it. -/
def Outcome.probe (o : Outcome) : Probe :=
  ⟨o.ok, if o.ok then 200 else 0, if o.ok then 0 else o.err, o.timeMs⟩

/-- The loop of `run_probes`. -/
def probeAll (s : MintHealth) (outcome : ℕ → Outcome) : MintHealth :=
  (List.range s.mints.length).foldl (fun s (i : ℕ) => mintHealthUpdate s i (outcome i).probe) s

/-- `run_probes`, and the callbacks that are called. Nothing is done when the mutex is not taken
in time. -/
def runProbes (s : HealthService κ) (taken : Bool) (outcome : ℕ → Outcome) :
    HealthService κ × List κ :=
  if !taken then (s, [])
  else
    let health := probeAll s.health outcome
    let changed := mintHealthCountReachable s.health ≠ mintHealthCountReachable health
    ({ s with health := health }, if changed then s.callbacks else [])

/-! ### What is to be announced -/

/-- The slots of which something is true. -/
def MintHealth.slotsWhere (s : MintHealth) (test : ℕ → MintStatus → Bool) : Finset ℕ :=
  (Finset.range s.mints.length).filter fun i => s.mints[i]?.any (test i) = true

/-- The reachable mints. -/
def MintHealth.reachable (s : MintHealth) : Finset ℕ := s.slotsWhere fun _ m => m.reachable

/-- The callbacks are called if the set of reachable mints has changed, and not otherwise. -/
structure Announces (s : HealthService κ) (r : HealthService κ × List κ) : Prop where
  changed : r.1.health.reachable ≠ s.health.reachable → r.2 = s.callbacks
  same : r.1.health.reachable = s.health.reachable → r.2 = []

/-- The mints that are reachable only after the probes: the success is one too many to wait. -/
def MintHealth.gained (s : MintHealth) (outcome : ℕ → Outcome) : Finset ℕ :=
  s.slotsWhere fun i m =>
    !m.reachable && ((outcome i).ok && m.consecutiveSuccesses + 1 ≥ recoveryThreshold)

/-- The mints that are reachable only before them. -/
def MintHealth.lost (s : MintHealth) (outcome : ℕ → Outcome) : Finset ℕ :=
  s.slotsWhere fun i m => m.reachable && !(outcome i).ok

/-! ### The table after the probes -/

section Probes

variable {s : MintHealth} {outcome : ℕ → Outcome}

theorem mem_slotsWhere {test : ℕ → MintStatus → Bool} {i : ℕ} :
    i ∈ s.slotsWhere test ↔ ∃ m, s.mints[i]? = some m ∧ test i m = true := by
  unfold MintHealth.slotsWhere
  rw [Finset.mem_filter, Finset.mem_range, Option.any_eq_true]
  refine and_iff_right_of_imp ?_
  rintro ⟨m, hget, -⟩
  exact (List.getElem?_eq_some_iff.mp hget).1

/-- One turn of the loop. -/
theorem get_update (s : MintHealth) (k j : ℕ) (p : Probe) :
    (mintHealthUpdate s k p).mints[j]? =
      s.mints[j]?.map fun m => if k = j then m.update p else m := by
  unfold mintHealthUpdate
  by_cases hk : (k : ℤ) < 0 ∨ (k : ℤ) ≥ s.mints.length
  · rw [if_pos hk]
    by_cases hkj : k = j
    · rw [List.getElem?_eq_none (by omega), Option.map_none]
    · simp only [if_neg hkj, Option.map_id']
  · rw [if_neg hk]
    exact List.getElem?_modify _ _ _ _

/-- The first turns of the loop. -/
theorem get_foldl_update (s : MintHealth) (outcome : ℕ → Outcome) (k j : ℕ) :
    ((List.range k).foldl
      (fun s (i : ℕ) => mintHealthUpdate s i (outcome i).probe) s).mints[j]? =
        s.mints[j]?.map fun m => if j < k then m.update (outcome j).probe else m := by
  induction k with
  | zero => simp
  | succ k ih =>
    rw [List.range_succ, List.foldl_concat, get_update, ih, Option.map_map]
    refine congrArg (fun f => s.mints[j]?.map f) (funext fun m => ?_)
    show (if k = j then _ else _) = _
    -- the slot is the last one, or it had its turn, or it has it later
    by_cases hkj : k = j
    · subst hkj
      dsimp only
      rw [if_pos rfl, if_neg (lt_irrefl k), if_pos (Nat.lt_succ_self k)]
    · rw [if_neg hkj]
      exact if_congr (by omega) rfl rfl

/-- Every mint is probed once. -/
theorem get_probeAll (s : MintHealth) (outcome : ℕ → Outcome) (j : ℕ) :
    (probeAll s outcome).mints[j]? = s.mints[j]?.map (·.update (outcome j).probe) := by
  unfold probeAll
  rw [get_foldl_update]
  cases hget : s.mints[j]? with
  | none => rfl
  | some m => rw [Option.map_some, Option.map_some, if_pos (List.getElem?_eq_some_iff.mp hget).1]

theorem reachable_update (m : MintStatus) (o : Outcome) :
    (m.update o.probe).reachable =
      (o.ok && (m.reachable || m.consecutiveSuccesses + 1 ≥ recoveryThreshold)) := by
  unfold MintStatus.update Outcome.probe
  cases o.ok with
  | true =>
    by_cases hle : m.consecutiveSuccesses + 1 ≥ recoveryThreshold <;>
      simp [MintStatus.record, hle]
  | false => rfl

theorem mem_reachable {i : ℕ} :
    i ∈ s.reachable ↔ ∃ m, s.mints[i]? = some m ∧ m.reachable = true :=
  mem_slotsWhere

theorem mem_reachable_probeAll {i : ℕ} :
    i ∈ (probeAll s outcome).reachable ↔ ∃ m, s.mints[i]? = some m ∧ (outcome i).ok = true ∧
      (m.reachable = true ∨ m.consecutiveSuccesses + 1 ≥ recoveryThreshold) := by
  rw [mem_reachable, get_probeAll]
  constructor
  · rintro ⟨m', hmap, hreach⟩
    obtain ⟨m, hget, rfl⟩ := Option.map_eq_some_iff.mp hmap
    exact ⟨m, hget, by simpa [reachable_update] using hreach⟩
  · rintro ⟨m, hget, hreach⟩
    exact ⟨_, by rw [hget, Option.map_some], by simpa [reachable_update] using hreach⟩

theorem reachable_sdiff_before :
    (probeAll s outcome).reachable \ s.reachable = s.gained outcome := by
  ext i
  rw [Finset.mem_sdiff, mem_reachable_probeAll, mem_reachable, MintHealth.gained, mem_slotsWhere]
  constructor
  · rintro ⟨⟨m, hget, hok, hreach⟩, hbefore⟩
    have hnot : ¬m.reachable = true := fun hm => hbefore ⟨m, hget, hm⟩
    refine ⟨m, hget, ?_⟩
    simp [hok, hreach.resolve_left hnot, eq_false_of_ne_true hnot]
  · rintro ⟨m, hget, htest⟩
    obtain ⟨hnot, hok, hcount⟩ : m.reachable = false ∧ (outcome i).ok = true ∧
        m.consecutiveSuccesses + 1 ≥ recoveryThreshold := by simpa using htest
    refine ⟨⟨m, hget, hok, Or.inr hcount⟩, ?_⟩
    rintro ⟨m', hget', hm'⟩
    obtain rfl : m = m' := Option.some.inj (hget.symm.trans hget')
    exact Bool.false_ne_true (hnot.symm.trans hm')

theorem reachable_sdiff_after : s.reachable \ (probeAll s outcome).reachable = s.lost outcome := by
  ext i
  rw [Finset.mem_sdiff, mem_reachable_probeAll, mem_reachable, MintHealth.lost, mem_slotsWhere]
  constructor
  · rintro ⟨⟨m, hget, hreach⟩, hafter⟩
    have hfail : ¬(outcome i).ok = true := fun hok => hafter ⟨m, hget, hok, Or.inl hreach⟩
    exact ⟨m, hget, by simp [hreach, eq_false_of_ne_true hfail]⟩
  · rintro ⟨m, hget, htest⟩
    obtain ⟨hreach, hfail⟩ : m.reachable = true ∧ (outcome i).ok = false := by simpa using htest
    refine ⟨⟨m, hget, hreach⟩, ?_⟩
    rintro ⟨_, -, hok, -⟩
    exact Bool.false_ne_true (hfail.symm.trans hok)

/-! ### What is compared -/

theorem card_filter_any (l : List MintStatus) (test : MintStatus → Bool) :
    ((Finset.range l.length).filter fun i => l[i]?.any test = true).card = l.countP test := by
  induction l using List.reverseRecOn with
  | nil => rfl
  | append_singleton l m ih =>
    have hfront : ((Finset.range l.length).filter fun i => (l ++ [m])[i]?.any test = true) =
        (Finset.range l.length).filter fun i => l[i]?.any test = true :=
      Finset.filter_congr fun i hi => by
        rw [List.getElem?_append_left (Finset.mem_range.mp hi)]
    have hlast : (l ++ [m])[l.length]?.any test = test m := by
      rw [List.getElem?_concat_length, Option.any_some]
    rw [List.length_append, List.length_singleton, Finset.range_add_one, Finset.filter_insert,
      hlast, hfront, List.countP_append, List.countP_singleton, ← ih]
    split_ifs
    · exact Finset.card_insert_of_notMem (by simp)
    · rfl

theorem countReachable_eq_card (s : MintHealth) :
    mintHealthCountReachable s = s.reachable.card :=
  (card_filter_any s.mints _).symm

/-- The counts agree exactly if as many mints are lost as are gained. -/
theorem countReachable_probeAll_iff :
    mintHealthCountReachable s = mintHealthCountReachable (probeAll s outcome) ↔
      (s.gained outcome).card = (s.lost outcome).card := by
  rw [countReachable_eq_card, countReachable_eq_card, ← reachable_sdiff_before,
    ← reachable_sdiff_after, Finset.card_sdiff_eq_card_sdiff_iff, eq_comm]

theorem reachable_probeAll_eq_iff :
    (probeAll s outcome).reachable = s.reachable ↔ s.gained outcome = ∅ ∧ s.lost outcome = ∅ := by
  rw [← reachable_sdiff_before, ← reachable_sdiff_after, Finset.sdiff_eq_empty_iff_subset,
    Finset.sdiff_eq_empty_iff_subset]
  exact ⟨fun h => ⟨h.le, h.ge⟩, fun h => h.1.antisymm h.2⟩

end Probes

/-- The callbacks that are called. -/
theorem runProbes_taken (s : HealthService κ) (outcome : ℕ → Outcome) :
    runProbes s true outcome = ({ s with health := probeAll s.health outcome },
      if (s.health.gained outcome).card ≠ (s.health.lost outcome).card then s.callbacks
      else []) := by
  unfold runProbes
  rw [if_neg (by decide)]
  exact congrArg (Prod.mk _) (if_congr (not_congr countReachable_probeAll_iff) rfl rfl)

/-- **Changes of reachability are announced** exactly if nobody is to be told, or the mutex is not
taken, or not as many mints are gained as are lost, or none. -/
theorem announced_iff (s : HealthService κ) (taken : Bool) (outcome : ℕ → Outcome) :
    Announces s (runProbes s taken outcome) ↔
      s.callbacks = [] ∨ taken = false ∨
        (s.health.gained outcome).card ≠ (s.health.lost outcome).card ∨
        s.health.gained outcome = ∅ := by
  cases taken with
  | false => exact iff_of_true ⟨fun h => absurd rfl h, fun _ => rfl⟩ (Or.inr (Or.inl rfl))
  | true =>
    rw [runProbes_taken, or_iff_right (by decide : ¬true = false)]
    by_cases hcard : (s.health.gained outcome).card = (s.health.lost outcome).card
    · rw [if_neg (not_not.mpr hcard), or_iff_right (not_not.mpr hcard)]
      constructor
      · intro h
        by_cases hnone : s.health.gained outcome = ∅
        · exact Or.inr hnone
        · exact Or.inl (h.changed fun hsame => hnone (reachable_probeAll_eq_iff.mp hsame).1).symm
      · rintro (hnobody | hnone)
        · exact ⟨fun _ => hnobody.symm, fun _ => rfl⟩
        · -- without a gain there is no loss either
          have hlost : s.health.lost outcome = ∅ := by
            rw [← Finset.card_eq_zero, ← hcard, hnone, Finset.card_empty]
          exact ⟨fun h => absurd (reachable_probeAll_eq_iff.mpr ⟨hnone, hlost⟩) h, fun _ => rfl⟩
    · rw [if_pos hcard]
      refine iff_of_true ⟨fun _ => rfl, fun hsame => absurd ?_ hcard⟩ (Or.inr (Or.inl hcard))
      obtain ⟨hgained, hlost⟩ := reachable_probeAll_eq_iff.mp hsame
      rw [hgained, hlost]

/-- Two mints of which the first is reachable and the second has answered twice, with a callback. -/
def onTheWayBack : HealthService Unit :=
  registerCallback
    { health := run mintStep (mintHealthInit [cstr "https://mint.a", cstr "https://mint.b"])
        [.probeInitial 0 (answered true), .probeInitial 1 (answered false),
          .probe 0 (answered true), .probe 1 (answered true),
          .probe 0 (answered true), .probe 1 (answered true)]
      callbacks := []
      length_le := Nat.zero_le _ }
    (some ())

/-- Only the second answers. -/
def secondAnswers (i : ℕ) : Outcome := ⟨i = 1, 0, 2000⟩

/-- The first is lost, the second is gained, and the callback is not called. -/
theorem swap_not_announced :
    (runProbes onTheWayBack true secondAnswers).1.health.reachable = {1} ∧
      onTheWayBack.health.reachable = {0} ∧
      (runProbes onTheWayBack true secondAnswers).2 = [] ∧
      ¬Announces onTheWayBack (runProbes onTheWayBack true secondAnswers) := by
  have hafter : (runProbes onTheWayBack true secondAnswers).1.health.reachable = {1} := by decide
  have hbefore : onTheWayBack.health.reachable = {0} := by decide
  refine ⟨hafter, hbefore, by decide, fun h => ?_⟩
  have hcalled := h.changed (by rw [hafter, hbefore]; decide)
  exact absurd hcalled (by decide)

end Mints

end TollGate
