import TollGate.Lib.CJson
import TollGate.Lib.Qsort
import TollGate.Lib.Run

/-!
# The choice of a primary and a fallback relay

`relay_selector_t`: the relays of the configuration with what their information documents said
and how often they failed, and the indices of the two that are used. Every full probe and every
relay that is given up sorts copies of the living ones and looks the first two up again, by
their urls.

So the two indices are right in every run exactly if no url is seeded twice
(`selector_iff_nodup`): of two living relays with one url the first is taken for both.
-/

namespace TollGate

namespace Relay

namespace Selector

open CJson CStr StepRun

/-! ### The source operations -/

/-- `relay_info_t`. The numbers of the supported proposals are the entries below their counter. -/
structure RelayInfo where
  url : CStr
  name : CStr
  latencyMs : UInt32
  supportsNip77 : Bool
  alive : Bool
  consecutiveFailures : Int32
  supportedNips : List UInt8
deriving DecidableEq

/-- `relay_selector_t`, the relays below `count`. -/
structure RelaySelector where
  relays : List RelayInfo
  primaryIdx : ℤ
  fallbackIdx : ℤ
  lastFullProbe : UInt32
deriving DecidableEq

/-- `MAX_FAILURES`. -/
def maxFailures : Int32 := 3

/-- `compare_relays`. -/
def compareRelays (ra rb : RelayInfo) : Int32 :=
  if ra.alive ∧ ¬ rb.alive then -1
  else if ¬ ra.alive ∧ rb.alive then 1
  else
    let scoreA := (if ra.supportsNip77 then 1000 else 0) - ra.consecutiveFailures * 100
    let scoreB := (if rb.supportsNip77 then 1000 else 0) - rb.consecutiveFailures * 100
    if scoreA ≠ scoreB then scoreB - scoreA
    else ra.latencyMs.toInt32 - rb.latencyMs.toInt32

/-- `relay_selector_init`. -/
def relaySelectorInit : RelaySelector := ⟨[], -1, -1, 0⟩

/-- A relay as it is seeded into a zeroed record. -/
def seededRelay (url : CStr) : RelayInfo := ⟨strncpy 128 url, [], 0, false, true, 0, []⟩

/-- `relay_selector_seed_from_config`, after the initialization. -/
def relaySelectorSeedFromConfig (seedRelays : List CStr) : RelaySelector :=
  { relaySelectorInit with
    relays := ((seedRelays.filter (· ≠ [])).take 8).map seededRelay }

/-- What the probe of a relay meets: no client, no connection, or an answer with its status, the
milliseconds that it took, and the document in it. -/
inductive Probe where
  | noClient
  | noConnection
  | answer (status : Int32) (latencyMs : UInt32) (root : Option Json)

/-- The lines of `probe_nip11` on the document. -/
def readDocument (root : Json) (info : RelayInfo) : RelayInfo :=
  let info :=
    match (root.getObjectItem "name").bind Json.asString with
    | some name => { info with name := strncpy 64 name }
    | none => info
  match (root.getObjectItem "supported_nips").bind Json.asArray with
  | some nips =>
    let nips := nips.take 32
    { info with
      supportedNips := nips.map fun nip => nip.valueint.toUInt32.toUInt8
      supportsNip77 := nips.any fun nip => nip.valueint = 77 }
  | none => info

/-- `probe_nip11`: whether it is `ESP_OK`, and the relay after it. -/
def probeNip11 (probe : Probe) (info : RelayInfo) : Bool × RelayInfo :=
  match probe with
  | .noClient => (false, info)
  | .noConnection => (false, { info with alive := false })
  | .answer status latencyMs root =>
    if status ≠ 200 then (false, { info with alive := 0 < status })
    else
      let info := { info with latencyMs := latencyMs, alive := true, consecutiveFailures := 0 }
      match root with
      | none => (true, info)
      | some root => (true, readDocument root info)

/-- A failure more. -/
def countFailure (info : RelayInfo) : RelayInfo :=
  { info with consecutiveFailures := info.consecutiveFailures + 1 }

/-- A failure more, the last of which ends the relay. -/
def failRelay (info : RelayInfo) : RelayInfo :=
  if (countFailure info).consecutiveFailures ≥ maxFailures then
    { countFailure info with alive := false }
  else countFailure info

/-- A turn of the loop in `relay_selector_probe_all`. -/
def probeRelay (probe : Probe) (info : RelayInfo) : RelayInfo :=
  if (probeNip11 probe info).1 then (probeNip11 probe info).2
  else failRelay (probeNip11 probe info).2

/-- The index of the first relay with the url. -/
def indexOfUrl (relays : List RelayInfo) (url : CStr) : Option ℕ :=
  relays.findIdx? fun r => r.url = url

/-- `select_primary_fallback`. An index whose loop finds nothing stays what it was. -/
def selectPrimaryFallback (qsort : Qsort RelayInfo) (sel : RelaySelector) : RelaySelector :=
  match qsort.sort compareRelays (sel.relays.filter RelayInfo.alive) with
  | [] => { sel with primaryIdx := -1, fallbackIdx := -1 }
  | first :: others =>
    { sel with
      primaryIdx := ((indexOfUrl sel.relays first.url).map Nat.cast).getD sel.primaryIdx
      fallbackIdx :=
        match others with
        | [] => -1
        | second :: _ =>
          ((indexOfUrl sel.relays second.url).map Nat.cast).getD sel.fallbackIdx }

/-- `relay_selector_probe_all`, with what the probe of each relay meets. -/
def relaySelectorProbeAll (qsort : Qsort RelayInfo) (probes : ℕ → Probe) (now : UInt32)
    (sel : RelaySelector) : RelaySelector :=
  let sel := { sel with relays := sel.relays.mapIdx fun i r => probeRelay (probes i) r }
  { selectPrimaryFallback qsort sel with lastFullProbe := now }

/-- `relay_selector_report_disconnect`. -/
def relaySelectorReportDisconnect (qsort : Qsort RelayInfo) (url : CStr) (sel : RelaySelector) :
    RelaySelector :=
  match indexOfUrl sel.relays url with
  | none => sel
  | some i =>
    let sel' := { sel with relays := sel.relays.modify i failRelay }
    if ∃ r ∈ sel'.relays[i]?, r.consecutiveFailures ≥ maxFailures then
      selectPrimaryFallback qsort sel'
    else sel'

/-- The calls of a run. -/
inductive Call where
  | probeAll (probes : ℕ → Probe) (now : UInt32)
  | reportDisconnect (url : CStr)

/-- One call. -/
def step (qsort : Qsort RelayInfo) (sel : RelaySelector) : Call → RelaySelector
  | .probeAll probes now => relaySelectorProbeAll qsort probes now sel
  | .reportDisconnect url => relaySelectorReportDisconnect qsort url sel

/-! ### What the choice should be -/

/-- The two indices are those of living relays, as far as there are any. -/
structure Designates (sel : RelaySelector) : Prop where
  primary_none : sel.primaryIdx = -1 ↔ ∀ r ∈ sel.relays, ¬ r.alive
  primary_alive : sel.primaryIdx ≠ -1 →
    ∃ i : ℕ, sel.primaryIdx = i ∧ ∃ r ∈ sel.relays[i]?, r.alive
  fallback_none : sel.fallbackIdx = -1 ↔ (sel.relays.filter RelayInfo.alive).length < 2
  fallback_alive : sel.fallbackIdx ≠ -1 →
    ∃ i : ℕ, sel.fallbackIdx = i ∧ (∃ r ∈ sel.relays[i]?, r.alive) ∧
      sel.fallbackIdx ≠ sel.primaryIdx

/-- No living relay is better than the primary, and no other one better than the fallback. -/
structure Best (sel : RelaySelector) : Prop where
  primary : ∀ i : ℕ, sel.primaryIdx = i → ∀ p ∈ sel.relays[i]?, ∀ r ∈ sel.relays, r.alive →
    compareRelays p r ≤ 0
  fallback : ∀ i : ℕ, sel.fallbackIdx = i → ∀ f ∈ sel.relays[i]?, ∀ j : ℕ, sel.primaryIdx ≠ j →
    ∀ r ∈ sel.relays[j]?, r.alive → compareRelays f r ≤ 0

/-- What should hold after a call. -/
def Right (sel : RelaySelector) : Call → Prop
  | .probeAll _ _ => Designates sel ∧ Best sel
  | .reportDisconnect _ => Designates sel

/-- The latencies are those of less than 25 days, and no counter of failures overflows. -/
def InRange (sel : RelaySelector) : Call → Prop
  | .probeAll probes _ =>
    (∀ i status latencyMs root, probes i = .answer status latencyMs root →
      latencyMs.toNat < 2 ^ 31) ∧ ∀ r ∈ sel.relays, r.consecutiveFailures.toInt < 2 ^ 31 - 1
  | .reportDisconnect _ => ∀ r ∈ sel.relays, r.consecutiveFailures.toInt < 2 ^ 31 - 1

/-- A run begins with a probe of all relays. -/
def Begins : List Call → Prop
  | .probeAll _ _ :: _ => True
  | _ => False

/-! ### The comparison -/

/-- What keeps the comparison free of overflows. -/
structure RelayInfo.Counted (r : RelayInfo) : Prop where
  nonneg : 0 ≤ r.consecutiveFailures.toInt
  alive : r.alive → r.consecutiveFailures.toInt < 3
  latency : r.latencyMs.toNat < 2 ^ 31

/-- The score of a relay. -/
def score (r : RelayInfo) : ℤ :=
  (if r.supportsNip77 then 1000 else 0) - 100 * r.consecutiveFailures.toInt

theorem toInt_score {r : RelayInfo} (h : r.Counted) (halive : r.alive) :
    ((if r.supportsNip77 then 1000 else 0) - r.consecutiveFailures * 100 : Int32).toInt =
      score r := by
  have hlow := h.nonneg
  have hhigh := h.alive halive
  have hcases : r.consecutiveFailures.toInt = (0 : Int32).toInt ∨
      r.consecutiveFailures.toInt = (1 : Int32).toInt ∨
        r.consecutiveFailures.toInt = (2 : Int32).toInt := by
    show _ = (0 : ℤ) ∨ _ = (1 : ℤ) ∨ _ = (2 : ℤ)
    omega
  unfold score
  simp only [Int32.toInt_inj] at hcases
  rcases hcases with h | h | h <;> rw [h] <;> cases r.supportsNip77 <;> rfl

theorem toInt_toInt32_of_lt {v : UInt32} (h : v.toNat < 2 ^ 31) : v.toInt32.toInt = v.toNat := by
  show v.toBitVec.toInt = _
  exact BitVec.toInt_eq_toNat_of_lt (by rw [UInt32.toNat_toBitVec]; omega)

/-- Living relays compare by their score and then by their latency. -/
theorem toInt_compareRelays {a b : RelayInfo} (ha : a.Counted) (hb : b.Counted)
    (haliveA : a.alive) (haliveB : b.alive) :
    (compareRelays a b).toInt =
      if score a = score b then (a.latencyMs.toNat : ℤ) - b.latencyMs.toNat
      else score b - score a := by
  -- of living relays both scores are small, so no difference overflows
  have hscoreA := toInt_score ha haliveA
  have hscoreB := toInt_score hb haliveB
  have hrange : ∀ {r : RelayInfo}, r.Counted → r.alive → -300 ≤ score r ∧ score r ≤ 1000 := by
    intro r h halive
    have hlow := h.nonneg
    have hhigh := h.alive halive
    unfold score
    split <;> omega
  unfold compareRelays
  simp only [haliveA, haliveB, not_true, and_false, false_and, if_false]
  generalize ((if a.supportsNip77 then 1000 else 0) - a.consecutiveFailures * 100 : Int32) = scoreA
    at hscoreA ⊢
  generalize ((if b.supportsNip77 then 1000 else 0) - b.consecutiveFailures * 100 : Int32) = scoreB
    at hscoreB ⊢
  by_cases heq : scoreA = scoreB
  · have hla := ha.latency
    have hlb := hb.latency
    rw [if_neg (not_not.mpr heq), if_pos (by rw [← hscoreA, ← hscoreB, heq]), Int32.toInt_sub,
      toInt_toInt32_of_lt hla, toInt_toInt32_of_lt hlb]
    exact Int.bmod_eq_of_le (by omega) (by omega)
  · have hra := hrange ha haliveA
    have hrb := hrange hb haliveB
    have hne : score a ≠ score b := by
      rw [← hscoreA, ← hscoreB]
      exact fun h => heq (Int32.toInt_inj.mp h)
    rw [if_pos heq, if_neg hne, Int32.toInt_sub, hscoreA, hscoreB]
    exact Int.bmod_eq_of_le (by omega) (by omega)

theorem consistentOn_alive {relays : List RelayInfo} (h : ∀ r ∈ relays, r.Counted) :
    Qsort.ConsistentOn compareRelays (relays.filter RelayInfo.alive) := by
  have hmem : ∀ {r}, r ∈ relays.filter RelayInfo.alive → r.Counted ∧ r.alive = true := by
    intro r hr
    obtain ⟨hr, halive⟩ := List.mem_filter.mp hr
    exact ⟨h r hr, halive⟩
  have hzero : (0 : Int32).toInt = 0 := rfl
  refine ⟨fun a ha b hb => ?_, fun a ha b hb c hc => ?_⟩
  · obtain ⟨ha, hla⟩ := hmem ha
    obtain ⟨hb, hlb⟩ := hmem hb
    rw [Int32.lt_iff_toInt_lt, Int32.lt_iff_toInt_lt, toInt_compareRelays ha hb hla hlb,
      toInt_compareRelays hb ha hlb hla, hzero]
    split <;> split <;> omega
  · obtain ⟨ha, hla⟩ := hmem ha
    obtain ⟨hb, hlb⟩ := hmem hb
    obtain ⟨hc, hlc⟩ := hmem hc
    rw [Int32.le_iff_toInt_le, Int32.le_iff_toInt_le, Int32.le_iff_toInt_le,
      toInt_compareRelays ha hb hla hlb, toInt_compareRelays hb hc hlb hlc,
      toInt_compareRelays ha hc hla hlc, hzero]
    split <;> split <;> split <;> omega

/-! ### The choice -/

@[simp] theorem selectPrimaryFallback_relays (qsort : Qsort RelayInfo) (sel : RelaySelector) :
    (selectPrimaryFallback qsort sel).relays = sel.relays := by
  unfold selectPrimaryFallback
  split <;> rfl

/-- A relay is found by its url, when no other one has it. -/
theorem indexOfUrl_of_mem {relays : List RelayInfo} (hnodup : (relays.map RelayInfo.url).Nodup)
    {r : RelayInfo} (hr : r ∈ relays) :
    ∃ i : ℕ, indexOfUrl relays r.url = some i ∧ relays[i]? = some r := by
  have hsome : (indexOfUrl relays r.url).isSome := by
    rw [indexOfUrl, List.findIdx?_isSome]
    exact List.any_eq_true.mpr ⟨r, hr, decide_eq_true rfl⟩
  obtain ⟨i, hi⟩ := Option.isSome_iff_exists.mp hsome
  obtain ⟨hlt, hurl, -⟩ := List.findIdx?_eq_some_iff_getElem.mp hi
  have heq : relays[i] = r :=
    List.inj_on_of_nodup_map hnodup (List.getElem_mem hlt) hr (of_decide_eq_true hurl)
  exact ⟨i, hi, heq ▸ List.getElem?_eq_getElem hlt⟩

/-- The relay at an index, a living one that no other living one is better than. -/
structure IsBest (relays : List RelayInfo) (i : ℕ) (p : RelayInfo) : Prop where
  at_index : relays[i]? = some p
  alive : p.alive
  best : ∀ r ∈ relays, r.alive → compareRelays p r ≤ 0

/-- What `select_primary_fallback` can do, when no url is twice in the list. -/
theorem selectPrimaryFallback_cases (qsort : Qsort RelayInfo) {sel : RelaySelector}
    (hnodup : (sel.relays.map RelayInfo.url).Nodup) (hcounted : ∀ r ∈ sel.relays, r.Counted) :
    (sel.relays.filter RelayInfo.alive = [] ∧
      selectPrimaryFallback qsort sel = { sel with primaryIdx := -1, fallbackIdx := -1 }) ∨
    ∃ (i : ℕ) (p : RelayInfo), IsBest sel.relays i p ∧
      ((sel.relays.filter RelayInfo.alive).length = 1 ∧
          selectPrimaryFallback qsort sel = { sel with primaryIdx := i, fallbackIdx := -1 } ∨
        ∃ (j : ℕ) (f : RelayInfo), i ≠ j ∧ sel.relays[j]? = some f ∧ f.alive ∧
          2 ≤ (sel.relays.filter RelayInfo.alive).length ∧
          (∀ r ∈ sel.relays, r.alive → r ≠ p → compareRelays f r ≤ 0) ∧
          selectPrimaryFallback qsort sel = { sel with primaryIdx := i, fallbackIdx := j }) := by
  have hcons := consistentOn_alive hcounted
  have hperm := qsort.perm hcons
  have hmem : ∀ r, r ∈ sel.relays.filter RelayInfo.alive ↔ r ∈ sel.relays ∧ r.alive := fun r =>
    List.mem_filter
  unfold selectPrimaryFallback
  cases hsort : qsort.sort compareRelays (sel.relays.filter RelayInfo.alive) with
  | nil =>
    rw [hsort] at hperm
    exact .inl ⟨hperm.nil_eq.symm, rfl⟩
  | cons p others =>
    rw [hsort] at hperm
    obtain ⟨hp, halive⟩ := (hmem p).mp (hperm.mem_iff.mp List.mem_cons_self)
    obtain ⟨i, hi, hpi⟩ := indexOfUrl_of_mem hnodup hp
    refine .inr ⟨i, p, ⟨hpi, halive, fun r hr hr' => ?_⟩, ?_⟩
    · exact qsort.cmp_head_le hcons hsort ((hmem r).mpr ⟨hr, hr'⟩)
    cases others with
    | nil =>
      refine .inl ⟨hperm.length_eq.symm, ?_⟩
      dsimp only
      rw [hi]
      rfl
    | cons f rest =>
      obtain ⟨hf, haliveF⟩ :=
        (hmem f).mp (hperm.mem_iff.mp (List.mem_cons_of_mem p List.mem_cons_self))
      obtain ⟨j, hj, hfj⟩ := indexOfUrl_of_mem hnodup hf
      refine .inr ⟨j, f, ?_, hfj, haliveF, ?_, fun r hr hr' hne => ?_, ?_⟩
      · -- at one index the two would be one relay, which stands twice in no sorted list
        rintro rfl
        obtain rfl : p = f := Option.some.inj (hpi.symm.trans hfj)
        have hrelays : (sel.relays.filter RelayInfo.alive).Nodup :=
          (List.Nodup.of_map _ hnodup).filter _
        exact (List.nodup_cons.mp (hperm.nodup_iff.mpr hrelays)).1 List.mem_cons_self
      · rw [← hperm.length_eq]
        exact Nat.le_add_left 2 rest.length
      · exact qsort.cmp_second_le hcons hsort ((hmem r).mpr ⟨hr, hr'⟩) hne
      · dsimp only
        rw [hi, hj]
        rfl

/-- **A choice is right.** -/
theorem selectPrimaryFallback_right (qsort : Qsort RelayInfo) {sel : RelaySelector}
    (hnodup : (sel.relays.map RelayInfo.url).Nodup) (hcounted : ∀ r ∈ sel.relays, r.Counted) :
    Designates (selectPrimaryFallback qsort sel) ∧ Best (selectPrimaryFallback qsort sel) := by
  have hnat : ∀ i : ℕ, (i : ℤ) ≠ -1 := fun i => by omega
  rcases selectPrimaryFallback_cases qsort hnodup hcounted with
    ⟨hnone, h⟩ | ⟨i, p, hp, ⟨hone, h⟩ | ⟨j, f, hij, hf, halive, htwo, hbest, h⟩⟩
  · have hdead : ∀ r ∈ sel.relays, ¬ r.alive := List.filter_eq_nil_iff.mp hnone
    rw [h]
    refine ⟨⟨iff_of_true rfl hdead, absurd rfl, iff_of_true rfl ?_, absurd rfl⟩, ⟨?_, ?_⟩⟩
    · rw [hnone]
      exact Nat.zero_lt_two
    · exact fun i hi => absurd hi.symm (hnat i)
    · exact fun i hi => absurd hi.symm (hnat i)
  · -- one living relay
    have hpmem : p ∈ sel.relays := List.mem_of_getElem? hp.at_index
    rw [h]
    refine ⟨⟨iff_of_false (hnat i) fun hdead => hdead p hpmem hp.alive,
      fun _ => ⟨i, rfl, p, hp.at_index, hp.alive⟩, iff_of_true rfl ?_, absurd rfl⟩, ⟨?_, ?_⟩⟩
    · rw [hone]
      exact Nat.one_lt_two
    · intro k hk q hq
      obtain rfl : i = k := Int.ofNat.inj hk
      obtain rfl : p = q := Option.some.inj (hp.at_index.symm.trans hq)
      exact hp.best
    · exact fun k hk => absurd hk.symm (hnat k)
  · -- at least two
    have hpmem : p ∈ sel.relays := List.mem_of_getElem? hp.at_index
    rw [h]
    refine ⟨⟨iff_of_false (hnat i) fun hdead => hdead p hpmem hp.alive,
      fun _ => ⟨i, rfl, p, hp.at_index, hp.alive⟩, iff_of_false (hnat j) htwo.not_gt,
      fun _ => ⟨j, rfl, ⟨f, hf, halive⟩, fun hji => hij (Int.ofNat.inj hji).symm⟩⟩, ⟨?_, ?_⟩⟩
    · intro k hk q hq
      obtain rfl : i = k := Int.ofNat.inj hk
      obtain rfl : p = q := Option.some.inj (hp.at_index.symm.trans hq)
      exact hp.best
    · intro k hk q hq l hl r hr hr'
      obtain rfl : j = k := Int.ofNat.inj hk
      obtain rfl : f = q := Option.some.inj (hf.symm.trans hq)
      refine hbest r (List.mem_of_getElem? hr) hr' ?_
      rintro rfl
      -- a relay stands at one index only
      have hlt := (List.getElem?_eq_some_iff.mp hp.at_index).1
      exact hl (congrArg Nat.cast ((List.getElem?_inj hlt (List.Nodup.of_map _ hnodup)).mp
        (hp.at_index.trans hr.symm)))

/-! ### What a call does to the relays -/

section Relays

variable {probe : Probe} {r : RelayInfo}

theorem failRelay_url (r : RelayInfo) : (failRelay r).url = r.url := by
  unfold failRelay
  split <;> rfl

theorem readDocument_eq (root : Json) (r : RelayInfo) :
    ∃ name nips nip77, readDocument root r =
      { r with name := name, supportedNips := nips, supportsNip77 := nip77 } := by
  unfold readDocument
  cases (root.getObjectItem "name").bind Json.asString with
  | none =>
    cases (root.getObjectItem "supported_nips").bind Json.asArray with
    | none => exact ⟨_, _, _, rfl⟩
    | some nips => exact ⟨_, _, _, rfl⟩
  | some name =>
    cases (root.getObjectItem "supported_nips").bind Json.asArray with
    | none => exact ⟨_, _, _, rfl⟩
    | some nips => exact ⟨_, _, _, rfl⟩

/-- What a probe does: of a relay that answers the failures are forgotten, of any other one they
are not yet counted. -/
theorem probeNip11_cases (probe : Probe) (r : RelayInfo) :
    (∃ alive, probeNip11 probe r = (false, { r with alive := alive })) ∨
      ∃ latencyMs root, probe = .answer 200 latencyMs root ∧ ∃ name nips nip77,
        probeNip11 probe r =
          (true, { r with
            latencyMs := latencyMs, alive := true, consecutiveFailures := 0, name := name
            supportedNips := nips, supportsNip77 := nip77 }) := by
  cases probe with
  | noClient => exact .inl ⟨r.alive, rfl⟩
  | noConnection => exact .inl ⟨false, rfl⟩
  | answer status latencyMs root =>
    by_cases hstatus : status = 200
    · subst hstatus
      refine .inr ⟨latencyMs, root, rfl, ?_⟩
      unfold probeNip11
      cases root with
      | none => exact ⟨_, _, _, rfl⟩
      | some root =>
        obtain ⟨name, nips, nip77, h⟩ := readDocument_eq root
          { r with latencyMs := latencyMs, alive := true, consecutiveFailures := 0 }
        exact ⟨name, nips, nip77, congrArg (Prod.mk true) h⟩
    · exact .inl ⟨0 < status, if_pos hstatus⟩

theorem probeRelay_url (probe : Probe) (r : RelayInfo) : (probeRelay probe r).url = r.url := by
  unfold probeRelay
  rcases probeNip11_cases probe r with ⟨alive, h⟩ | ⟨latencyMs, root, -, name, nips, nip77, h⟩
  · rw [h]
    exact failRelay_url _
  · rw [h]
    rfl

theorem counted_failRelay (hnonneg : 0 ≤ r.consecutiveFailures.toInt)
    (hmax : r.consecutiveFailures.toInt < 2 ^ 31 - 1) (hlatency : r.latencyMs.toNat < 2 ^ 31) :
    (failRelay r).Counted := by
  have hadd : (r.consecutiveFailures + 1).toInt = r.consecutiveFailures.toInt + 1 := by
    rw [Int32.toInt_add]
    exact Int.bmod_eq_of_le (by change _ ≤ r.consecutiveFailures.toInt + 1; omega)
      (by change r.consecutiveFailures.toInt + 1 < _; omega)
  have hlow : 0 ≤ (r.consecutiveFailures + 1).toInt := by omega
  unfold failRelay
  split
  · exact ⟨hlow, nofun, hlatency⟩
  next hfew =>
    refine ⟨hlow, fun _ => ?_, hlatency⟩
    have hlt := Int32.lt_iff_toInt_lt.mp (Int32.not_le.mp hfew)
    exact hlt

theorem counted_probeRelay (h : r.Counted) (hmax : r.consecutiveFailures.toInt < 2 ^ 31 - 1)
    (hprobe : ∀ status latencyMs root, probe = .answer status latencyMs root →
      latencyMs.toNat < 2 ^ 31) : (probeRelay probe r).Counted := by
  unfold probeRelay
  rcases probeNip11_cases probe r with ⟨alive, hr⟩ | ⟨latencyMs, root, hp, name, nips, nip77, hr⟩
  · rw [hr]
    exact counted_failRelay h.nonneg hmax h.latency
  · rw [hr]
    exact ⟨le_rfl, fun _ => show (0 : ℤ) < 3 by decide, hprobe 200 latencyMs root hp⟩

end Relays

section Updated

variable {relays relays' : List RelayInfo} {g : ℕ → RelayInfo → RelayInfo}

theorem mem_of_updated (h : ∀ i, relays'[i]? = relays[i]?.map (g i)) {r : RelayInfo}
    (hr : r ∈ relays') : ∃ i, ∃ r₀ ∈ relays, r = g i r₀ := by
  obtain ⟨i, hi⟩ := List.mem_iff_getElem?.mp hr
  rw [h i] at hi
  obtain ⟨r₀, hr₀, rfl⟩ := Option.map_eq_some_iff.mp hi
  exact ⟨i, r₀, List.mem_of_getElem? hr₀, rfl⟩

/-- What the update of every relay leaves, the update of the list leaves. -/
theorem map_of_updated {β : Type} {key : RelayInfo → β}
    (h : ∀ i, relays'[i]? = relays[i]?.map (g i))
    (hkey : ∀ i, ∀ r ∈ relays[i]?, key (g i r) = key r) : relays'.map key = relays.map key := by
  ext1 i
  rw [List.getElem?_map, List.getElem?_map, h i, Option.map_map]
  cases hr : relays[i]? with
  | none => rfl
  | some r => exact congrArg some (hkey i r hr)

end Updated

theorem getElem?_probed (probes : ℕ → Probe) (relays : List RelayInfo) (i : ℕ) :
    (relays.mapIdx fun i r => probeRelay (probes i) r)[i]? =
      relays[i]?.map (probeRelay (probes i)) :=
  List.getElem?_mapIdx

theorem getElem?_failed (k : ℕ) (relays : List RelayInfo) (i : ℕ) :
    (relays.modify k failRelay)[i]? =
      relays[i]?.map fun r => if k = i then failRelay r else r :=
  List.getElem?_modify _ _ _ _

/-- The indices stay right where no relay dies or comes back. -/
theorem Designates.of_alive {sel sel' : RelaySelector} (h : Designates sel)
    (halive : sel'.relays.map RelayInfo.alive = sel.relays.map RelayInfo.alive)
    (hprimary : sel'.primaryIdx = sel.primaryIdx) (hfallback : sel'.fallbackIdx = sel.fallbackIdx) :
    Designates sel' := by
  -- all that is said of the relays is said of the list of their flags
  have hdead : ∀ sel : RelaySelector, (∀ r ∈ sel.relays, ¬ r.alive) ↔
      true ∉ sel.relays.map RelayInfo.alive := by
    intro sel
    simp [List.mem_map]
  have hcount : ∀ sel : RelaySelector, (sel.relays.filter RelayInfo.alive).length =
      (sel.relays.map RelayInfo.alive).countP id := by
    intro sel
    rw [← List.countP_eq_length_filter, List.countP_map]
    rfl
  have hat : ∀ (sel : RelaySelector) (i : ℕ), (∃ r ∈ sel.relays[i]?, r.alive) ↔
      (sel.relays.map RelayInfo.alive)[i]? = some true := by
    intro sel i
    rw [List.getElem?_map, Option.map_eq_some_iff]
    rfl
  have hdead' : (∀ r ∈ sel'.relays, ¬ r.alive) ↔ ∀ r ∈ sel.relays, ¬ r.alive := by
    rw [hdead, hdead, halive]
  have hcount' : (sel'.relays.filter RelayInfo.alive).length =
      (sel.relays.filter RelayInfo.alive).length := by
    rw [hcount, hcount, halive]
  have hat' : ∀ i : ℕ, (∃ r ∈ sel'.relays[i]?, r.alive) ↔ ∃ r ∈ sel.relays[i]?, r.alive := by
    intro i
    rw [hat, hat, halive]
  refine ⟨?_, ?_, ?_, ?_⟩
  · rw [hprimary, hdead']
    exact h.primary_none
  · rw [hprimary]
    intro hne
    obtain ⟨i, hi, hr⟩ := h.primary_alive hne
    exact ⟨i, hi, (hat' i).mpr hr⟩
  · rw [hfallback, hcount']
    exact h.fallback_none
  · rw [hfallback, hprimary]
    intro hne
    obtain ⟨i, hi, hr, hother⟩ := h.fallback_alive hne
    exact ⟨i, hi, (hat' i).mpr hr, hother⟩

/-! ### Runs -/

/-- The relays keep their urls, and their counters stay in range. -/
structure Inv (urls : List CStr) (sel : RelaySelector) : Prop where
  urls : sel.relays.map RelayInfo.url = urls
  counted : ∀ r ∈ sel.relays, r.Counted

theorem inv_seed (seedRelays : List CStr) :
    Inv ((relaySelectorSeedFromConfig seedRelays).relays.map RelayInfo.url)
      (relaySelectorSeedFromConfig seedRelays) := by
  refine ⟨rfl, fun r hr => ?_⟩
  obtain ⟨url, -, rfl⟩ := List.mem_map.mp hr
  exact ⟨le_rfl, fun _ => show (0 : ℤ) < 3 by decide, show 0 < 2 ^ 31 by decide⟩

section Step

variable (qsort : Qsort RelayInfo) {urls : List CStr} {sel : RelaySelector}

theorem Inv.probed (h : Inv urls sel) {probes : ℕ → Probe} {now : UInt32}
    (hrange : InRange sel (.probeAll probes now)) :
    Inv urls { sel with relays := sel.relays.mapIdx fun i r => probeRelay (probes i) r } := by
  obtain ⟨hlatency, hmax⟩ := hrange
  refine ⟨?_, fun r hr => ?_⟩
  · rw [← h.urls]
    exact map_of_updated (getElem?_probed probes sel.relays) fun i r _ => probeRelay_url _ r
  · obtain ⟨i, r₀, hr₀, rfl⟩ := mem_of_updated (getElem?_probed probes sel.relays) hr
    exact counted_probeRelay (h.counted r₀ hr₀) (hmax r₀ hr₀) (hlatency i)

theorem Inv.failed (h : Inv urls sel) (i : ℕ)
    (hmax : ∀ r ∈ sel.relays, r.consecutiveFailures.toInt < 2 ^ 31 - 1) :
    Inv urls { sel with relays := sel.relays.modify i failRelay } := by
  refine ⟨?_, fun r hr => ?_⟩
  · rw [← h.urls]
    refine map_of_updated (getElem?_failed i sel.relays) fun k r _ => ?_
    split
    · exact failRelay_url r
    · rfl
  · obtain ⟨k, r₀, hr₀, rfl⟩ := mem_of_updated (getElem?_failed i sel.relays) hr
    have hr := h.counted r₀ hr₀
    split
    · exact counted_failRelay hr.nonneg (hmax r₀ hr₀) hr.latency
    · exact hr

/-- A choice keeps the relays, and is right. -/
theorem Inv.select (hnodup : urls.Nodup) (h : Inv urls sel) :
    Inv urls (selectPrimaryFallback qsort sel) ∧ Designates (selectPrimaryFallback qsort sel) ∧
      Best (selectPrimaryFallback qsort sel) := by
  refine ⟨⟨?_, ?_⟩, selectPrimaryFallback_right qsort (h.urls ▸ hnodup) h.counted⟩
  · rw [selectPrimaryFallback_relays]
    exact h.urls
  · rw [selectPrimaryFallback_relays]
    exact h.counted

/-- A relay that has not failed often enough to be given up lives on. -/
theorem map_alive_failed {i : ℕ}
    (hfew : ¬ ∃ r ∈ (sel.relays.modify i failRelay)[i]?, r.consecutiveFailures ≥ maxFailures) :
    (sel.relays.modify i failRelay).map RelayInfo.alive = sel.relays.map RelayInfo.alive := by
  refine map_of_updated (getElem?_failed i sel.relays) fun k r hr => ?_
  split
  next heq =>
    subst heq
    -- only where the counter has come to its limit is the flag taken
    have hat : (sel.relays.modify i failRelay)[i]? = some (failRelay r) := by
      rw [getElem?_failed, hr, Option.map_some, if_pos rfl]
    unfold failRelay at hat ⊢
    split
    next hmany => exact absurd ⟨_, hat, by rw [if_pos hmany]; exact hmany⟩ hfew
    · rfl
  · rfl

/-- **Every call leaves the indices right**, if they were before a reported disconnect. -/
theorem Inv.step (hnodup : urls.Nodup) (h : Inv urls sel) {call : Call}
    (hrange : InRange sel call)
    (hbefore : ∀ url, call = .reportDisconnect url → Designates sel) :
    Inv urls (Selector.step qsort sel call) ∧ Right (Selector.step qsort sel call) call := by
  cases call with
  | probeAll probes now =>
    obtain ⟨hinv, hdes, hbest⟩ := (h.probed hrange).select qsort hnodup
    exact ⟨⟨hinv.urls, hinv.counted⟩,
      ⟨hdes.primary_none, hdes.primary_alive, hdes.fallback_none, hdes.fallback_alive⟩,
      ⟨hbest.primary, hbest.fallback⟩⟩
  | reportDisconnect url =>
    have hdes : Designates sel := hbefore url rfl
    show Inv urls (relaySelectorReportDisconnect qsort url sel) ∧
      Designates (relaySelectorReportDisconnect qsort url sel)
    unfold relaySelectorReportDisconnect
    cases hi : indexOfUrl sel.relays url with
    | none => exact ⟨h, hdes⟩
    | some i =>
      have hfailed := h.failed i hrange
      dsimp only
      split
      · obtain ⟨hinv, hdes, -⟩ := hfailed.select qsort hnodup
        exact ⟨hinv, hdes⟩
      next hfew => exact ⟨hfailed, hdes.of_alive (map_alive_failed hfew) rfl rfl⟩

/-- After a run the relays are the seeded ones, and after a call the indices are right. -/
theorem Inv.run (hnodup : urls.Nodup) (h : Inv urls sel) (hdes : Designates sel)
    {calls : List Call} (hrange : AllSteps (Selector.step qsort) InRange sel calls) :
    Inv urls (StepRun.run (Selector.step qsort) sel calls) ∧
      Designates (StepRun.run (Selector.step qsort) sel calls) := by
  have hstep : ∀ (sel : RelaySelector) (call : Call), Inv urls sel ∧ Designates sel →
      InRange sel call →
        Inv urls (Selector.step qsort sel call) ∧ Designates (Selector.step qsort sel call) := by
    rintro sel call ⟨h, hdes⟩ hrange
    obtain ⟨hinv, hright⟩ := h.step qsort hnodup hrange fun _ _ => hdes
    refine ⟨hinv, ?_⟩
    cases call with
    | probeAll probes now => exact hright.1
    | reportDisconnect url => exact hright
  exact run_guarded (P := fun sel => Inv urls sel ∧ Designates sel) hstep ⟨h, hdes⟩ hrange

end Step

/-! ### A url that is seeded twice -/

/-- Where all living relays have one url, both indices are that of its first relay. -/
theorem not_designates_of_same_url (qsort : Qsort RelayInfo) {sel : RelaySelector} {url : CStr}
    (hcounted : ∀ r ∈ sel.relays, r.Counted) (hurl : ∀ r ∈ sel.relays, r.alive → r.url = url)
    (htwo : 2 ≤ (sel.relays.filter RelayInfo.alive).length) :
    ¬ Designates (selectPrimaryFallback qsort sel) := by
  have hperm := qsort.perm (consistentOn_alive hcounted)
  have hmem : ∀ r, r ∈ qsort.sort compareRelays (sel.relays.filter RelayInfo.alive) →
      r ∈ sel.relays ∧ r.url = url := by
    intro r hr
    obtain ⟨hr, halive⟩ := List.mem_filter.mp (hperm.mem_iff.mp hr)
    exact ⟨hr, hurl r hr halive⟩
  intro h
  have hfallback := h.fallback_alive
  unfold selectPrimaryFallback at hfallback
  rcases hsort : qsort.sort compareRelays (sel.relays.filter RelayInfo.alive) with
    _ | ⟨p, _ | ⟨f, rest⟩⟩
  · rw [← hperm.length_eq, hsort] at htwo
    exact absurd htwo (by decide)
  · rw [← hperm.length_eq, hsort] at htwo
    exact absurd htwo (by simp)
  · rw [hsort] at hfallback hmem
    obtain ⟨hp, hpurl⟩ := hmem p List.mem_cons_self
    obtain ⟨-, hfurl⟩ := hmem f (List.mem_cons_of_mem p List.mem_cons_self)
    obtain ⟨i, hi⟩ : ∃ i, indexOfUrl sel.relays url = some i := by
      refine Option.isSome_iff_exists.mp ?_
      rw [indexOfUrl, List.findIdx?_isSome]
      exact List.any_eq_true.mpr ⟨p, hp, decide_eq_true hpurl⟩
    dsimp only at hfallback
    rw [hpurl, hfurl, hi] at hfallback
    obtain ⟨-, -, -, hne⟩ := hfallback (show (i : ℤ) ≠ -1 by omega)
    exact hne rfl

/-- The probes that only the relays with the url answer. -/
def onlyUrl (sel : RelaySelector) (url : CStr) (i : ℕ) : Probe :=
  if sel.relays[i]?.map RelayInfo.url = some url then .answer 200 0 none else .noConnection

theorem alive_onlyUrl {sel : RelaySelector} {url : CStr} {i : ℕ} {r : RelayInfo}
    (hr : sel.relays[i]? = some r) :
    (probeRelay (onlyUrl sel url i) r).alive = decide (r.url = url) := by
  unfold onlyUrl
  rw [hr, Option.map_some]
  split
  next hurl =>
    rw [decide_eq_true (Option.some.inj hurl)]
    rfl
  next hurl =>
    rw [decide_eq_false fun heq => hurl (congrArg some heq)]
    show (failRelay { r with alive := false }).alive = false
    unfold failRelay
    split <;> rfl

/-- Such a probe makes the choice wrong, when there are two of them. -/
theorem not_designates_of_duplicate (qsort : Qsort RelayInfo) {urls : List CStr}
    {sel : RelaySelector} (h : Inv urls sel) {url : CStr} (hdup : 2 ≤ urls.countP fun u => u = url)
    (hrange : InRange sel (.probeAll (onlyUrl sel url) 0)) :
    ¬ Designates (step qsort sel (.probeAll (onlyUrl sel url) 0)) := by
  have hprobed := h.probed hrange
  generalize hrelays : (sel.relays.mapIdx fun i r => probeRelay (onlyUrl sel url i) r) = relays
    at hprobed
  have hat : ∀ i, relays[i]? = sel.relays[i]?.map (probeRelay (onlyUrl sel url i)) := by
    rw [← hrelays]
    exact getElem?_probed (onlyUrl sel url) sel.relays
  have halive : ∀ r ∈ relays, r.alive = decide (r.url = url) := by
    intro r hr
    obtain ⟨i, hi⟩ := List.mem_iff_getElem?.mp hr
    rw [hat i] at hi
    obtain ⟨r₀, hr₀, rfl⟩ := Option.map_eq_some_iff.mp hi
    rw [alive_onlyUrl hr₀, probeRelay_url]
  have hcount : (relays.filter RelayInfo.alive).length = urls.countP fun u => u = url := by
    rw [← hprobed.urls, ← List.countP_eq_length_filter, List.countP_map]
    refine List.countP_congr fun r hr => ?_
    rw [halive r hr]
    rfl
  intro hdes
  refine @not_designates_of_same_url qsort _ url hprobed.counted
    (fun r hr hlive => ?_) (hcount ▸ hdup) ?_
  · have hdec := halive r hr
    rw [hlive] at hdec
    exact of_decide_eq_true hdec.symm
  · subst hrelays
    exact ⟨hdes.primary_none, hdes.primary_alive, hdes.fallback_none, hdes.fallback_alive⟩

/-- **Exactly when the indices are right in every run**: no url is seeded twice. -/
theorem selector_iff_nodup (qsort : Qsort RelayInfo) (seedRelays : List CStr) :
    (∀ (before : List Call) (call : Call), Begins (before ++ [call]) →
        AllSteps (step qsort) InRange (relaySelectorSeedFromConfig seedRelays) (before ++ [call]) →
        Right (run (step qsort) (relaySelectorSeedFromConfig seedRelays) (before ++ [call])) call) ↔
      ((relaySelectorSeedFromConfig seedRelays).relays.map RelayInfo.url).Nodup := by
  have hinv := inv_seed seedRelays
  refine ⟨fun h => ?_, fun hnodup before call hbegins hrange => ?_⟩
  · -- a run of one call, in which exactly the relays of a doubled url answer
    by_contra hdup
    obtain ⟨url, hurl⟩ := List.exists_duplicate_iff_not_nodup.mpr hdup
    have htwo := (List.duplicate_iff_two_le_count.mp hurl).trans_eq
      (List.countP_congr fun u _ => Iff.rfl)
    -- a fresh relay has no failures, and the answers take no time
    have hrange : InRange (relaySelectorSeedFromConfig seedRelays)
        (.probeAll (onlyUrl (relaySelectorSeedFromConfig seedRelays) url) 0) := by
      refine ⟨fun i status latencyMs root hprobe => ?_, fun r hr => ?_⟩
      · unfold onlyUrl at hprobe
        split at hprobe
        · obtain ⟨-, rfl, -⟩ := Probe.answer.inj hprobe
          decide
        · cases hprobe
      · obtain ⟨url, -, rfl⟩ := List.mem_map.mp hr
        show (0 : ℤ) < 2 ^ 31 - 1
        norm_num
    have hdes := (h [] (.probeAll _ 0) trivial ⟨hrange, trivial⟩).1
    exact not_designates_of_duplicate qsort hinv htwo hrange hdes
  · cases before with
    | nil =>
      cases call with
      | probeAll probes now => exact (hinv.step qsort hnodup hrange.1 nofun).2
      | reportDisconnect url => exact hbegins.elim
    | cons first before =>
      cases first with
      | reportDisconnect url => exact hbegins.elim
      | probeAll probes now =>
        -- the first probe makes the indices right, and every call keeps them so
        obtain ⟨hfirst, hrest⟩ := hrange
        obtain ⟨hbefore, hlast⟩ := (allSteps_append before [call]).mp hrest
        obtain ⟨hprobed, hdes, -⟩ := hinv.step qsort hnodup hfirst nofun
        obtain ⟨hrun, hdes⟩ := hprobed.run qsort hnodup hdes hbefore
        rw [List.cons_append, run_cons, run_concat]
        exact (hrun.step qsort hnodup hlast.1 fun _ _ => hdes).2

/-- A configuration that names a relay twice. -/
def twiceSeeded : List CStr := [cstr "wss://a", cstr "wss://a"]

/-- Both entries answer. -/
def bothAnswer : Call := .probeAll (fun _ => .answer 200 5 none) 0

theorem fallback_is_primary :
    (step (Qsort.insertion RelayInfo) (relaySelectorSeedFromConfig twiceSeeded)
      bothAnswer).primaryIdx = 0 ∧
    (step (Qsort.insertion RelayInfo) (relaySelectorSeedFromConfig twiceSeeded)
      bothAnswer).fallbackIdx = 0 ∧
    ¬ Designates (step (Qsort.insertion RelayInfo) (relaySelectorSeedFromConfig twiceSeeded)
      bothAnswer) := by
  have hprimary : (step (Qsort.insertion RelayInfo) (relaySelectorSeedFromConfig twiceSeeded)
      bothAnswer).primaryIdx = 0 := by decide
  have hfallback : (step (Qsort.insertion RelayInfo) (relaySelectorSeedFromConfig twiceSeeded)
      bothAnswer).fallbackIdx = 0 := by decide
  refine ⟨hprimary, hfallback, fun h => ?_⟩
  obtain ⟨-, -, -, hne⟩ := h.fallback_alive (by rw [hfallback]; decide)
  exact hne (hfallback.trans hprimary.symm)

end Selector

end Relay

end TollGate
