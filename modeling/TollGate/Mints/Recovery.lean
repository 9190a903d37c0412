import TollGate.Mints.Health

/-!
# When a mint is reachable again

What is known of a mint is meant to start over with every negative evidence: it is reachable if
since then an initial probe has succeeded, or three periodic ones (`Recovered`). Each mint is a
machine of its own, `Recovery`, which moves by the events of that mint; the table is a product of
these (`recovery_step`).

A mark starts over only at a mint that is reachable. One that hits a mint on its way back leaves
the successes standing, and `reachable_iff_recovered` says that this is the only way in which
reachability and the rule come apart.
-/

namespace TollGate

namespace Mints

open CStr StepRun

/-! ### The rule -/

/-- What happens to one mint: a probe with its outcome, or a mark. -/
inductive MintEvent where
  | initial (ok : Bool)
  | periodic (ok : Bool)
  | mark
deriving DecidableEq

/-- Negative evidence. -/
def MintEvent.negative : MintEvent → Bool
  | .initial ok => !ok
  | .periodic ok => !ok
  | .mark => true

/-- The events since the last negative evidence, or since the start. -/
def sinceNegative (events : List MintEvent) : List MintEvent :=
  events.rtakeWhile fun e => !e.negative

/-- The periodic successes since then. -/
def successesSince (events : List MintEvent) : ℕ :=
  (sinceNegative events).count (.periodic true)

/-- Since then an initial probe has succeeded, or enough periodic ones. -/
def Recovered (events : List MintEvent) : Prop :=
  .initial true ∈ sinceNegative events ∨ recoveryThreshold.toNat ≤ successesSince events

/-! ### One mint -/

/-- The flag of a mint, and its count. -/
structure Recovery where
  reachable : Bool
  successes : UInt8
deriving DecidableEq

/-- One event. -/
def Recovery.step (r : Recovery) : MintEvent → Recovery
  | .initial true => ⟨true, recoveryThreshold⟩
  | .initial false => ⟨false, 0⟩
  | .periodic true => ⟨r.reachable || r.successes + 1 ≥ recoveryThreshold, r.successes + 1⟩
  | .periodic false => ⟨false, 0⟩
  | .mark => if r.reachable then ⟨false, 0⟩ else r

/-- The event is not a mark on the way back. -/
def Recovery.Spares (r : Recovery) (e : MintEvent) : Prop :=
  e = .mark → r.reachable = false → r.successes = 0

/-- A mint is as the rule says after some events, and an unreachable one has counted them. -/
structure Tracks (events : List MintEvent) (r : Recovery) : Prop where
  reachable : r.reachable = true ↔ Recovered events
  counted : r.reachable = false → r.successes.toNat = successesSince events

section Events

variable {events : List MintEvent} {e : MintEvent}

theorem sinceNegative_of_negative (h : e.negative = true) : sinceNegative (events ++ [e]) = [] :=
  List.rtakeWhile_concat_neg _ _ _ (by simp [h])

theorem sinceNegative_of_not (h : e.negative = false) :
    sinceNegative (events ++ [e]) = sinceNegative events ++ [e] :=
  List.rtakeWhile_concat_pos _ _ _ (by simp [h])

/-- Nothing has happened since. -/
theorem tracks_of_nil (h : sinceNegative events = []) : Tracks events ⟨false, 0⟩ := by
  have hzero : successesSince events = 0 := by
    unfold successesSince
    rw [h]
    rfl
  refine ⟨iff_of_false Bool.false_ne_true ?_, fun _ => hzero.symm⟩
  rintro (hmem | hle)
  · rw [h] at hmem
    exact List.not_mem_nil hmem
  · rw [hzero] at hle
    exact absurd hle (by decide)

/-- Negative evidence starts over. -/
theorem tracks_of_negative (h : e.negative = true) : Tracks (events ++ [e]) ⟨false, 0⟩ :=
  tracks_of_nil (sinceNegative_of_negative h)

/-- Another success. -/
theorem successesSince_periodic :
    successesSince (events ++ [.periodic true]) = successesSince events + 1 := by
  unfold successesSince
  rw [sinceNegative_of_not rfl, List.count_append, List.count_singleton_self]

theorem recovered_periodic :
    Recovered (events ++ [.periodic true]) ↔
      Recovered events ∨ recoveryThreshold.toNat ≤ successesSince events + 1 := by
  unfold Recovered
  rw [successesSince_periodic, sinceNegative_of_not rfl, List.mem_append, List.mem_singleton,
    or_iff_left (by decide : ¬MintEvent.initial true = .periodic true), or_assoc]
  refine or_congr_right ⟨Or.inr, fun h => h.elim (fun h => h.trans (Nat.le_succ _)) id⟩

/-- A periodic success makes the mint reachable with the third since negative evidence. -/
theorem Tracks.success {r : Recovery} (h : Tracks events r) :
    Tracks (events ++ [.periodic true]) (r.step (.periodic true)) := by
  cases hreach : r.reachable with
  | true =>
    have hflag : (r.step (.periodic true)).reachable = true := by simp [Recovery.step, hreach]
    refine ⟨iff_of_true hflag ?_, fun hnot => absurd hflag (by simp [hnot])⟩
    exact recovered_periodic.mpr (Or.inl (h.reachable.mp hreach))
  | false =>
    have hnot : ¬Recovered events := fun hrec =>
      Bool.false_ne_true (hreach.symm.trans (h.reachable.mpr hrec))
    have hfew : successesSince events < 3 := not_le.mp fun hle => hnot (Or.inr hle)
    -- the count is below the threshold, so that it does not wrap
    have hcount : (r.successes + 1).toNat = successesSince events + 1 := by
      rw [UInt8.toNat_add, h.counted hreach]
      show (successesSince events + 1) % 256 = _
      exact Nat.mod_eq_of_lt (by omega)
    refine ⟨?_, fun _ => hcount.trans successesSince_periodic.symm⟩
    rw [recovered_periodic, or_iff_right hnot, ← hcount]
    show (r.reachable || decide (r.successes + 1 ≥ recoveryThreshold)) = true ↔ _
    rw [hreach, Bool.false_or, decide_eq_true_iff]
    exact UInt8.le_iff_toNat_le

/-- **Step lemma.** The rule is kept by all events but a mark on the way back. -/
theorem Tracks.step {r : Recovery} (h : Tracks events r) (hspares : r.Spares e) :
    Tracks (events ++ [e]) (r.step e) := by
  cases e with
  | initial ok =>
    cases ok with
    | true =>
      refine ⟨iff_of_true rfl (Or.inl ?_), nofun⟩
      rw [sinceNegative_of_not rfl]
      exact List.mem_append_right _ List.mem_cons_self
    | false => exact tracks_of_negative rfl
  | periodic ok =>
    cases ok with
    | true => exact h.success
    | false => exact tracks_of_negative rfl
  | mark =>
    cases hreach : r.reachable with
    | true =>
      have hstep : r.step .mark = ⟨false, 0⟩ := if_pos hreach
      rw [hstep]
      exact tracks_of_negative rfl
    | false =>
      have hstep : r.step .mark = ⟨false, 0⟩ := by
        have hzero := hspares rfl hreach
        cases r
        cases hreach
        cases hzero
        rfl
      rw [hstep]
      exact tracks_of_negative rfl

/-- **Run lemma.** -/
theorem tracks_run (h : AllSteps Recovery.step Recovery.Spares ⟨false, 0⟩ events) :
    Tracks events (run Recovery.step ⟨false, 0⟩ events) := by
  induction events using List.reverseRecOn with
  | nil => exact tracks_of_nil rfl
  | append_singleton events e ih =>
    obtain ⟨hfront, hlast, -⟩ := (allSteps_append events [e]).mp h
    rw [run_concat]
    exact (ih hfront).step hlast

theorem sinceNegative_replicate (k : ℕ) :
    sinceNegative (events ++ [.mark] ++ List.replicate k (.periodic true)) =
      List.replicate k (.periodic true) := by
  induction k with
  | zero =>
    rw [List.replicate_zero, List.append_nil]
    exact sinceNegative_of_negative rfl
  | succ k ih =>
    rw [List.replicate_succ', ← List.append_assoc, sinceNegative_of_not rfl, ih]

/-- After a mark on the way back fewer successes do. -/
theorem mark_leaves_standing {r : Recovery} (h : Tracks events r) (hreach : r.reachable = false)
    (hcount : r.successes ≠ 0) :
    ∃ k ≤ 2, (run Recovery.step r (List.replicate k (.periodic true))).reachable = true ∧
      ¬Recovered (events ++ [.mark] ++ List.replicate k (.periodic true)) := by
  have hfew : successesSince events < 3 := by
    refine not_le.mp fun hle => Bool.false_ne_true ?_
    rw [← hreach, ← h.reachable.mpr (Or.inr hle)]
  have hnot : ∀ k < 3, ¬Recovered (events ++ [.mark] ++ List.replicate k (.periodic true)) := by
    rintro k hk (hmem | hle)
    · rw [sinceNegative_replicate] at hmem
      exact absurd (List.eq_of_mem_replicate hmem) (by decide)
    · unfold successesSince at hle
      rw [sinceNegative_replicate, List.count_replicate_self] at hle
      exact absurd hk (not_lt.mpr hle)
  have hpos : r.successes.toNat ≠ 0 := fun hzero => hcount (UInt8.toNat_inj.mp hzero)
  rw [← h.counted hreach] at hfew
  obtain ⟨reachable, successes⟩ := r
  obtain rfl : reachable = false := hreach
  -- one or two successes are left standing
  obtain hone | htwo : successes.toNat = 1 ∨ successes.toNat = 2 := by
    simp only at hfew hpos
    omega
  · obtain rfl : successes = 1 := UInt8.toNat_inj.mp hone
    exact ⟨2, le_rfl, by decide, hnot 2 (by decide)⟩
  · obtain rfl : successes = 2 := UInt8.toNat_inj.mp htwo
    exact ⟨1, by decide, by decide, hnot 1 (by decide)⟩

end Events

/-! ### The table -/

/-- The flag of an entry, and its count. -/
def MintStatus.recovery (m : MintStatus) : Recovery := ⟨m.reachable, m.consecutiveSuccesses⟩

/-- The urls of the entries. -/
def MintHealth.urls (s : MintHealth) : List CStr := s.mints.map MintStatus.url

/-- What an operation is for the mint in a slot: a probe of this slot, or a mark that finds it. -/
def MintOp.event? (urls : List CStr) (i : ℕ) : MintOp → Option MintEvent
  | .probeInitial j p => if j = i then some (.initial p.ok) else none
  | .probe j p => if j = i then some (.periodic p.ok) else none
  | .mark url =>
    if urls.findIdx? (fun u => u == url || (strstr u url).isSome) = some i then some .mark
    else none

/-- The operation does not mark the mint in a slot while it is on its way back. -/
def SparesRecovering (i : ℕ) (s : MintHealth) (op : MintOp) : Prop :=
  ∀ m, s.mints[i]? = some m → op.event? s.urls i = some .mark → m.reachable = false →
    m.consecutiveSuccesses = 0

/-- After a run the mint is reachable exactly if it has recovered. -/
def ReachableIffRecovered (s : MintHealth) (i : ℕ) (ops : List MintOp) : Prop :=
  ∀ m, (run mintStep s ops).mints[i]? = some m →
    (m.reachable = true ↔ Recovered (ops.filterMap (·.event? s.urls i)))

/-- The mint in a slot. -/
def MintHealth.recoveryAt (s : MintHealth) (i : ℕ) : Recovery :=
  (s.mints[i]?.map MintStatus.recovery).getD ⟨false, 0⟩

section Table

variable {s : MintHealth} {i : ℕ} {m : MintStatus} {f : MintStatus → MintStatus}

theorem recoveryAt_get (h : s.mints[i]? = some m) : s.recoveryAt i = m.recovery := by
  unfold MintHealth.recoveryAt
  rw [h]
  rfl

theorem recoveryAt_modify (h : s.mints[i]? = some m) (j : ℕ) :
    (s.modify j f).recoveryAt i = if j = i then (f m).recovery else m.recovery := by
  by_cases hji : j = i
  · subst hji
    rw [if_pos rfl, recoveryAt_get (get_modify_self h)]
  · rw [if_neg hji, recoveryAt_get ((get_modify_of_ne hji).trans h)]

theorem urls_modify (hurl : ∀ m, (f m).url = m.url) (j : ℕ) : (s.modify j f).urls = s.urls := by
  refine List.ext_getElem? fun k => ?_
  unfold MintHealth.urls
  rw [List.getElem?_map, List.getElem?_map]
  by_cases hjk : j = k
  · subst hjk
    cases hget : s.mints[j]? with
    | none =>
      have hnone : (s.modify j f).mints[j]? = none := by
        show (s.mints.modify j f)[j]? = none
        rw [List.getElem?_modify_eq, hget]
        rfl
      rw [hnone]
    | some m => rw [get_modify_self hget, Option.map_some, Option.map_some, hurl]
  · rw [get_modify_of_ne hjk]

theorem urls_step (s : MintHealth) (op : MintOp) : (mintStep s op).urls = s.urls := by
  cases op with
  | probeInitial j p =>
    show (mintHealthUpdateInitial s j p).urls = _
    unfold mintHealthUpdateInitial
    split_ifs
    · rfl
    · exact urls_modify (fun m => url_updateInitial m p) _
  | probe j p =>
    show (mintHealthUpdate s j p).urls = _
    unfold mintHealthUpdate
    split_ifs
    · rfl
    · exact urls_modify (fun m => url_update m p) _
  | mark url =>
    show (mintHealthMarkUnreachable s url).urls = _
    unfold mintHealthMarkUnreachable
    cases s.mints.findIdx? (·.answersTo url) with
    | some j => exact urls_modify url_markUnreachable j
    | none => rfl

theorem recovery_update (m : MintStatus) (p : Probe) :
    (m.update p).recovery = m.recovery.step (.periodic p.ok) := by
  unfold MintStatus.update MintStatus.recovery
  cases hok : p.ok with
  | true =>
    dsimp only
    rw [if_pos rfl]
    show Recovery.mk _ _ = Recovery.mk (m.reachable || decide (_ ≥ _)) _
    by_cases hle : m.consecutiveSuccesses + 1 ≥ recoveryThreshold
    · simp [MintStatus.record, hle]
    · simp [MintStatus.record, hle]
  | false => rfl

theorem recovery_updateInitial (m : MintStatus) (p : Probe) :
    (m.updateInitial p).recovery = m.recovery.step (.initial p.ok) := by
  unfold MintStatus.updateInitial MintStatus.recovery
  cases p.ok <;> rfl

theorem recovery_markUnreachable (m : MintStatus) :
    m.markUnreachable.recovery = m.recovery.step .mark := by
  unfold MintStatus.markUnreachable MintStatus.recovery Recovery.step
  cases hreach : m.reachable <;> simp [hreach]

/-- Both loops find the same slot. -/
theorem findIdx?_urls (s : MintHealth) (url : CStr) :
    s.urls.findIdx? (fun u => u == url || (strstr u url).isSome) =
      s.mints.findIdx? (·.answersTo url) := by
  unfold MintHealth.urls
  rw [List.findIdx?_map]
  rfl

/-- A probe is written down for the slot that it names. -/
theorem recoveryAt_probe (hget : s.mints[i]? = some m) (j : ℤ) :
    (if j < 0 ∨ j ≥ s.mints.length then s else s.modify j.toNat f).recoveryAt i =
      if j = i then (f m).recovery else m.recovery := by
  have hlt : i < s.mints.length := (List.getElem?_eq_some_iff.mp hget).1
  by_cases hj : j < 0 ∨ j ≥ s.mints.length
  · rw [if_pos hj, if_neg (by omega), recoveryAt_get hget]
  · rw [if_neg hj, recoveryAt_modify hget]
    exact if_congr (by omega) rfl rfl

/-- **The table is a product**: a mint moves by its events, and by nothing else. -/
theorem recovery_step (hget : s.mints[i]? = some m) (op : MintOp) :
    (mintStep s op).recoveryAt i =
      (op.event? s.urls i).elim (s.recoveryAt i) (s.recoveryAt i).step := by
  rw [recoveryAt_get hget]
  cases op with
  | probeInitial j p =>
    refine (recoveryAt_probe hget j).trans ?_
    rw [recovery_updateInitial, MintOp.event?]
    split_ifs <;> rfl
  | probe j p =>
    refine (recoveryAt_probe hget j).trans ?_
    rw [recovery_update, MintOp.event?]
    split_ifs <;> rfl
  | mark url =>
    show (mintHealthMarkUnreachable s url).recoveryAt i = _
    unfold mintHealthMarkUnreachable
    rw [MintOp.event?, findIdx?_urls]
    cases s.mints.findIdx? (·.answersTo url) with
    | some j =>
      dsimp only
      rw [recoveryAt_modify hget, recovery_markUnreachable]
      simp only [Option.some.injEq]
      split_ifs <;> rfl
    | none => exact recoveryAt_get hget

/-- The urls of the table, and a mint in the slot. -/
structure Holds (urls : List CStr) (i : ℕ) (s : MintHealth) : Prop where
  same : s.urls = urls
  lt : i < urls.length

theorem Holds.get {urls : List CStr} (h : Holds urls i s) : ∃ m, s.mints[i]? = some m := by
  have hlt : i < s.mints.length := by
    have hlength : s.urls.length = s.mints.length := List.length_map _
    rw [← hlength, h.same]
    exact h.lt
  exact ⟨_, List.getElem?_eq_getElem hlt⟩

theorem Holds.step {urls : List CStr} (h : Holds urls i s) (op : MintOp) :
    Holds urls i (mintStep s op) :=
  ⟨(urls_step s op).trans h.same, h.lt⟩

theorem Holds.recovery_step {urls : List CStr} (h : Holds urls i s) (op : MintOp) :
    (mintStep s op).recoveryAt i =
      (op.event? urls i).elim (s.recoveryAt i) fun e => (s.recoveryAt i).step e := by
  obtain ⟨m, hget⟩ := h.get
  rw [Mints.recovery_step hget, h.same]

theorem Holds.spares {urls : List CStr} (h : Holds urls i s) (op : MintOp) :
    SparesRecovering i s op ↔ ∀ e, op.event? urls i = some e → (s.recoveryAt i).Spares e := by
  obtain ⟨m, hget⟩ := h.get
  unfold SparesRecovering
  rw [recoveryAt_get hget, h.same]
  refine ⟨?_, fun hspares m' hget' hmark => ?_⟩
  · rintro hspares e he rfl
    exact hspares m hget he
  · obtain rfl : m = m' := Option.some.inj (hget.symm.trans hget')
    exact hspares .mark hmark rfl

/-- The mint in a slot after a run. -/
theorem recoveryAt_run {urls : List CStr} (h : Holds urls i s) (ops : List MintOp) :
    (run mintStep s ops).recoveryAt i =
      run Recovery.step (s.recoveryAt i) (ops.filterMap (·.event? urls i)) :=
  run_project (P := Holds urls i) (·.recoveryAt i) (·.event? urls i) (fun _ op h => h.step op)
    (fun _ op h => h.recovery_step op) h ops

theorem allSteps_spares {urls : List CStr} (h : Holds urls i s) (ops : List MintOp) :
    AllSteps mintStep (SparesRecovering i) s ops ↔
      AllSteps Recovery.step Recovery.Spares (s.recoveryAt i)
        (ops.filterMap (·.event? urls i)) :=
  allSteps_project (P := Holds urls i) (·.recoveryAt i) (·.event? urls i)
    (fun _ op h => h.step op) (fun _ op h => h.recovery_step op) (fun _ op h => h.spares op) h ops

end Table

/-! ### Runs from the start -/

variable {urls : List CStr} {ops : List MintOp}

theorem holds_init (i : Fin (mintHealthInit urls).mints.length) :
    Holds (mintHealthInit urls).urls i (mintHealthInit urls) :=
  ⟨rfl, i.isLt.trans_eq (List.length_map _).symm⟩

/-- All mints start unreachable. -/
theorem recoveryAt_init (i : ℕ) : (mintHealthInit urls).recoveryAt i = ⟨false, 0⟩ := by
  unfold MintHealth.recoveryAt mintHealthInit
  dsimp only
  rw [List.getElem?_map]
  cases (urls.take healthMax)[i]? <;> rfl

/-- What the events of a run say of the flag. -/
theorem reachableIffRecovered_iff (i : Fin (mintHealthInit urls).mints.length) :
    ReachableIffRecovered (mintHealthInit urls) i ops ↔
      ((run Recovery.step ⟨false, 0⟩
        (ops.filterMap (·.event? (mintHealthInit urls).urls i))).reachable = true ↔
        Recovered (ops.filterMap (·.event? (mintHealthInit urls).urls i))) := by
  have hrun := recoveryAt_run (holds_init i) ops
  rw [recoveryAt_init] at hrun
  obtain ⟨m, hget⟩ : ∃ m, (run mintStep (mintHealthInit urls) ops).mints[i.val]? = some m :=
    (run_induction (P := Holds (mintHealthInit urls).urls i) (fun _ op h => h.step op)
      (holds_init i) ops).get
  rw [← hrun, recoveryAt_get hget]
  refine ⟨fun h => h m hget, fun h m' hget' => ?_⟩
  obtain rfl : m = m' := Option.some.inj (hget.symm.trans hget')
  exact h

theorem reachable_of_spares (i : Fin (mintHealthInit urls).mints.length)
    (h : AllSteps mintStep (SparesRecovering i) (mintHealthInit urls) ops) :
    Tracks (ops.filterMap (·.event? (mintHealthInit urls).urls i))
      (run Recovery.step ⟨false, 0⟩ (ops.filterMap (·.event? (mintHealthInit urls).urls i))) := by
  rw [allSteps_spares (holds_init i), recoveryAt_init] at h
  exact tracks_run h

/-- A mark on the way back shows after one or two more successes. -/
theorem mark_breaks (i : Fin (mintHealthInit urls).mints.length)
    (hfront : AllSteps mintStep (SparesRecovering i) (mintHealthInit urls) ops) {op : MintOp}
    (hop : ¬SparesRecovering i (run mintStep (mintHealthInit urls) ops) op) {p : Probe}
    (hok : p.ok = true) :
    ∃ k ≤ 2, ¬ReachableIffRecovered (mintHealthInit urls) i
      (ops ++ [op] ++ List.replicate k (.probe i p)) := by
  have htracks := reachable_of_spares i hfront
  have hrun := recoveryAt_run (holds_init i) ops
  rw [recoveryAt_init] at hrun
  have hholds := run_induction (P := Holds (mintHealthInit urls).urls i) (fun _ op h => h.step op)
    (holds_init i) ops
  rw [hholds.spares] at hop
  push Not at hop
  obtain ⟨e, hevent, hnot⟩ := hop
  unfold Recovery.Spares at hnot
  push Not at hnot
  obtain ⟨rfl, hreach, hcount⟩ := hnot
  rw [hrun] at hreach hcount
  obtain ⟨k, hle, hagain, hrecovered⟩ := mark_leaves_standing htracks hreach hcount
  refine ⟨k, hle, fun h => hrecovered ?_⟩
  -- the events are those before, the mark, and the successes
  have hprobe :
      MintOp.event? (mintHealthInit urls).urls i (.probe i p) = some (.periodic true) := by
    rw [MintOp.event?, if_pos rfl, hok]
  rw [reachableIffRecovered_iff, List.filterMap_append, List.filterMap_append,
    List.filterMap_cons_some hevent, List.filterMap_nil, List.filterMap_replicate_of_some hprobe,
    run_append, run_concat] at h
  refine h.mp ?_
  rwa [show Recovery.step _ .mark = _ from if_neg (by rw [hreach]; exact Bool.false_ne_true)]

theorem exists_break (i : Fin (mintHealthInit urls).mints.length) {p : Probe} (hok : p.ok = true)
    (h : ¬AllSteps mintStep (SparesRecovering i) (mintHealthInit urls) ops) :
    ∃ front, front <+: ops ∧ ∃ k ≤ 2, ¬ReachableIffRecovered (mintHealthInit urls) i
      (front ++ List.replicate k (.probe i p)) := by
  induction ops using List.reverseRecOn with
  | nil => exact absurd trivial h
  | append_singleton ops op ih =>
    by_cases hfront : AllSteps mintStep (SparesRecovering i) (mintHealthInit urls) ops
    · have hop : ¬SparesRecovering i (run mintStep (mintHealthInit urls) ops) op := fun hop =>
        h ((allSteps_append ops [op]).mpr ⟨hfront, hop, trivial⟩)
      exact ⟨ops ++ [op], List.prefix_rfl, mark_breaks i hfront hop hok⟩
    · obtain ⟨front, hprefix, hbreak⟩ := ih hfront
      exact ⟨front, hprefix.trans (List.prefix_append _ _), hbreak⟩

/-- **Mint reachability** follows the rule in every state of a run that marks no mint on its way
back. In any other run it comes apart from the rule after such a mark and at most two successful
probes. -/
theorem reachable_iff_recovered (urls : List CStr)
    (i : Fin (mintHealthInit urls).mints.length) (ops : List MintOp) :
    (AllSteps mintStep (SparesRecovering i) (mintHealthInit urls) ops →
      ∀ front, front <+: ops → ReachableIffRecovered (mintHealthInit urls) i front) ∧
    (¬AllSteps mintStep (SparesRecovering i) (mintHealthInit urls) ops →
      ∀ p, p.ok = true → ∃ front, front <+: ops ∧
        ∃ k ≤ 2, ¬ReachableIffRecovered (mintHealthInit urls) i
          (front ++ List.replicate k (.probe i p))) := by
  refine ⟨?_, fun h p hok => exists_break i hok h⟩
  rintro h front ⟨back, rfl⟩
  have hfront := ((allSteps_append front back).mp h).1
  exact (reachableIffRecovered_iff i).mpr (reachable_of_spares i hfront).reachable

/-- A mint that was down at the start, and is marked after two successes, is reachable after
the next one. -/
theorem mark_left_standing :
    ¬ReachableIffRecovered (mintHealthInit [cstr "https://mint.a"]) 0
      [.probeInitial 0 (answered false), .probe 0 (answered true), .probe 0 (answered true),
        .mark (cstr "https://mint.a"), .probe 0 (answered true)] := by
  intro h
  have hrecovered := (h _ rfl).mp (by decide)
  revert hrecovered
  unfold Recovered
  decide

end Mints

end TollGate
