import TollGate.Lib.CText
import TollGate.Lib.Run

/-!
# Health of the mints

The gateway keeps a table of the mints it is configured with. A probe that fails makes a mint
unreachable, and so does a payment that fails (`tollgate_core_mint_health_mark_unreachable`); the
first probe makes it reachable at once, a later one only with the third success in a row.

Two of the operations look a mint up by url, and they take the first entry whose url occurs
anywhere in the one that is asked for: that the configured url is asked for with a path behind it
is intended. `lookup_own_iff` says when a configured url is looked up at its own entry. No pointer
is null here.
-/

namespace TollGate

namespace Mints

open CStr StepRun

/-! ### The table -/

/-- `TG_MINT_HEALTH_MAX`. -/
abbrev healthMax : ℕ := 8

/-- `TG_MINT_HEALTH_RECOVERY_THRESHOLD`. -/
abbrev recoveryThreshold : UInt8 := 3

/-- `tollgate_mint_status_t`. -/
structure MintStatus where
  url : CStr
  reachable : Bool
  consecutiveSuccesses : UInt8
  lastProbeMs : Int64
  lastHttpStatus : Int32
  lastErr : Int32

/-- `tollgate_mint_health_t`: the entries below `count`. -/
structure MintHealth where
  mints : List MintStatus
  /-- They fit the array. -/
  length_le : mints.length ≤ healthMax

/-- `mint_health_init`. -/
def mintHealthInit (urls : List CStr) : MintHealth where
  mints := (urls.take healthMax).map fun url => ⟨url.strncpy 256, false, 0, 0, 0, 0⟩
  length_le := by
    rw [List.length_map, List.length_take]
    exact min_le_left _ _

/-- What a probe gave, and when. -/
structure Probe where
  ok : Bool
  httpStatus : Int32
  errCode : Int32
  timeMs : Int64

/-- What both kinds of probe write down. -/
def MintStatus.record (m : MintStatus) (p : Probe) : MintStatus :=
  { m with
    lastProbeMs := p.timeMs
    lastHttpStatus := if p.ok then p.httpStatus else 0
    lastErr := if p.ok then 0 else p.errCode }

/-- The entry under `tollgate_core_mint_health_update`. -/
def MintStatus.update (m : MintStatus) (p : Probe) : MintStatus :=
  let m := m.record p
  if p.ok then
    let m := { m with consecutiveSuccesses := m.consecutiveSuccesses + 1 }
    if m.consecutiveSuccesses ≥ recoveryThreshold then { m with reachable := true } else m
  else { m with reachable := false, consecutiveSuccesses := 0 }

/-- The entry under `tollgate_core_mint_health_update_initial`. -/
def MintStatus.updateInitial (m : MintStatus) (p : Probe) : MintStatus :=
  let m := m.record p
  if p.ok then { m with consecutiveSuccesses := recoveryThreshold, reachable := true }
  else { m with consecutiveSuccesses := 0, reachable := false }

/-- The entry under `tollgate_core_mint_health_mark_unreachable`. -/
def MintStatus.markUnreachable (m : MintStatus) : MintStatus :=
  if m.reachable then { m with reachable := false, consecutiveSuccesses := 0 } else m

/-- Write one entry. -/
def MintHealth.modify (s : MintHealth) (i : ℕ) (f : MintStatus → MintStatus) : MintHealth where
  mints := s.mints.modify i f
  length_le := (List.length_modify f _ _).trans_le s.length_le

/-- `tollgate_core_mint_health_update`. -/
def mintHealthUpdate (s : MintHealth) (mintIndex : ℤ) (p : Probe) : MintHealth :=
  if mintIndex < 0 ∨ mintIndex ≥ s.mints.length then s
  else s.modify mintIndex.toNat (·.update p)

/-- `tollgate_core_mint_health_update_initial`. -/
def mintHealthUpdateInitial (s : MintHealth) (mintIndex : ℤ) (p : Probe) : MintHealth :=
  if mintIndex < 0 ∨ mintIndex ≥ s.mints.length then s
  else s.modify mintIndex.toNat (·.updateInitial p)

/-- The test of both loops that look a url up. -/
def MintStatus.answersTo (m : MintStatus) (url : CStr) : Bool :=
  m.url == url || (strstr m.url url).isSome

/-- `tollgate_core_mint_health_is_reachable`. -/
def mintHealthIsReachable (s : MintHealth) (url : CStr) : Bool :=
  match s.mints.find? (·.answersTo url) with
  | some m => m.reachable
  | none => false

/-- `tollgate_core_mint_health_mark_unreachable`. -/
def mintHealthMarkUnreachable (s : MintHealth) (url : CStr) : MintHealth :=
  match s.mints.findIdx? (·.answersTo url) with
  | some i => s.modify i MintStatus.markUnreachable
  | none => s

/-- `tollgate_core_mint_health_count_reachable`. -/
def mintHealthCountReachable (s : MintHealth) : ℕ := s.mints.countP (·.reachable)

/-- What changes the table. -/
inductive MintOp where
  | probeInitial (mintIndex : ℤ) (p : Probe)
  | probe (mintIndex : ℤ) (p : Probe)
  | mark (url : CStr)

/-- One call. -/
def mintStep (s : MintHealth) : MintOp → MintHealth
  | .probeInitial i p => mintHealthUpdateInitial s i p
  | .probe i p => mintHealthUpdate s i p
  | .mark url => mintHealthMarkUnreachable s url

/-! ### Entries -/

variable {s : MintHealth} {i : ℕ} {f : MintStatus → MintStatus} {m : MintStatus} {url : CStr}

theorem MintHealth.ext_mints {s s' : MintHealth} (h : s.mints = s'.mints) : s = s' := by
  cases s
  cases s'
  congr

theorem get_modify_self (hget : s.mints[i]? = some m) :
    (s.modify i f).mints[i]? = some (f m) := by
  show (s.mints.modify i f)[i]? = _
  rw [List.getElem?_modify_eq, hget]
  rfl

theorem get_modify_of_ne {j : ℕ} (h : i ≠ j) : (s.modify i f).mints[j]? = s.mints[j]? :=
  List.getElem?_modify_ne f s.mints h

theorem modify_of_fixed (hget : s.mints[i]? = some m) (hfixed : f m = m) : s.modify i f = s := by
  refine MintHealth.ext_mints (List.ext_getElem? fun j => ?_)
  by_cases hij : i = j
  · subst hij
    rw [get_modify_self hget, hfixed, hget]
  · exact get_modify_of_ne hij

@[simp] theorem url_update (m : MintStatus) (p : Probe) : (m.update p).url = m.url := by
  unfold MintStatus.update
  dsimp only
  split_ifs <;> rfl

@[simp] theorem url_updateInitial (m : MintStatus) (p : Probe) :
    (m.updateInitial p).url = m.url := by
  unfold MintStatus.updateInitial
  dsimp only
  split_ifs <;> rfl

@[simp] theorem url_markUnreachable (m : MintStatus) : m.markUnreachable.url = m.url := by
  unfold MintStatus.markUnreachable
  split_ifs <;> rfl

theorem answersTo_iff : m.answersTo url = true ↔ m.url <:+: url := by
  unfold MintStatus.answersTo
  rw [Bool.or_eq_true, isSome_strstr, beq_iff_eq]
  exact ⟨fun h => h.elim (fun heq => heq ▸ List.infix_rfl) id, Or.inr⟩

theorem markUnreachable_of_not (h : m.reachable = false) : m.markUnreachable = m :=
  if_neg (by simp [h])

theorem reachable_markUnreachable (m : MintStatus) : m.markUnreachable.reachable = false := by
  unfold MintStatus.markUnreachable
  split_ifs with h
  · rfl
  · simpa using h

/-! ### Looking a url up -/

/-- The first entry whose url occurs in a text. -/
structure FirstInside (s : MintHealth) (url : CStr) (j : ℕ) (m : MintStatus) : Prop where
  get : s.mints[j]? = some m
  inside : m.url <:+: url
  first : ∀ k < j, ∀ m', s.mints[k]? = some m' → ¬m'.url <:+: url

theorem findIdx?_answersTo {j : ℕ} :
    s.mints.findIdx? (·.answersTo url) = some j ↔ ∃ m, FirstInside s url j m := by
  rw [List.findIdx?_eq_some_iff_getElem]
  refine ⟨fun ⟨hlt, hpass, hfirst⟩ => ?_, fun ⟨m, hget, hinside, hfirst⟩ => ?_⟩
  · refine ⟨s.mints[j], List.getElem?_eq_getElem hlt, answersTo_iff.mp hpass, ?_⟩
    intro k hk m' hget
    obtain ⟨_, rfl⟩ := List.getElem?_eq_some_iff.mp hget
    exact fun hinside => hfirst k hk (answersTo_iff.mpr hinside)
  · obtain ⟨hlt, rfl⟩ := List.getElem?_eq_some_iff.mp hget
    refine ⟨hlt, answersTo_iff.mpr hinside, fun k hk hpass => ?_⟩
    exact hfirst k hk _ (List.getElem?_eq_getElem _) (answersTo_iff.mp hpass)

theorem exists_firstInside (o : Fin s.mints.length) :
    ∃ j m, FirstInside s (s.mints.get o).url j m := by
  cases hfind : s.mints.findIdx? (·.answersTo (s.mints.get o).url) with
  | some j => exact ⟨j, findIdx?_answersTo.mp hfind⟩
  | none =>
    have hfail := List.findIdx?_eq_none_iff.mp hfind _ (List.get_mem s.mints o)
    exact absurd (hfail.symm.trans (answersTo_iff.mpr List.infix_rfl)) Bool.false_ne_true

theorem isReachable_firstInside {j : ℕ} (h : FirstInside s url j m) :
    mintHealthIsReachable s url = m.reachable := by
  have hfind : s.mints.find? (·.answersTo url) = some m := by
    obtain ⟨hlt, hpass, hfirst⟩ :=
      List.findIdx?_eq_some_iff_getElem.mp (findIdx?_answersTo.mpr ⟨m, h⟩)
    obtain ⟨_, rfl⟩ := List.getElem?_eq_some_iff.mp h.get
    refine List.find?_eq_some_iff_getElem.mpr ⟨hpass, j, hlt, rfl, fun k hk => ?_⟩
    simpa using hfirst k hk
  unfold mintHealthIsReachable
  rw [hfind]

theorem markUnreachable_firstInside {j : ℕ} (h : FirstInside s url j m) :
    mintHealthMarkUnreachable s url = s.modify j MintStatus.markUnreachable := by
  unfold mintHealthMarkUnreachable
  rw [findIdx?_answersTo.mpr ⟨m, h⟩]

/-- The url of an entry is looked up there: its flag is given, and it alone is marked. -/
structure LooksUpOwn (s : MintHealth) (o : Fin s.mints.length) : Prop where
  flag : mintHealthIsReachable s (s.mints.get o).url = (s.mints.get o).reachable
  mark : mintHealthMarkUnreachable s (s.mints.get o).url = s.modify o MintStatus.markUnreachable

/-- **Mint lookups hit the right mint** exactly if no entry before it has a url that occurs in
its own, or the first that has and the entry itself are both unreachable. -/
theorem lookup_own_iff (s : MintHealth) (o : Fin s.mints.length) :
    LooksUpOwn s o ↔ ∃ j m, FirstInside s (s.mints.get o).url j m ∧
      (j = o ∨ m.reachable = false ∧ (s.mints.get o).reachable = false) := by
  have hown : s.mints[o.val]? = some (s.mints.get o) := List.getElem?_eq_getElem o.isLt
  refine ⟨fun h => ?_, ?_⟩
  · obtain ⟨j, m, hfirst⟩ := exists_firstInside o
    refine ⟨j, m, hfirst, ?_⟩
    by_cases hj : j = o
    · exact Or.inl hj
    -- the entry that is hit would be marked in place of its own
    have hflag : m.reachable = (s.mints.get o).reachable :=
      (isReachable_firstInside hfirst).symm.trans h.flag
    have hmark : s.modify j MintStatus.markUnreachable = s.modify o MintStatus.markUnreachable :=
      (markUnreachable_firstInside hfirst).symm.trans h.mark
    have hentry : some m.markUnreachable = some m := by
      rw [← get_modify_self (f := MintStatus.markUnreachable) hfirst.get, hmark,
        get_modify_of_ne (Ne.symm hj), hfirst.get]
    have hm : m.reachable = false :=
      Option.some.inj hentry ▸ reachable_markUnreachable m
    exact Or.inr ⟨hm, hflag ▸ hm⟩
  · rintro ⟨j, m, hfirst, rfl | ⟨hm, ho⟩⟩
    · obtain rfl : m = s.mints.get o := Option.some.inj (hfirst.get.symm.trans hown)
      exact ⟨isReachable_firstInside hfirst, markUnreachable_firstInside hfirst⟩
    · refine ⟨(isReachable_firstInside hfirst).trans (hm.trans ho.symm), ?_⟩
      rw [markUnreachable_firstInside hfirst,
        modify_of_fixed hfirst.get (markUnreachable_of_not hm),
        modify_of_fixed hown (markUnreachable_of_not ho)]

/-- What a probe gives that gets an answer, or none. -/
def answered (ok : Bool) : Probe := ⟨ok, if ok then 200 else 0, if ok then 0 else -1, 1000⟩

/-- Two mints on one host, the first one up and the second one down. -/
def oneHost : MintHealth :=
  run mintStep (mintHealthInit [cstr "https://mint.a", cstr "https://mint.a/b"])
    [.probeInitial 0 (answered true), .probeInitial 1 (answered false)]

/-- The second is found to be reachable. -/
theorem lookup_other_mint :
    mintHealthIsReachable oneHost (cstr "https://mint.a/b") = true ∧
      (oneHost.mints.get ⟨1, by decide⟩).url = cstr "https://mint.a/b" ∧
      (oneHost.mints.get ⟨1, by decide⟩).reachable = false ∧
      ¬LooksUpOwn oneHost ⟨1, by decide⟩ := by
  have hflag : mintHealthIsReachable oneHost (oneHost.mints.get ⟨1, by decide⟩).url = true := by
    decide
  refine ⟨hflag, rfl, rfl, fun h => ?_⟩
  rw [h.flag] at hflag
  exact absurd hflag (by decide)

end Mints

end TollGate
