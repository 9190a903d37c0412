import TollGate.Relay.Subscriptions

/-!
# The subscription table over its calls

A slot keeps the first 64 bytes of a subscription id, and `find_sub` compares all of the id that
it is given. For an id of at most 64 bytes the two are the same, and over any calls with such ids
the table keeps what it promises (`shortIds_keep`). A longer id is never found again.

`sub_manager_add` frees the filters of a subscription before it copies the new ones. When a copy
fails the subscription is left with the ones copied so far (`add_memory_iff`).
-/

namespace TollGate

namespace Relay

open CStr StepRun

/-! ### Copies -/

/-- The filter as it is copied. -/
def SubFilter.copied (f : SubFilter) : SubFilter :=
  { f with
    ids := f.ids.take subMaxFilter
    authors := f.authors.take subMaxFilter
    kinds := f.kinds.take subMaxFilter
    eTags := f.eTags.take subMaxFilter
    pTags := f.pTags.take subMaxFilter }

/-- So many strings a copy has. -/
def SubFilter.strings (f : SubFilter) : ℕ :=
  f.copied.ids.length + f.copied.authors.length + f.copied.eTags.length + f.copied.pTags.length

/-- The filters up to the first for whose strings there is no room. -/
def fitting : ℕ → List SubFilter → List SubFilter
  | _, [] => []
  | room, f :: filters =>
    if f.strings ≤ room then f :: fitting (room - f.strings) filters else []

/-- There is room for the strings of all copies. -/
def AllFit (room : ℕ) (filters : List SubFilter) : Prop :=
  (filters.map SubFilter.strings).sum ≤ room

theorem dupStrings_eq (room : ℕ) (strings : List CStr) :
    dupStrings room strings =
      if strings.length ≤ room then some (room - strings.length) else none := by
  induction strings generalizing room with
  | nil =>
    rw [dupStrings, List.length_nil, if_pos (Nat.zero_le _)]
    rfl
  | cons string strings ih =>
    cases room with
    | zero => rfl
    | succ room =>
      rw [dupStrings, ih, List.length_cons, Nat.add_sub_add_right]
      exact if_congr Nat.succ_le_succ_iff.symm rfl rfl

/-- The copies of two lists of strings, one behind the other. -/
theorem dupStrings_bind {α : Type} (room : ℕ) (strings strings' : List CStr)
    (next : ℕ → Option α) :
    ((dupStrings room strings).bind fun room => (dupStrings room strings').bind next) =
      (dupStrings room (strings ++ strings')).bind next := by
  induction strings generalizing room with
  | nil =>
    rw [dupStrings, List.nil_append]
    rfl
  | cons string strings ih =>
    cases room with
    | zero => rfl
    | succ room => exact ih room

theorem filterCopy_iff (room : ℕ) (f : SubFilter) :
    filterCopy room f = if f.strings ≤ room then some (f.copied, room - f.strings) else none := by
  have hlength : (((f.copied.ids ++ f.copied.authors) ++ f.copied.eTags) ++
      f.copied.pTags).length = f.strings := by
    simp only [List.length_append, SubFilter.strings]
  unfold filterCopy
  show ((dupStrings room f.copied.ids).bind fun room => (dupStrings room f.copied.authors).bind
    fun room => (dupStrings room f.copied.eTags).bind fun room =>
      (dupStrings room f.copied.pTags).bind fun room => some (f.copied, room)) = _
  rw [dupStrings_bind, dupStrings_bind, dupStrings_bind, dupStrings_eq, hlength]
  split
  · rfl
  · rfl

/-- The copies are those of the filters that fit, and all are made exactly if all fit. -/
theorem copyFilters_eq (room : ℕ) (filters : List SubFilter) :
    (copyFilters room filters).1 = (fitting room filters).map SubFilter.copied ∧
      ((copyFilters room filters).2 = true ↔ AllFit room filters) := by
  -- the filters behind the first have the room that it leaves
  induction filters generalizing room with
  | nil => exact ⟨rfl, iff_of_true rfl (Nat.zero_le room)⟩
  | cons f filters ih =>
    obtain ⟨hcopies, hcomplete⟩ := ih (room - f.strings)
    unfold copyFilters fitting
    rw [filterCopy_iff]
    by_cases hroom : f.strings ≤ room
    · rw [if_pos hroom, if_pos hroom]
      refine ⟨?_, hcomplete.trans ?_⟩
      · show f.copied :: (copyFilters (room - f.strings) filters).1 = _
        rw [hcopies, List.map_cons]
      · unfold AllFit
        rw [List.map_cons, List.sum_cons]
        omega
    · rw [if_neg hroom, if_neg hroom]
      refine ⟨rfl, iff_of_false Bool.false_ne_true fun hall => hroom ?_⟩
      unfold AllFit at hall
      rw [List.map_cons, List.sum_cons] at hall
      omega

theorem fitting_of_allFit {room : ℕ} {filters : List SubFilter} (h : AllFit room filters) :
    fitting room filters = filters := by
  induction filters generalizing room with
  | nil => rfl
  | cons f filters ih =>
    unfold AllFit at h ih
    rw [List.map_cons, List.sum_cons] at h
    rw [fitting, if_pos (by omega), ih (by omega)]

/-- Four filters have no more strings than this. -/
def ampleRoom : ℕ := subMaxFilters * (4 * subMaxFilter)

theorem allFit_ampleRoom (filters : List SubFilter) :
    AllFit ampleRoom (filters.take subMaxFilters) := by
  have hstrings : ∀ n ∈ (filters.take subMaxFilters).map SubFilter.strings,
      n ≤ 4 * subMaxFilter := by
    intro n hn
    obtain ⟨f, -, rfl⟩ := List.mem_map.mp hn
    have hlength : ∀ strings : List CStr, (strings.take subMaxFilter).length ≤ subMaxFilter :=
      fun strings => List.length_take_le _ _
    have hids := hlength f.ids
    have hauthors := hlength f.authors
    have heTags := hlength f.eTags
    have hpTags := hlength f.pTags
    unfold SubFilter.strings SubFilter.copied
    dsimp only
    omega
  unfold AllFit ampleRoom
  calc _ ≤ ((filters.take subMaxFilters).map SubFilter.strings).length • (4 * subMaxFilter) :=
        List.sum_le_card_nsmul _ _ hstrings
    _ ≤ subMaxFilters * (4 * subMaxFilter) := by
        rw [List.length_map, smul_eq_mul]
        exact Nat.mul_le_mul_right _ (List.length_take_le _ _)

/-! ### Additions -/

namespace SubManager

variable {m : SubManager} {connFd : Int32} {subId : CStr} {filters : List SubFilter} {room : ℕ}

/-- An id that is found keeps its slot, and its filters are the copies that fit. -/
theorem add_of_found {i : Fin subMaxTotal} {old : Subscription}
    (h : m.findSub connFd subId = some i) (hold : m.subs i = some old) :
    m.add connFd subId filters room =
      ({ m with subs := m.subs.put i { old with
          filters := (fitting room (filters.take subMaxFilters)).map SubFilter.copied } },
        if (copyFilters room (filters.take subMaxFilters)).2 then .ok else .memory) := by
  unfold add
  simp only [h, hold, Option.map_some, (copyFilters_eq room (filters.take subMaxFilters)).1]
  rfl

/-- Another id is refused, or gets a free slot when all copies fit. -/
theorem add_of_new (h : m.findSub connFd subId = none) (filters : List SubFilter) (room : ℕ) :
    (m.add connFd subId filters room).1 = m ∧ (m.add connFd subId filters room).2 ≠ .ok ∨
      ∃ i, m.subs i = none ∧ m.count connFd < subMaxPerConn ∧
        m.add connFd subId filters room =
          (⟨m.subs.put i ⟨subId.take subMaxIdLen, connFd,
            (fitting room (filters.take subMaxFilters)).map SubFilter.copied⟩,
            m.activeCount + 1⟩, .ok) := by
  unfold add
  simp only [h, (copyFilters_eq room (filters.take subMaxFilters)).1]
  by_cases hfull : subMaxPerConn ≤ m.count connFd
  · rw [if_pos hfull]
    exact .inl ⟨rfl, nofun⟩
  · rw [if_neg hfull]
    cases hfree : m.subs.firstFree with
    | none => exact .inl ⟨rfl, nofun⟩
    | some i =>
      dsimp only
      split
      · exact .inr ⟨i, Slots.firstFree_eq_some hfree, not_le.mp hfull, rfl⟩
      · exact .inl ⟨rfl, nofun⟩

/-- **A failed addition.** When there is no memory for an addition the table is as it was, exactly
if the id was not in it, or its subscription had the filters that could be copied. -/
theorem add_memory_iff (h : (m.add connFd subId filters room).2 = .memory) :
    (m.add connFd subId filters room).1 = m ↔
      ∀ i old, m.findSub connFd subId = some i → m.subs i = some old →
        old.filters = (fitting room (filters.take subMaxFilters)).map SubFilter.copied := by
  cases hfind : m.findSub connFd subId with
  | none =>
    -- the path for a new slot undoes what it has built
    refine iff_of_true ?_ fun i old hi => by cases hi
    obtain ⟨hsame, -⟩ | ⟨i, -, -, hadd⟩ := add_of_new hfind filters room
    · exact hsame
    · rw [hadd] at h
      cases h
  | some i =>
    -- the old filters are gone before the first copy is made
    obtain ⟨old, hold, -⟩ := Slots.find_eq_some hfind
    rw [add_of_found hfind hold]
    refine ⟨fun hsame => ?_, fun hfilters => ?_⟩
    · rintro j old' hj hold'
      obtain rfl := Option.some.inj hj
      obtain rfl := Option.some.inj (hold.symm.trans hold')
      have hslot := congrFun (congrArg SubManager.subs hsame) i
      rw [hold] at hslot
      have hsub := Option.some.inj ((Function.update_self i _ m.subs).symm.trans hslot)
      exact (congrArg Subscription.filters hsub).symm
    · have hput : m.subs.put i old = m.subs := by
        rw [Slots.put, ← hold, Function.update_eq_self]
      rw [← hfilters i old rfl hold]
      show { m with subs := m.subs.put i old } = m
      rw [hput]

end SubManager

/-- A filter for an id. -/
def prefixFilter : SubFilter := ⟨[cstr "ab"], [], [], [], [], 0, 0, 0⟩

/-- A table with a subscription. -/
def oneSubscription : SubManager := (SubManager.init.add 5 (cstr "a") [prefixFilter] 1).1

set_option maxRecDepth 4096 in
/-- Without memory nothing happens under another id. -/
theorem add_memory_other :
    (oneSubscription.add 5 (cstr "b") [prefixFilter] 0).2 = .memory ∧
      ((oneSubscription.add 5 (cstr "b") [prefixFilter] 0).1 = oneSubscription ↔
        ∀ i old, oneSubscription.findSub 5 (cstr "b") = some i → oneSubscription.subs i = some old →
          old.filters = (fitting 0 ([prefixFilter].take subMaxFilters)).map SubFilter.copied) :=
  ⟨by decide, SubManager.add_memory_iff (by decide)⟩

set_option maxRecDepth 4096 in
/-- Under the same id the filter of the subscription is lost. -/
theorem add_memory_same :
    ¬ ((oneSubscription.add 5 (cstr "a") [prefixFilter] 0).2 = .memory →
      (oneSubscription.add 5 (cstr "a") [prefixFilter] 0).1 = oneSubscription) := by
  intro h
  have hslot := congrArg (fun m => (m.subs 0).map Subscription.filters) (h (by decide))
  have hbefore : (oneSubscription.subs 0).map Subscription.filters = some [prefixFilter] := by
    decide
  have hafter : ((oneSubscription.add 5 (cstr "a") [prefixFilter] 0).1.subs 0).map
      Subscription.filters = some [] := by decide
  rw [hbefore, hafter] at hslot
  cases hslot

/-! ### The table -/

namespace SubManager

/-- The counter is right, the limits hold, and no two active subscriptions have the same descriptor
and id. -/
structure Sound (m : SubManager) : Prop where
  count : m.activeCount.toNat = m.subs.used
  total : m.subs.used ≤ subMaxTotal
  perConn : ∀ connFd, m.count connFd ≤ subMaxPerConn
  distinct : ∀ i j a b, m.subs i = some a → m.subs j = some b → a.connFd = b.connFd →
    a.subId = b.subId → i = j

theorem sound_init : init.Sound := by
  refine ⟨Slots.used_empty.symm, Slots.used_le, fun connFd => ?_, nofun⟩
  show Slots.countIf _ _ ≤ _
  rw [Slots.countIf_eq_card, Finset.filter_false_of_mem (by simp [init, Slots.empty])]
  exact Nat.zero_le _

namespace Sound

variable {m : SubManager} {connFd : Int32} {subId : CStr}

/-- A table with fewer subscriptions and a right counter. -/
theorem of_subset {m' : SubManager} (h : m.Sound)
    (hsub : ∀ i sub, m'.subs i = some sub → m.subs i = some sub)
    (hcount : m'.activeCount.toNat = m'.subs.used) : m'.Sound :=
  ⟨hcount, Slots.used_le,
    fun connFd => (Slots.countIf_le_of_subset hsub).trans (h.perConn connFd),
    fun i j a b ha hb => h.distinct i j a b (hsub i a ha) (hsub j b hb)⟩

/-- The counter of a table when a slot is cleared. -/
theorem count_clear {i : Fin subMaxTotal} {sub : Subscription}
    (hcount : m.activeCount.toNat = m.subs.used) (hsub : m.subs i = some sub) :
    (m.activeCount - 1).toNat = (m.subs.clear i).used := by
  have hused := Slots.used_clear hsub
  have hpos : 1 ≤ m.activeCount := by
    rw [UInt16.le_iff_toNat_le, hcount, ← hused]
    exact Nat.le_add_left 1 _
  rw [UInt16.toNat_sub_of_le _ _ hpos]
  show m.activeCount.toNat - 1 = _
  omega

theorem remove (h : m.Sound) (connFd : Int32) (subId : CStr) :
    (m.remove connFd subId).1.Sound := by
  refine h.of_subset (fun i sub => subs_remove) ?_
  unfold SubManager.remove
  cases hfind : m.findSub connFd subId with
  | none => exact h.count
  | some i =>
    obtain ⟨sub, hsub, -⟩ := Slots.find_eq_some hfind
    exact count_clear h.count hsub

theorem removeAll (h : m.Sound) (connFd : Int32) : (m.removeAll connFd).Sound := by
  refine h.of_subset (fun i sub hsub => (subs_removeAll.mp hsub).1) ?_
  refine sweep_induction 
    (P := fun _ (m : SubManager) => m.activeCount.toNat = m.subs.used) ?_ h.count
  intro i m hcount
  unfold removeTurn
  split
  next hany =>
    obtain ⟨sub, hsub, -⟩ := (Option.any_eq_true _ _).mp hany
    exact count_clear hcount hsub
  · exact hcount

/-- An addition keeps the table sound when the id it stores is not in it. -/
theorem put_new (h : m.Sound) {i : Fin subMaxTotal} {sub : Subscription} (hfree : m.subs i = none)
    (hroom : m.count sub.connFd < subMaxPerConn)
    (hnew : ∀ j old, m.subs j = some old → old.connFd = sub.connFd → old.subId ≠ sub.subId) :
    Sound ⟨m.subs.put i sub, m.activeCount + 1⟩ := by
  have hused := Slots.used_put (a := sub) hfree
  refine ⟨?_, Slots.used_le, fun connFd => ?_, ?_⟩
  · -- with sixty-four slots the counter does not wrap
    have hle : (m.subs.put i sub).used ≤ subMaxTotal := Slots.used_le
    show (m.activeCount + 1).toNat = (m.subs.put i sub).used
    rw [UInt16.toNat_add, h.count, hused]
    exact Nat.mod_eq_of_lt (by rw [hused] at hle; exact lt_of_le_of_lt hle (by decide))
  · show Slots.countIf (fun sub => sub.connFd = connFd) (m.subs.put i sub) ≤ _
    by_cases hfd : sub.connFd = connFd
    · subst hfd
      exact Slots.countIf_put_le.trans hroom
    · refine le_trans (Slots.countIf_put_of_not ?_) (h.perConn connFd)
      exact decide_eq_false hfd
  · intro j j' a b ha hb hfd hid
    obtain ⟨rfl, rfl⟩ | ⟨-, hold⟩ := Slots.put_eq_some.mp ha
    · obtain ⟨rfl, -⟩ | ⟨-, hold'⟩ := Slots.put_eq_some.mp hb
      · rfl
      · exact absurd hid.symm (hnew j' b hold' hfd.symm)
    · obtain ⟨rfl, rfl⟩ | ⟨-, hold'⟩ := Slots.put_eq_some.mp hb
      · exact absurd hid (hnew j a hold hfd)
      · exact h.distinct j j' a b hold hold' hfd hid

/-- New filters change nothing of this. -/
theorem put_filters (h : m.Sound) {i : Fin subMaxTotal} {old : Subscription}
    (hold : m.subs i = some old) (filters : List SubFilter) :
    Sound { m with subs := m.subs.put i { old with filters } } := by
  refine ⟨?_, Slots.used_le, fun connFd => ?_, ?_⟩
  · exact h.count.trans (Slots.used_put_of_some hold).symm
  · show Slots.countIf (fun sub => sub.connFd = connFd)
      (m.subs.put i { old with filters }) ≤ _
    refine le_of_eq_of_le (Slots.countIf_put_of_eq hold ?_) (h.perConn connFd)
    rfl
  · -- whatever stands in a slot has the descriptor and the id of what stood there
    have hsame : ∀ j a, m.subs.put i { old with filters } j = some a →
        ∃ a', m.subs j = some a' ∧ a'.connFd = a.connFd ∧ a'.subId = a.subId := by
      intro j a ha
      obtain ⟨rfl, rfl⟩ | ⟨-, ha'⟩ := Slots.put_eq_some.mp ha
      · exact ⟨old, hold, rfl, rfl⟩
      · exact ⟨a, ha', rfl, rfl⟩
    intro j j' a b ha hb hfd hid
    obtain ⟨a', ha', hafd, haid⟩ := hsame j a ha
    obtain ⟨b', hb', hbfd, hbid⟩ := hsame j' b hb
    exact h.distinct j j' a' b' ha' hb' (hafd.trans (hfd.trans hbfd.symm))
      (haid.trans (hid.trans hbid.symm))

end Sound

end SubManager

/-! ### Runs -/

/-- The table, with the id under which each slot was filled. -/
structure NamedSubs where
  manager : SubManager
  created : Fin subMaxTotal → CStr

/-- A call. -/
inductive SubCall where
  | add (connFd : Int32) (subId : CStr) (filters : List SubFilter)
  | remove (connFd : Int32) (subId : CStr)
  | removeAll (connFd : Int32)

namespace NamedSubs

/-- After `sub_manager_init`. -/
def init : NamedSubs := ⟨.init, fun _ => []⟩

/-- A call, with memory for all copies. -/
def step (t : NamedSubs) : SubCall → NamedSubs
  | .add connFd subId filters =>
    { manager := (t.manager.add connFd subId filters ampleRoom).1
      created := fun i => if (t.manager.subs i).isSome then t.created i else subId }
  | .remove connFd subId => { t with manager := (t.manager.remove connFd subId).1 }
  | .removeAll connFd => { t with manager := t.manager.removeAll connFd }

/-- The subscription in the slot was made on the connection under the id. -/
def MadeUnder (t : NamedSubs) (i : Fin subMaxTotal) (connFd : Int32) (subId : CStr) : Prop :=
  ∃ sub, t.manager.subs i = some sub ∧ sub.connFd = connFd ∧ t.created i = subId

/-- An id that is added again gets the new filters, and nothing else changes. -/
def Replaces (t : NamedSubs) : SubCall → Prop
  | .add connFd subId filters => ∀ i, t.MadeUnder i connFd subId →
      ∃ sub, t.manager.subs i = some sub ∧
        t.manager.add connFd subId filters ampleRoom =
          ({ t.manager with subs := t.manager.subs.put i { sub with
              filters := (filters.take subMaxFilters).map SubFilter.copied } }, .ok)
  | _ => True

/-- Behind the removal of an id there is no subscription that was made under it. -/
def Removes (t : NamedSubs) : SubCall → Prop
  | .remove connFd subId => ∀ i, ¬ (t.step (.remove connFd subId)).MadeUnder i connFd subId
  | _ => True

/-- The call does what it says. -/
def Keeps (t : NamedSubs) (call : SubCall) : Prop := t.Replaces call ∧ t.Removes call

/-- An id that is added fits into its field. -/
def ShortId : SubCall → Prop
  | .add _ subId _ => subId.length ≤ subMaxIdLen
  | _ => True

/-- The table is sound, and every slot holds the id under which it was filled. -/
structure Inv (t : NamedSubs) : Prop where
  sound : t.manager.Sound
  created : ∀ i sub, t.manager.subs i = some sub → sub.subId = t.created i

theorem Inv.of_sound {m : SubManager} {created : Fin subMaxTotal → CStr} (hsound : m.Sound)
    (hcreated : ∀ i sub, m.subs i = some sub → sub.subId = created i) : Inv ⟨m, created⟩ :=
  ⟨hsound, hcreated⟩

theorem inv_init : init.Inv := .of_sound SubManager.sound_init nofun

section Step

variable {t : NamedSubs} (h : t.Inv)
include h

/-- The slot that is found for an id is the one that was filled under it. -/
theorem Inv.findSub_eq_some {i : Fin subMaxTotal} {connFd : Int32} {subId : CStr} :
    t.manager.findSub connFd subId = some i ↔ t.MadeUnder i connFd subId := by
  have hfound : ∀ {j}, t.manager.findSub connFd subId = some j →
      ∃ sub, t.manager.subs j = some sub ∧ sub.connFd = connFd ∧ sub.subId = subId := by
    intro j hj
    obtain ⟨sub, hsub, htest⟩ := Slots.find_eq_some hj
    obtain ⟨hfd, hid⟩ := Bool.and_eq_true_iff.mp htest
    exact ⟨sub, hsub, of_decide_eq_true hfd, of_decide_eq_true hid⟩
  refine ⟨fun hi => ?_, ?_⟩
  · obtain ⟨sub, hsub, hfd, hid⟩ := hfound hi
    exact ⟨sub, hsub, hfd, (h.created i sub hsub).symm.trans hid⟩
  · rintro ⟨sub, hsub, hfd, hid⟩
    have hsubId := (h.created i sub hsub).trans hid
    cases hfind : t.manager.findSub connFd subId with
    | none =>
      have htest := Slots.find_eq_none hfind hsub
      simp [hfd, hsubId] at htest
    | some j =>
      -- two slots with the descriptor and the id are one
      obtain ⟨sub', hsub', hfd', hid'⟩ := hfound hfind
      rw [h.sound.distinct j i sub' sub hsub' hsub (hfd'.trans hfd.symm)
        (hid'.trans hsubId.symm)]

theorem Inv.step {call : SubCall} (hshort : ShortId call) : (t.step call).Inv := by
  cases call with
  | add connFd subId filters =>
    rw [NamedSubs.step]
    have hcreated : ∀ i sub, t.manager.subs i = some sub →
        sub.subId = if (t.manager.subs i).isSome then t.created i else subId := by
      intro i sub hsub
      rw [hsub, Option.isSome_some, if_pos rfl]
      exact h.created i sub hsub
    cases hfind : t.manager.findSub connFd subId with
    | some i =>
      obtain ⟨old, hold, -⟩ := Slots.find_eq_some hfind
      rw [SubManager.add_of_found hfind hold]
      refine ⟨h.sound.put_filters hold _, fun j sub hsub => ?_⟩
      obtain ⟨rfl, rfl⟩ | ⟨-, hsub⟩ := Slots.put_eq_some.mp hsub
      · exact hcreated _ old hold
      · exact hcreated j sub hsub
    | none =>
      obtain ⟨hsame, -⟩ | ⟨i, hfree, hroom, hadd⟩ :=
        SubManager.add_of_new hfind filters ampleRoom
      · rw [hsame]
        exact ⟨h.sound, hcreated⟩
      · -- the id that is stored is all of the id
        have hid : subId.take subMaxIdLen = subId := List.take_of_length_le hshort
        rw [hadd, hid]
        refine ⟨h.sound.put_new hfree hroom fun j old hold hfd hsame => ?_, fun j sub hsub => ?_⟩
        · have hmade : t.MadeUnder j connFd subId :=
            ⟨old, hold, hfd, (h.created j old hold).symm.trans hsame⟩
          rw [h.findSub_eq_some.mpr hmade] at hfind
          cases hfind
        · obtain ⟨rfl, rfl⟩ | ⟨-, hsub⟩ := Slots.put_eq_some.mp hsub
          · show subId = if (t.manager.subs _).isSome then _ else subId
            rw [hfree]
            rfl
          · exact hcreated j sub hsub
  | remove connFd subId =>
    exact ⟨h.sound.remove connFd subId, fun i sub hsub =>
      h.created i sub (SubManager.subs_remove hsub)⟩
  | removeAll connFd =>
    refine .of_sound (h.sound.removeAll connFd) fun i sub hsub => ?_
    exact h.created i sub (SubManager.subs_removeAll.mp hsub).1

theorem Inv.keeps (call : SubCall) : t.Keeps call := by
  cases call with
  | add connFd subId filters =>
    refine ⟨fun i hmade => ?_, trivial⟩
    obtain ⟨sub, hsub, -⟩ := id hmade
    refine ⟨sub, hsub, ?_⟩
    have hfit := allFit_ampleRoom filters
    rw [SubManager.add_of_found (h.findSub_eq_some.mpr hmade) hsub, fitting_of_allFit hfit,
      if_pos ((copyFilters_eq ampleRoom _).2.mpr hfit)]
  | remove connFd subId =>
    refine ⟨trivial, fun i hmade => ?_⟩
    obtain ⟨sub, hsub, hfd, hid⟩ := hmade
    have hbefore := SubManager.subs_remove hsub
    have hfind := h.findSub_eq_some.mpr ⟨sub, hbefore, hfd, hid⟩
    have hclear : (t.manager.remove connFd subId).1.subs i = none := by
      unfold SubManager.remove
      rw [hfind]
      exact Function.update_self ..
    exact absurd (hclear.symm.trans hsub) nofun
  | removeAll connFd => exact ⟨trivial, trivial⟩

end Step

/-- **The table for short ids.** Over all calls whose ids are of 64 bytes at most, the counter is
right, the limits hold, no two subscriptions have the same descriptor and id, an id that is added
again gets its new filters, and one that is removed has no subscription left. -/
theorem shortIds_keep (calls : List SubCall) (h : AllSteps step (fun _ => ShortId) init calls) :
    Always step (fun t => t.manager.Sound) init calls ∧ AllSteps step Keeps init calls := by
  -- short calls keep the invariant, so it holds in front of each of them
  have hinv : ∀ front back, calls = front ++ back → (run step init front).Inv := by
    rintro front back rfl
    exact run_guarded (fun _ _ h => h.step) inv_init ((allSteps_append front back).mp h).1
  refine ⟨fun front back hcalls => (hinv front back hcalls).sound, allSteps_iff.mpr ?_⟩
  exact fun front call back hcalls => (hinv front _ hcalls).keeps call

/-- Two additions of an id and its removal. -/
def twoAdditions (subId : CStr) : List SubCall :=
  [.add 5 subId [], .add 5 subId [prefixFilter], .remove 5 subId]

set_option maxRecDepth 4096 in
theorem shortIds_keep_two :
    (run step init (twoAdditions (cstr "a"))).manager.activeCount = 0 ∧
      Always step (fun t => t.manager.Sound) init (twoAdditions (cstr "a")) ∧
      AllSteps step Keeps init (twoAdditions (cstr "a")) :=
  have hshort : (cstr "a").length ≤ subMaxIdLen := by decide
  ⟨by decide, shortIds_keep _ ⟨hshort, hshort, trivial, trivial⟩⟩

set_option maxRecDepth 4096 in
/-- An id of 65 bytes is in the table twice, and is not removed. -/
theorem longId_twice :
    ¬ (Always step (fun t => t.manager.Sound) init (twoAdditions (List.replicate 65 97)) ∧
      AllSteps step Keeps init (twoAdditions (List.replicate 65 97))) := by
  rintro ⟨hsound, -⟩
  have hfirst : (run step init (twoAdditions (List.replicate 65 97))).manager.subs 0 =
      some ⟨List.replicate 64 97, 5, []⟩ := by
    decide
  have hsecond : (run step init (twoAdditions (List.replicate 65 97))).manager.subs 1 =
      some ⟨List.replicate 64 97, 5, [prefixFilter]⟩ := by
    decide
  have hsame := (hsound _ [] rfl).distinct 0 1 _ _ hfirst hsecond rfl rfl
  exact absurd hsame (by decide)

end NamedSubs

end Relay

end TollGate
