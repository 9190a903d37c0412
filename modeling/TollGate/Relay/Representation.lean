import TollGate.Lib.Run
import TollGate.Relay.Storage

/-!
# The representation of the store

The index, its tombstones and the files over any sequence of saves, deletions, purges and
compactions. `Represents` is the invariant: the index is a sound log with tombstones, its
numbers count the saves, and the file of a live entry holds the text that was saved for
it. A save adds one entry (`Represents.save`); every other call only takes entries away
(`Represents.shrinks`).
-/

namespace TollGate

namespace Relay

open TombstoneLog StepRun

/-! ### Small facts about the operations -/

@[simp] theorem deleted_delete (e : IndexEntry) : e.delete.deleted = true := by
  -- the mark is the lowest bit of the flags
  have hbit : ∀ b : BitVec 8, (b ||| 1) &&& 1 ≠ 0 := by decide
  refine decide_eq_true fun h => hbit e.flags.toBitVec ?_
  exact congrArg UInt8.toBitVec h

section Nvs

variable (s : Engine)

@[simp] theorem index_saveIndexToNvs : s.saveIndexToNvs.index = s.index := rfl

@[simp] theorem files_saveIndexToNvs : s.saveIndexToNvs.files = s.files := rfl

end Nvs

/-! ### Paths -/

/-- The part of a path before the file number has the same length for every id. -/
theorem length_stem (dir : ℕ) (eventId : Vector UInt8 32) :
    (cstr "/littlefs/events/" ++ CStr.hexPadded 2 dir ++ cstr "/" ++
      hexText (eventId.toList.take 16) ++ cstr "_").length = 53 := by
  have hids : (eventId.toList.take 16).length = 16 := by simp
  simp only [List.length_append, CStr.length_hexPadded, length_hexText, hids]
  rfl

theorem getEventPath_eq (eventId : Vector UInt8 32) (fileIndex : UInt32) :
    getEventPath eventId fileIndex = pathText eventId fileIndex := by
  refine CStr.snprintf_of_length_lt ?_
  rw [pathText, List.length_append, List.length_append, length_stem, CStr.length_hexPadded]
  decide

/-- The file number can be read off a path. -/
theorem getEventPath_injective {id id' : Vector UInt8 32} {i i' : UInt32}
    (h : getEventPath id i = getEventPath id' i') : i = i' := by
  rw [getEventPath_eq, getEventPath_eq, pathText, pathText] at h
  -- `.json` falls away at the end, and the stem in front, which has one length for all ids
  have hfront := List.append_inj_left' h rfl
  have hhex := List.append_inj_right hfront ((length_stem _ id).trans (length_stem _ id').symm)
  have hnum := congrArg (CStr.numeral 16) hhex
  rw [CStr.numeral_hexPadded 8 _ i.toNat_lt, CStr.numeral_hexPadded 8 _ i'.toNat_lt] at hnum
  exact UInt32.toNat_inj.mp hnum

/-! ### What each operation does to the index and the files -/

/-- The index is a sound log. -/
abbrev SoundIndex (next : ℕ) (index : List IndexEntry) : Prop :=
  Sound IndexEntry.eventId (fun e => e.fileIndex.toNat) IndexEntry.deleted next index

/-- Of the entries only some are left, with their files. -/
structure Shrinks (s s' : Engine) : Prop where
  next : s'.nextFileIndex = s.nextFileIndex
  max : s'.maxIndexEntries = s.maxIndexEntries
  length : s'.index.length ≤ s.index.length
  sound : SoundIndex s.nextFileIndex.toNat s'.index
  left : ∀ e ∈ live IndexEntry.deleted s'.index,
    e ∈ live IndexEntry.deleted s.index ∧ s'.files e.path = s.files e.path

variable {s : Engine} {next : ℕ} {index : List IndexEntry}

theorem kept_delete (e : IndexEntry) :
    Kept (fun e : IndexEntry => e.fileIndex.toNat) IndexEntry.deleted e.delete e :=
  .inr ⟨deleted_delete e, rfl⟩

/-- A deleted entry has no live entry's file. -/
theorem path_ne_of_delete_mem (h : SoundIndex next index) {e e' : IndexEntry}
    (he : e ∈ live IndexEntry.deleted index) (he' : e'.delete ∈ index) : e.path ≠ e'.path := by
  intro hpath
  -- the same path would be the same number, and a number belongs to one entry
  obtain ⟨hmem, hlive⟩ := mem_live.mp he
  have hnum : e.fileIndex.toNat = e'.delete.fileIndex.toNat :=
    congrArg UInt32.toNat (getEventPath_injective hpath)
  rw [h.eq_of_seq_eq hmem he' hnum, deleted_delete] at hlive
  exact Bool.noConfusion hlive

theorem foldl_unlink_apply {purged : List IndexEntry} {path : CStr}
    (h : ∀ e ∈ purged, path ≠ e.path) (files : CStr → Option CStr) :
    purged.foldl Engine.unlink files path = files path := by
  induction purged generalizing files with
  | nil => rfl
  | cons e purged ih =>
    rw [List.foldl_cons, ih fun e' he' => h e' (List.mem_cons_of_mem e he')]
    exact Function.update_of_ne (h e List.mem_cons_self) _ _

theorem shrinks_refl (h : SoundIndex s.nextFileIndex.toNat s.index) : Shrinks s s :=
  ⟨rfl, rfl, le_rfl, h, fun _ he => ⟨he, rfl⟩⟩

theorem shrinks_deleteEvent (h : SoundIndex s.nextFileIndex.toNat s.index)
    (eventId : Vector UInt8 32) : Shrinks s (s.deleteEvent eventId).1 := by
  unfold Engine.deleteEvent
  cases hfind : s.findIndexEntry eventId with
  | none => exact shrinks_refl h
  | some i =>
    have hlt : i < s.index.length := (List.findIdx?_eq_some_iff_getElem.mp hfind).1
    have hkilled := killed_modify kept_delete s.index i
    refine ⟨rfl, rfl, ?_, h.killed hkilled, ?_⟩
    · simp
    · intro e he
      refine ⟨(live_sublist_of_killed hkilled).subset he, ?_⟩
      -- the file that is unlinked is the deleted entry's
      have hmem : s.index[i].delete ∈ s.index.modify i IndexEntry.delete := by
        refine List.mem_of_getElem? (i := i) ?_
        rw [List.getElem?_modify_eq, List.getElem?_eq_getElem hlt]
        rfl
      simp only [List.getElem?_eq_getElem hlt, files_saveIndexToNvs]
      exact Function.update_of_ne (path_ne_of_delete_mem (h.killed hkilled) he hmem) _ _

/-- The copy in flash apart, a purge marks entries and unlinks their files. -/
theorem purgeExpired_fields (s : Engine) (now : UInt32) :
    (s.purgeExpired now).1.nextFileIndex = s.nextFileIndex ∧
      (s.purgeExpired now).1.maxIndexEntries = s.maxIndexEntries ∧
      (s.purgeExpired now).1.index =
        (s.index.map fun e => if Engine.purges now e then e.delete else e) ∧
      (s.purgeExpired now).1.files =
        (s.index.filter (Engine.purges now)).foldl Engine.unlink s.files := by
  unfold Engine.purgeExpired
  dsimp only
  split <;> exact ⟨rfl, rfl, rfl, rfl⟩

theorem live_purgeExpired (s : Engine) (now : UInt32) :
    live IndexEntry.deleted (s.purgeExpired now).1.index =
      (live IndexEntry.deleted s.index).filter fun e => !Engine.purges now e := by
  rw [(purgeExpired_fields s now).2.2.1]
  exact live_map_kill deleted_delete _ _

theorem shrinks_purgeExpired (h : SoundIndex s.nextFileIndex.toNat s.index) (now : UInt32) :
    Shrinks s (s.purgeExpired now).1 := by
  have hkilled := killed_map (fun e : IndexEntry => e.fileIndex.toNat) IndexEntry.deleted
    (fun e => if Engine.purges now e then e.delete else e)
    (by
      intro e
      split
      · exact kept_delete e
      · exact .inl rfl) s.index
  obtain ⟨hnext, hmax, hindex, hfiles⟩ := purgeExpired_fields s now
  refine ⟨hnext, hmax, ?_, ?_, ?_⟩
  · rw [hindex, List.length_map]
  · rw [hindex]
    exact h.killed hkilled
  · intro e he
    rw [hindex] at he
    refine ⟨(live_sublist_of_killed hkilled).subset he, ?_⟩
    -- the files that are unlinked are the purged entries'
    rw [hfiles]
    refine foldl_unlink_apply ?_ s.files
    intro e' he'
    obtain ⟨hmem, hpurges⟩ := List.mem_filter.mp he'
    refine path_ne_of_delete_mem (h.killed hkilled) he (List.mem_map.mpr ⟨e', hmem, ?_⟩)
    rw [if_pos hpurges]

theorem index_compactIndex (s : Engine) :
    s.compactIndex.1.index = live IndexEntry.deleted s.index := by
  obtain ⟨htake, -⟩ := compactLoop_eq IndexEntry.deleted s.index
  have hlength := length_compactLoop IndexEntry.deleted s.index
  unfold Engine.compactIndex
  dsimp only
  split
  · exact htake
  · -- nothing was squeezed out: the whole array was kept
    have hle : (compactLoop IndexEntry.deleted s.index).1.length ≤
        (compactLoop IndexEntry.deleted s.index).2 := by omega
    rw [← htake]
    exact (List.take_of_length_le hle).symm

theorem compactIndex_fields (s : Engine) :
    s.compactIndex.1.nextFileIndex = s.nextFileIndex ∧
      s.compactIndex.1.maxIndexEntries = s.maxIndexEntries ∧
      s.compactIndex.1.files = s.files := by
  unfold Engine.compactIndex
  dsimp only
  split <;> exact ⟨rfl, rfl, rfl⟩

theorem shrinks_compactIndex (h : SoundIndex s.nextFileIndex.toNat s.index) :
    Shrinks s s.compactIndex.1 := by
  have hindex := index_compactIndex s
  obtain ⟨hnext, hmax, hfiles⟩ := compactIndex_fields s
  refine ⟨hnext, hmax, ?_, ?_, ?_⟩
  · rw [hindex]
    exact List.length_filter_le _ _
  · rw [hindex]
    exact h.filter _
  · intro e he
    rw [hindex, mem_live, mem_live] at he
    rw [hfiles]
    exact ⟨mem_live.mpr he.1, rfl⟩

/-- A save leaves the engine as it was, or adds the new entry and its file. -/
theorem saveEventJson_cases (s : Engine) (heap : CStr → List UInt8) (now : UInt32) (opened : Bool)
    (json : CStr) :
    let e := s.newEntry heap now json
    let r := s.saveEventJson heap now opened json
    r.1 = s ∧ r.2 ≠ .ok ∨
      r.2 = .ok ∧ opened = true ∧ s.eventExists e.eventId = false ∧
        s.index.length < s.maxIndexEntries ∧ r.1.index = s.index ++ [e] ∧
        r.1.nextFileIndex = s.nextFileIndex + 1 ∧ r.1.maxIndexEntries = s.maxIndexEntries ∧
        r.1.files = Function.update s.files e.path (some json) := by
  unfold Engine.saveEventJson
  dsimp only
  split
  · exact .inl ⟨rfl, by simp⟩
  next hexists =>
    split
    · exact .inl ⟨rfl, by simp⟩
    next hroom =>
      split
      · exact .inl ⟨rfl, by simp⟩
      next hopened =>
        -- the three tests are passed; writing to flash changes none of these fields
        refine .inr ⟨rfl, by simpa using hopened, Bool.eq_false_of_not_eq_true hexists,
          Nat.lt_of_not_ge hroom, ?_⟩
        split <;> exact ⟨rfl, rfl, rfl, rfl⟩

theorem eventId_ne_of_not_exists {eventId : Vector UInt8 32} (h : s.eventExists eventId = false)
    {e : IndexEntry} (he : e ∈ s.index) (hlive : e.deleted = false) : e.eventId ≠ eventId := by
  intro heq
  rw [Engine.eventExists, Option.isSome_eq_false_iff, Option.isNone_iff_eq_none,
    Engine.findIndexEntry, List.findIdx?_eq_none_iff] at h
  have := h e he
  simp [heq, hlive] at this

theorem eventExists_of_mem_live {e : IndexEntry} (h : e ∈ live IndexEntry.deleted s.index) :
    s.eventExists e.eventId = true := by
  obtain ⟨hmem, hlive⟩ := mem_live.mp h
  by_contra hnew
  exact eventId_ne_of_not_exists (Bool.eq_false_of_not_eq_true hnew) hmem hlive rfl

theorem deleted_newEntry (s : Engine) (heap : CStr → List UInt8) (now : UInt32) (json : CStr) :
    (s.newEntry heap now json).deleted = false :=
  decide_eq_false (by decide : ¬ ((0 : UInt8) &&& 1 ≠ 0))

/-! ### Runs -/

/-- A call of the store, with what its surroundings decide: the memory behind the text, the
clock and whether the file can be opened. -/
inductive Op where
  | save (heap : CStr → List UInt8) (now : UInt32) (opened : Bool) (json : CStr)
  | delete (eventId : Vector UInt8 32)
  | purge (now : UInt32)
  | compact

/-- The engine, and the entries and texts of the saves that were done, in their order. -/
structure Store where
  engine : Engine
  saved : List (IndexEntry × CStr)

namespace Store

/-- A new store. -/
def empty (maxIndexEntries : ℕ) (defaultTtlSec : UInt32) : Store :=
  ⟨Engine.empty maxIndexEntries defaultTtlSec, []⟩

/-- One call. -/
def step (s : Store) : Op → Store
  | .save heap now opened json =>
    let r := s.engine.saveEventJson heap now opened json
    { engine := r.1
      saved := if r.2 = .ok then s.saved ++ [(s.engine.newEntry heap now json, json)] else s.saved }
  | .delete eventId => { s with engine := (s.engine.deleteEvent eventId).1 }
  | .purge now => { s with engine := (s.engine.purgeExpired now).1 }
  | .compact => { s with engine := s.engine.compactIndex.1 }

end Store

/-- The index is sound, its numbers count the saves, and a live entry is the one that was
made by the save of its number and has the text of that save in its file. -/
structure Represents (maxIndexEntries : ℕ) (s : Store) : Prop where
  room : s.engine.maxIndexEntries = maxIndexEntries
  sound : SoundIndex s.engine.nextFileIndex.toNat s.engine.index
  counts : s.engine.nextFileIndex.toNat = s.saved.length
  bounded : s.engine.index.length ≤ maxIndexEntries
  holds : ∀ e ∈ live IndexEntry.deleted s.engine.index,
    ∃ json, s.saved[e.fileIndex.toNat]? = some (e, json) ∧ s.engine.files e.path = some json

theorem represents_empty (maxIndexEntries : ℕ) (defaultTtlSec : UInt32) :
    Represents maxIndexEntries (Store.empty maxIndexEntries defaultTtlSec) :=
  ⟨rfl, Sound.nil _, rfl, Nat.zero_le _, by simp [Store.empty, Engine.empty, live]⟩

variable {maxIndexEntries : ℕ}

/-- Calls that only take entries away. -/
theorem Represents.shrinks {s : Store} (h : Represents maxIndexEntries s) {engine : Engine}
    (hshrinks : Shrinks s.engine engine) :
    Represents maxIndexEntries { s with engine := engine } := by
  refine ⟨hshrinks.max.trans h.room, ?_, ?_, hshrinks.length.trans h.bounded, ?_⟩
  · rw [hshrinks.next]
    exact hshrinks.sound
  · rw [hshrinks.next]
    exact h.counts
  · intro e he
    obtain ⟨he, hfiles⟩ := hshrinks.left e he
    rw [hfiles]
    exact h.holds e he

theorem Represents.save {s : Store} (h : Represents maxIndexEntries s)
    (heap : CStr → List UInt8) (now : UInt32) (opened : Bool) (json : CStr)
    (hcount : (s.step (.save heap now opened json)).saved.length < 2 ^ 32) :
    Represents maxIndexEntries (s.step (.save heap now opened json)) := by
  unfold Store.step at hcount ⊢
  dsimp only at hcount ⊢
  rcases saveEventJson_cases s.engine heap now opened json with
    ⟨hsame, herr⟩ | ⟨hok, -, hnew, hroom, hindex, hnext, hmax, hfiles⟩
  · -- nothing was saved, and nothing is recorded
    rw [hsame, if_neg herr]
    exact h
  · set e := s.engine.newEntry heap now json with he
    rw [if_pos hok, List.length_append, List.length_singleton] at hcount
    have hcounts := h.counts
    -- the file numbers have not run out
    have hnat : (s.engine.nextFileIndex + 1).toNat = s.engine.nextFileIndex.toNat + 1 := by
      rw [UInt32.toNat_add, UInt32.toNat_one]
      omega
    have hseq : e.fileIndex.toNat = s.engine.nextFileIndex.toNat := rfl
    refine ⟨hmax.trans h.room, ?_, ?_, ?_, ?_⟩
    · rw [hindex, hnext, hnat]
      exact h.sound.append hseq fun b hb hlive => eventId_ne_of_not_exists hnew hb hlive
    · rw [hnext, hnat, if_pos hok, List.length_append, hcounts]
      rfl
    · rw [hindex, List.length_append, ← h.room]
      exact hroom
    · intro e' he'
      rw [if_pos hok, hfiles]
      rw [hindex, live_append] at he'
      rcases List.mem_append.mp he' with hold | hlast
      · -- an older entry has a smaller number, so the new file is not its own
        have hlt : e'.fileIndex.toNat < s.engine.nextFileIndex.toNat :=
          h.sound.below e' (mem_live.mp hold).1
        have hpath : e'.path ≠ e.path := by
          intro hpath
          rw [getEventPath_injective hpath, hseq] at hlt
          exact lt_irrefl _ hlt
        obtain ⟨json', hsaved, hfile⟩ := h.holds e' hold
        refine ⟨json', ?_, ?_⟩
        · rw [List.getElem?_append_left (hcounts ▸ hlt)]
          exact hsaved
        · rw [Function.update_of_ne hpath]
          exact hfile
      · -- the new entry, the last one of both lists
        obtain rfl : e' = e := List.mem_singleton.mp (mem_live.mp hlast).1
        refine ⟨json, ?_, Function.update_self _ _ _⟩
        rw [hseq, hcounts, List.getElem?_concat_length]

/-- No save is forgotten. -/
theorem length_saved_le_step (s : Store) (op : Op) : s.saved.length ≤ (s.step op).saved.length := by
  cases op with
  | save heap now opened json =>
    unfold Store.step
    dsimp only
    split
    · rw [List.length_append]
      exact Nat.le_add_right _ _
    · exact le_rfl
  | delete => exact le_rfl
  | purge => exact le_rfl
  | compact => exact le_rfl

theorem Represents.step {s : Store} (h : Represents maxIndexEntries s) (op : Op)
    (hcount : (s.step op).saved.length < 2 ^ 32) : Represents maxIndexEntries (s.step op) := by
  cases op with
  | save heap now opened json => exact h.save heap now opened json hcount
  | delete eventId => exact h.shrinks (shrinks_deleteEvent h.sound eventId)
  | purge now => exact h.shrinks (shrinks_purgeExpired h.sound now)
  | compact => exact h.shrinks (shrinks_compactIndex h.sound)

/-- The store is represented as long as the file numbers last. -/
theorem represents_run {s : Store} (h : Represents maxIndexEntries s) (ops : List Op)
    (hcount : (run Store.step s ops).saved.length < 2 ^ 32) :
    Represents maxIndexEntries (run Store.step s ops) := by
  -- the number of saves never falls, so the bound holds all along the run
  refine run_induction (P := fun s => s.saved.length < 2 ^ 32 → Represents maxIndexEntries s) ?_
    (fun _ => h) ops hcount
  intro s op ih hlt
  exact (ih ((length_saved_le_step s op).trans_lt hlt)).step op hlt

/-- **Representation of the store.** After any calls on an empty store, with fewer than `2 ^ 32`
saves, the live ids are distinct, the file numbers rise and are below the next one, the
index has room, and a live entry is the one its save made, with the saved text in its file. -/
theorem store_representation (maxIndexEntries : ℕ) (defaultTtlSec : UInt32) (ops : List Op)
    (hcount : (run Store.step (Store.empty maxIndexEntries defaultTtlSec) ops).saved.length <
      2 ^ 32) :
    let s := run Store.step (Store.empty maxIndexEntries defaultTtlSec) ops
    ((live IndexEntry.deleted s.engine.index).map IndexEntry.eventId).Nodup ∧
      (s.engine.index.map IndexEntry.fileIndex).Nodup ∧
      (∀ e ∈ s.engine.index, e.fileIndex < s.engine.nextFileIndex) ∧
      (s.engine.index.map IndexEntry.fileIndex).Pairwise (· < ·) ∧
      s.engine.index.length ≤ maxIndexEntries ∧
      ∀ e ∈ live IndexEntry.deleted s.engine.index, ∃ json,
        s.saved[e.fileIndex.toNat]? = some (e, json) ∧ s.engine.files e.path = some json := by
  intro s
  have h : Represents maxIndexEntries s := represents_run (represents_empty _ _) ops hcount
  have hrising : (s.engine.index.map IndexEntry.fileIndex).Pairwise (· < ·) := by
    refine List.pairwise_map.mpr ((List.pairwise_map.mp h.sound.rising).imp ?_)
    intro a b hab
    exact UInt32.lt_iff_toNat_lt.mpr hab
  refine ⟨h.sound.distinct, hrising.imp UInt32.ne_of_lt, ?_, hrising, h.bounded, h.holds⟩
  intro e he
  exact UInt32.lt_iff_toNat_lt.mpr (h.sound.below e he)

/-- An event is saved, deleted and saved again, and the index compacted. -/
def savedAgain : List Op :=
  let save := Op.save (fun _ => []) 5 true (cstr "\x7b\"id\":\"00\",\"kind\":1\x7d")
  [save, .delete (Vector.replicate 32 0), save, .purge 9, .compact]

theorem store_representation_savedAgain :
    (run Store.step (Store.empty 5000 3600) savedAgain).saved.length = 2 ∧
      (run Store.step (Store.empty 5000 3600) savedAgain).engine.index.length = 1 ∧
      ((live IndexEntry.deleted
        (run Store.step (Store.empty 5000 3600) savedAgain).engine.index).map
          IndexEntry.eventId).Nodup := by
  have hcount : (run Store.step (Store.empty 5000 3600) savedAgain).saved.length = 2 := by
    decide
  have h := store_representation 5000 3600 savedAgain (by rw [hcount]; norm_num)
  exact ⟨hcount, by decide, h.1⟩

end Relay

end TollGate
