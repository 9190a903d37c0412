import TollGate.Lib.Checkpoint
import TollGate.Relay.Deletion
import TollGate.Relay.Filter

/-!
# The store over restarts

The index lives in memory. `save_index_to_nvs` copies it to flash in chunks of 50 entries,
at every tenth entry and whenever an event was deleted, purged or squeezed out; after a
restart `load_index_from_nvs` takes it from there. The files stay where they are.

A `Device` is the store with what `save_index_to_nvs` was given last. `Consistent` is the
invariant: the flash holds that index, no file of its live entries was touched since, and
its file numbers are below all that are still to be given out. What a restart loses is
that of a log with checkpoints (`Lib.Checkpoint`), of which the store is an instance
(`abstraction_step`).
-/

namespace TollGate

namespace Relay

open TombstoneLog StepRun

/-! ### Loading the index -/

/-- An entry of the array before anything is read into it. -/
def IndexEntry.zero : IndexEntry where
  eventId := Vector.replicate 32 0
  createdAt := 0
  expiresAt := 0
  fileIndex := 0
  kind := 0
  pubkeyPrefix := Vector.replicate 4 0
  flags := 0

/-- `nvs_get_blob` of a chunk into `entries` zeroed entries. A blob that is longer than the
room is not read. -/
def Nvs.getChunk (nvs : Nvs) (k entries : ℕ) : List IndexEntry :=
  match nvs.chunks k with
  | none => List.replicate entries .zero
  | some blob =>
    if blob.length > entries then List.replicate entries .zero
    else blob ++ List.replicate (entries - blob.length) .zero

/-- The loop of `load_index_from_nvs`, over the chunks of 50. -/
def Nvs.loadChunks (nvs : Nvs) (count : ℕ) : List IndexEntry :=
  (List.range ((count + 49) / 50)).flatMap fun k => nvs.getChunk k (min (count - 50 * k) 50)

/-- `load_index_from_nvs`, into a zeroed engine. -/
def Engine.loadIndexFromNvs (s : Engine) : Engine :=
  match s.nvs.header with
  -- the namespace is not there before the first save
  | none => s
  | some (count, nextIdx) =>
    let indexCount := min count.toNat s.maxIndexEntries
    { s with index := s.nvs.loadChunks indexCount, nextFileIndex := nextIdx }

/-- `storage_init`. The array has 5000 entries when the external memory has room for it, and
1000 otherwise. -/
def storageInit (spiram : Bool) (defaultTtlSec : UInt32) (files : CStr → Option CStr) (nvs : Nvs) :
    Engine :=
  Engine.loadIndexFromNvs
    { index := []
      maxIndexEntries := if spiram then 5000 else 1000
      nextFileIndex := 0
      defaultTtlSec := defaultTtlSec
      files := files
      nvs := nvs }

/-! ### Runs with restarts -/

/-- A call of the store, or a restart. -/
inductive DeviceOp where
  | call (op : Op)
  | reboot (spiram : Bool)

/-- The call ends with `save_index_to_nvs`. -/
def Op.writesIndex (s : Engine) : Op → Bool
  | .save heap now opened json =>
    let r := s.saveEventJson heap now opened json
    r.2 = .ok && r.1.index.length % 10 = 0
  | .delete eventId => (s.deleteEvent eventId).2 = .ok
  | .purge now => (s.purgeExpired now).2 > 0
  | .compact => s.compactIndex.2 > 0

/-- The store, with the index and the file number of the last `save_index_to_nvs`. -/
structure Device where
  store : Store
  written : List IndexEntry × UInt32

namespace Device

/-- The device at its first start, on an empty flash. -/
def new (spiram : Bool) (defaultTtlSec : UInt32) : Device :=
  { store := ⟨storageInit spiram defaultTtlSec (fun _ => none) ⟨none, fun _ => none⟩, []⟩
    written := ([], 0) }

/-- The engine of the device. -/
abbrev engine (d : Device) : Engine := d.store.engine

/-- One call, or one restart. -/
def step (d : Device) : DeviceOp → Device
  | .call op =>
    let store := d.store.step op
    { store := store
      written := if op.writesIndex d.engine then (store.engine.index, store.engine.nextFileIndex)
        else d.written }
  | .reboot spiram =>
    let s := d.engine
    { d with store :=
      { d.store with engine := storageInit spiram s.defaultTtlSec s.files s.nvs } }

/-- Some query at some time has the entry and the text in its answer. -/
def Serves (d : Device) (e : IndexEntry) (text : CStr) : Prop :=
  ∃ heap now kind author limit, (e, text) ∈ d.engine.queryEntries heap now kind author limit

end Device

/-- The call deletes or purges the event with this id. -/
def Op.Removes (s : Engine) (eventId : Vector UInt8 32) : Op → Prop
  | .delete eventId' => eventId' = eventId ∧ (s.deleteEvent eventId').2 = .ok
  | .purge now => ∃ e ∈ s.index, e.eventId = eventId ∧ Engine.purges now e = true
  | _ => False

/-- The operation saves an event with this id. -/
def DeviceOp.Saves (s : Engine) (eventId : Vector UInt8 32) : DeviceOp → Prop
  | .call (.save heap now opened json) =>
    (s.newEntry heap now json).eventId = eventId ∧
      (s.saveEventJson heap now opened json).2 = .ok
  | _ => False

/-! ### The copy in flash -/

/-- The flash holds this index and file number, or nothing was written yet. -/
def Nvs.Holds (nvs : Nvs) (written : List IndexEntry × UInt32) : Prop :=
  (nvs.header = none ∧ written = ([], 0)) ∨
    nvs.header = some (UInt16.ofNat written.1.length, written.2) ∧
      ∀ k, 50 * k < written.1.length → nvs.chunks k = some ((written.1.drop (50 * k)).take 50)

theorem holds_saveIndexToNvs (s : Engine) :
    s.saveIndexToNvs.nvs.Holds (s.index, s.nextFileIndex) :=
  .inr ⟨rfl, fun _ hk => if_pos hk⟩

/-- A list cut into pieces of one size, up to a length. -/
theorem flatMap_pieces {α : Type*} (size count : ℕ) (xs : List α) (n : ℕ) :
    ((List.range n).flatMap fun k => (xs.drop (size * k)).take (min (count - size * k) size)) =
      xs.take (min count (size * n)) := by
  induction n with
  | zero => simp
  | succ n ih =>
    rw [List.range_succ, List.flatMap_append, ih, List.flatMap_singleton, Nat.mul_succ]
    rcases le_total count (size * n) with hle | hle
    · -- the pieces before were enough
      rw [min_eq_left hle, Nat.sub_eq_zero_of_le hle, Nat.zero_min, List.take_zero,
        List.append_nil, min_eq_left (hle.trans (Nat.le_add_right _ _))]
    · rw [min_eq_right hle, ← List.take_add]
      congr 1
      omega

theorem loadChunks_eq {nvs : Nvs} {index : List IndexEntry} {count : ℕ}
    (hchunks : ∀ k, 50 * k < index.length →
      nvs.chunks k = some ((index.drop (50 * k)).take 50))
    (hcount : count = index.length ∨ count ≤ index.length ∧ 50 ∣ count) :
    nvs.loadChunks count = index.take count := by
  have hchunk : ∀ k ∈ List.range ((count + 49) / 50),
      nvs.getChunk k (min (count - 50 * k) 50) =
        (index.drop (50 * k)).take (min (count - 50 * k) 50) := by
    intro k hk
    have hk : k < (count + 49) / 50 := List.mem_range.mp hk
    have hlt : 50 * k < count := by omega
    -- the blob is as long as the room it is read into
    have hblob : min 50 (index.length - 50 * k) = min (count - 50 * k) 50 := by omega
    have hlen : ((index.drop (50 * k)).take 50).length = min (count - 50 * k) 50 := by
      rw [List.length_take, List.length_drop, hblob]
    unfold Nvs.getChunk
    rw [hchunks k (by omega)]
    dsimp only
    rw [if_neg (by omega), hlen, Nat.sub_self, List.replicate_zero, List.append_nil]
    rw [← hblob, ← List.length_drop]
    exact List.take_eq_take_min
  unfold Nvs.loadChunks
  rw [List.flatMap_congr hchunk, flatMap_pieces]
  congr 1
  omega

section Init

variable (spiram : Bool) (defaultTtlSec : UInt32) (files : CStr → Option CStr) {nvs : Nvs}

theorem storageInit_files : (storageInit spiram defaultTtlSec files nvs).files = files := by
  unfold storageInit Engine.loadIndexFromNvs
  split <;> rfl

theorem storageInit_nvs : (storageInit spiram defaultTtlSec files nvs).nvs = nvs := by
  unfold storageInit Engine.loadIndexFromNvs
  split <;> rfl

theorem storageInit_max : (storageInit spiram defaultTtlSec files nvs).maxIndexEntries =
    if spiram then 5000 else 1000 := by
  unfold storageInit Engine.loadIndexFromNvs
  split <;> rfl

/-- **Loading.** The index is the one that was written last, as far as there is room. -/
theorem storageInit_of_holds {written : List IndexEntry × UInt32} (h : nvs.Holds written)
    (hlen : written.1.length < 2 ^ 16) :
    (storageInit spiram defaultTtlSec files nvs).index =
        written.1.take (storageInit spiram defaultTtlSec files nvs).maxIndexEntries ∧
      (storageInit spiram defaultTtlSec files nvs).nextFileIndex = written.2 := by
  rw [storageInit_max]
  unfold storageInit Engine.loadIndexFromNvs
  rcases h with ⟨hheader, rfl⟩ | ⟨hheader, hchunks⟩
  · dsimp only
    rw [hheader]
    exact ⟨List.take_nil.symm, rfl⟩
  · dsimp only
    rw [hheader]
    dsimp only
    refine ⟨?_, rfl⟩
    have hcount : (UInt16.ofNat written.1.length).toNat = written.1.length :=
      UInt16.toNat_ofNat_of_lt' hlen
    rw [hcount]
    rcases le_total written.1.length (if spiram then 5000 else 1000) with hle | hle
    · rw [min_eq_left hle, loadChunks_eq hchunks (.inl rfl), List.take_length,
        List.take_of_length_le hle]
    · -- both sizes of the array are full chunks
      rw [min_eq_right hle, loadChunks_eq hchunks (.inr ⟨hle, ?_⟩)]
      cases spiram <;> decide

end Init

/-! ### What one operation does -/

/-- What a call does to the device: nothing; a save, which goes to flash at every tenth
entry; or some entries are gone, and the rest is in flash. -/
inductive Effect (d d' : Device) : Op → Prop
  | idle {op : Op} (same : d' = d) : Effect d d' op
  | save {heap : CStr → List UInt8} {now : UInt32} {opened : Bool} {json : CStr} {e : IndexEntry}
      (entry : e = d.engine.newEntry heap now json)
      (ok : (d.engine.saveEventJson heap now opened json).2 = .ok)
      (fresh : d.engine.eventExists e.eventId = false)
      (room : d.engine.index.length < d.engine.maxIndexEntries)
      (max : d'.engine.maxIndexEntries = d.engine.maxIndexEntries)
      (index : d'.engine.index = d.engine.index ++ [e])
      (next : d'.engine.nextFileIndex = d.engine.nextFileIndex + 1)
      (files : d'.engine.files = Function.update d.engine.files e.path (some json))
      (saved : d'.store.saved = d.store.saved ++ [(e, json)])
      (flash : if (d.engine.index.length + 1) % 10 = 0
        then d'.engine.nvs.Holds (d'.engine.index, d'.engine.nextFileIndex) ∧
          d'.written = (d'.engine.index, d'.engine.nextFileIndex)
        else d'.engine.nvs = d.engine.nvs ∧ d'.written = d.written) :
      Effect d d' (.save heap now opened json)
  | shrink {op : Op} (left : Shrinks d.engine d'.engine)
      (saved : d'.store.saved = d.store.saved)
      (flash : d'.engine.nvs.Holds (d'.engine.index, d'.engine.nextFileIndex))
      (written : d'.written = (d'.engine.index, d'.engine.nextFileIndex)) : Effect d d' op

theorem flash_saveEventJson {s : Engine} {heap : CStr → List UInt8} {now : UInt32} {opened : Bool}
    {json : CStr} (hok : (s.saveEventJson heap now opened json).2 = .ok) :
    if (s.index.length + 1) % 10 = 0
    then (s.saveEventJson heap now opened json).1.nvs.Holds
      ((s.saveEventJson heap now opened json).1.index,
        (s.saveEventJson heap now opened json).1.nextFileIndex)
    else (s.saveEventJson heap now opened json).1.nvs = s.nvs := by
  unfold Engine.saveEventJson at hok ⊢
  dsimp only at hok ⊢
  -- only the last branch answers `ok`
  split at hok
  · exact absurd hok (by simp)
  next hexists =>
    rw [if_neg hexists]
    split at hok
    · exact absurd hok (by simp)
    next hroom =>
      rw [if_neg hroom]
      split at hok
      · exact absurd hok (by simp)
      next hopened =>
        rw [if_neg hopened]
        have hlen : (s.addEntry (s.newEntry heap now json) json).index.length =
            s.index.length + 1 := List.length_append
        rw [hlen]
        split
        · exact holds_saveIndexToNvs _
        · rfl

theorem purgeExpired_idle {s : Engine} {now : UInt32} (h : ¬ (s.purgeExpired now).2 > 0) :
    (s.purgeExpired now).1 = s := by
  have hnone : s.index.filter (Engine.purges now) = [] :=
    List.eq_nil_of_length_eq_zero (Nat.eq_zero_of_not_pos h)
  have hmap : (s.index.map fun e => if Engine.purges now e then e.delete else e) = s.index := by
    refine (List.map_congr_left fun e he => ?_).trans (List.map_id s.index)
    exact if_neg (List.filter_eq_nil_iff.mp hnone e he)
  unfold Engine.purgeExpired
  dsimp only
  rw [hnone, hmap]
  rfl

theorem compactIndex_idle {s : Engine} (h : ¬ s.compactIndex.2 > 0) : s.compactIndex.1 = s := by
  obtain ⟨-, hcount⟩ := compactLoop_eq IndexEntry.deleted s.index
  have hindex := index_compactIndex s
  unfold Engine.compactIndex at h hindex ⊢
  dsimp only at h hindex ⊢
  split at h
  next hpos => exact absurd hpos h
  next hzero =>
    rw [if_neg hzero] at hindex ⊢
    -- all entries were kept
    have hall : live IndexEntry.deleted s.index = s.index :=
      List.filter_sublist.eq_of_length_le (by unfold live at hcount; omega)
    rw [show (compactLoop IndexEntry.deleted s.index).1 = s.index from hindex.trans hall]

theorem holds_deleteEvent {s : Engine} {eventId : Vector UInt8 32}
    (hok : (s.deleteEvent eventId).2 = .ok) :
    (s.deleteEvent eventId).1.nvs.Holds
      ((s.deleteEvent eventId).1.index, (s.deleteEvent eventId).1.nextFileIndex) := by
  unfold Engine.deleteEvent at hok ⊢
  split at hok
  next => exact absurd hok (by simp)
  next hfind => exact holds_saveIndexToNvs _

theorem deleteEvent_idle {s : Engine} {eventId : Vector UInt8 32}
    (h : (s.deleteEvent eventId).2 ≠ .ok) : (s.deleteEvent eventId).1 = s := by
  unfold Engine.deleteEvent at h ⊢
  split at h
  next => rfl
  next => exact absurd rfl h

theorem holds_purgeExpired {s : Engine} {now : UInt32} (h : (s.purgeExpired now).2 > 0) :
    (s.purgeExpired now).1.nvs.Holds
      ((s.purgeExpired now).1.index, (s.purgeExpired now).1.nextFileIndex) := by
  unfold Engine.purgeExpired at h ⊢
  dsimp only at h ⊢
  rw [if_pos h]
  exact holds_saveIndexToNvs _

theorem holds_compactIndex {s : Engine} (h : s.compactIndex.2 > 0) :
    s.compactIndex.1.nvs.Holds (s.compactIndex.1.index, s.compactIndex.1.nextFileIndex) := by
  unfold Engine.compactIndex at h ⊢
  dsimp only at h ⊢
  split at h
  next hpos =>
    rw [if_pos hpos]
    exact holds_saveIndexToNvs _
  next => exact absurd h (lt_irrefl 0)

section Step

variable {d : Device} {op : Op}

theorem step_call_writes (h : op.writesIndex d.engine = true) :
    d.step (.call op) = ⟨d.store.step op,
      ((d.store.step op).engine.index, (d.store.step op).engine.nextFileIndex)⟩ := by
  unfold Device.step
  dsimp only
  rw [if_pos h]

theorem step_call_keeps (h : op.writesIndex d.engine = false) :
    d.step (.call op) = ⟨d.store.step op, d.written⟩ := by
  unfold Device.step
  dsimp only
  rw [if_neg (by rw [h]; exact Bool.false_ne_true)]

theorem effect_idle (hstore : d.store.step op = d.store) (h : op.writesIndex d.engine = false) :
    Effect d (d.step (.call op)) op :=
  .idle (by rw [step_call_keeps h, hstore])

/-- A call that takes entries away writes the index if it took any. -/
theorem effect_shrink {s : Engine} (hstore : d.store.step op = { d.store with engine := s })
    (left : Shrinks d.engine s)
    (h : (op.writesIndex d.engine = true ∧ s.nvs.Holds (s.index, s.nextFileIndex)) ∨
      (op.writesIndex d.engine = false ∧ s = d.engine)) :
    Effect d (d.step (.call op)) op := by
  rcases h with ⟨hwrites, flash⟩ | ⟨hkeeps, hsame⟩
  · rw [step_call_writes hwrites, hstore]
    exact .shrink left rfl flash rfl
  · refine effect_idle ?_ hkeeps
    rw [hstore, hsame]

end Step

theorem effect_call {d : Device} (h : SoundIndex d.engine.nextFileIndex.toNat d.engine.index)
    (op : Op) : Effect d (d.step (.call op)) op := by
  cases op with
  | save heap now opened json =>
    rcases saveEventJson_cases d.engine heap now opened json with
      ⟨hsame, herr⟩ | ⟨hok, -, hnew, hroom, hindex, hnext, hmax, hfiles⟩
    · refine effect_idle ?_ ?_
      · unfold Store.step
        dsimp only
        rw [hsame, if_neg herr]
      · unfold Op.writesIndex
        simp [herr]
    · have hlen : (d.engine.saveEventJson heap now opened json).1.index.length =
          d.engine.index.length + 1 := by
        rw [hindex]
        exact List.length_append
      have hwrites : Op.writesIndex d.engine (.save heap now opened json) =
          decide ((d.engine.index.length + 1) % 10 = 0) := by
        unfold Op.writesIndex
        simp [hok, hlen]
      have hflash := flash_saveEventJson hok
      -- the copy in flash is written at every tenth entry
      split at hflash
      next hdue =>
        rw [step_call_writes (hwrites.trans (decide_eq_true hdue))]
        refine .save rfl hok hnew hroom hmax hindex hnext hfiles (if_pos hok) ?_
        rw [if_pos hdue]
        exact ⟨hflash, rfl⟩
      next hdue =>
        rw [step_call_keeps (hwrites.trans (decide_eq_false hdue))]
        refine .save rfl hok hnew hroom hmax hindex hnext hfiles (if_pos hok) ?_
        rw [if_neg hdue]
        exact ⟨hflash, rfl⟩
  | delete eventId =>
    refine effect_shrink rfl (shrinks_deleteEvent h eventId) ?_
    by_cases hok : (d.engine.deleteEvent eventId).2 = .ok
    · exact .inl ⟨decide_eq_true hok, holds_deleteEvent hok⟩
    · exact .inr ⟨decide_eq_false hok, deleteEvent_idle hok⟩
  | purge now =>
    refine effect_shrink rfl (shrinks_purgeExpired h now) ?_
    by_cases hpurged : (d.engine.purgeExpired now).2 > 0
    · exact .inl ⟨decide_eq_true hpurged, holds_purgeExpired hpurged⟩
    · exact .inr ⟨decide_eq_false hpurged, purgeExpired_idle hpurged⟩
  | compact =>
    refine effect_shrink rfl (shrinks_compactIndex h) ?_
    by_cases hcompacted : d.engine.compactIndex.2 > 0
    · exact .inl ⟨decide_eq_true hcompacted, holds_compactIndex hcompacted⟩
    · exact .inr ⟨decide_eq_false hcompacted, compactIndex_idle hcompacted⟩

/-! ### The invariant -/

/-- The files of the live entries hold what was saved for them. -/
def Filed (d : Device) (index : List IndexEntry) : Prop :=
  ∀ e ∈ live IndexEntry.deleted index,
    ∃ json, (e, json) ∈ d.store.saved ∧ d.engine.files e.path = some json

/-- The index in memory and the one that was written last are sound and have their files,
the file number of the second is not ahead of the first, and the flash holds the second. -/
structure Consistent (d : Device) : Prop where
  sound : SoundIndex d.engine.nextFileIndex.toNat d.engine.index
  soundWritten : SoundIndex d.written.2.toNat d.written.1
  behind : d.written.2.toNat ≤ d.engine.nextFileIndex.toNat
  counts : d.engine.nextFileIndex.toNat ≤ d.store.saved.length
  filed : Filed d d.engine.index
  filedWritten : Filed d d.written.1
  flash : d.engine.nvs.Holds d.written
  room : d.engine.index.length ≤ d.engine.maxIndexEntries
  max : d.engine.maxIndexEntries ≤ 5000
  short : d.written.1.length ≤ 5000

theorem Filed.sublist {d : Device} {index index' : List IndexEntry} (h : Filed d index)
    (hsub : index'.Sublist index) : Filed d index' :=
  fun e he => h e ((hsub.filter _).subset he)

/-- A save leaves the files of entries with smaller numbers. -/
theorem Filed.save {d d' : Device} {index : List IndexEntry} (h : Filed d index) {e : IndexEntry}
    {json : CStr} (hbelow : ∀ b ∈ index, b.fileIndex.toNat < e.fileIndex.toNat)
    (hfiles : d'.engine.files = Function.update d.engine.files e.path (some json))
    (hsaved : d'.store.saved = d.store.saved ++ [(e, json)]) : Filed d' index := by
  intro b hb
  obtain ⟨json', hmem, hfile⟩ := h b hb
  refine ⟨json', ?_, ?_⟩
  · rw [hsaved]
    exact List.mem_append_left _ hmem
  · rw [hfiles, Function.update_of_ne]
    · exact hfile
    · intro hpath
      have hlt := hbelow b (mem_live.mp hb).1
      rw [getEventPath_injective hpath] at hlt
      exact lt_irrefl _ hlt

/-- The new entry has its file, too. -/
theorem Filed.concat {d d' : Device} {index : List IndexEntry} (h : Filed d index)
    {e : IndexEntry} {json : CStr} (hbelow : ∀ b ∈ index, b.fileIndex.toNat < e.fileIndex.toNat)
    (hfiles : d'.engine.files = Function.update d.engine.files e.path (some json))
    (hsaved : d'.store.saved = d.store.saved ++ [(e, json)]) : Filed d' (index ++ [e]) := by
  intro b hb
  rw [live_append] at hb
  rcases List.mem_append.mp hb with hold | hlast
  · exact h.save hbelow hfiles hsaved b hold
  · obtain rfl : b = e := List.mem_singleton.mp (mem_live.mp hlast).1
    refine ⟨json, ?_, ?_⟩
    · rw [hsaved]
      exact List.mem_concat_self
    · rw [hfiles]
      exact Function.update_self _ _ _

/-- When the index has just been written, what holds of it holds of the copy in flash. -/
theorem Consistent.of_written {d : Device}
    (sound : SoundIndex d.engine.nextFileIndex.toNat d.engine.index)
    (counts : d.engine.nextFileIndex.toNat ≤ d.store.saved.length)
    (filed : Filed d d.engine.index)
    (flash : d.engine.nvs.Holds (d.engine.index, d.engine.nextFileIndex))
    (written : d.written = (d.engine.index, d.engine.nextFileIndex))
    (room : d.engine.index.length ≤ d.engine.maxIndexEntries)
    (max : d.engine.maxIndexEntries ≤ 5000) : Consistent d := by
  refine ⟨sound, ?_, ?_, counts, filed, ?_, ?_, room, max, ?_⟩
  · rw [written]
    exact sound
  · rw [written]
  · rw [written]
    exact filed
  · rw [written]
    exact flash
  · rw [written]
    exact room.trans max

theorem consistent_new (spiram : Bool) (defaultTtlSec : UInt32) :
    Consistent (Device.new spiram defaultTtlSec) := by
  have hempty : Filed (Device.new spiram defaultTtlSec) [] := by
    intro e he
    exact absurd (mem_live.mp he).1 List.not_mem_nil
  refine ⟨Sound.nil _, Sound.nil _, le_rfl, le_rfl, hempty, hempty, .inl ⟨rfl, rfl⟩,
    Nat.zero_le _, ?_, Nat.zero_le _⟩
  exact (storageInit_max spiram _ _).trans_le (by split <;> norm_num)

theorem index_reboot {d : Device} (h : Consistent d) (spiram : Bool) :
    (d.step (.reboot spiram)).engine.index =
        d.written.1.take (d.step (.reboot spiram)).engine.maxIndexEntries ∧
      (d.step (.reboot spiram)).engine.nextFileIndex = d.written.2 :=
  storageInit_of_holds spiram _ _ h.flash (h.short.trans_lt (by norm_num))

theorem max_reboot (d : Device) (spiram : Bool) :
    (d.step (.reboot spiram)).engine.maxIndexEntries = if spiram then 5000 else 1000 :=
  storageInit_max spiram _ _

theorem Consistent.reboot {d : Device} (h : Consistent d) (spiram : Bool) :
    Consistent (d.step (.reboot spiram)) := by
  obtain ⟨hindex, hnext⟩ := index_reboot h spiram
  have hsub : (d.step (.reboot spiram)).engine.index.Sublist d.written.1 := by
    rw [hindex]
    exact List.take_sublist _ _
  -- the files and what was saved stay
  have hfiled : Filed (d.step (.reboot spiram)) d.written.1 := by
    intro e he
    obtain ⟨json, hmem, hfile⟩ := h.filedWritten e he
    exact ⟨json, hmem, (congrFun (storageInit_files spiram _ _) _).trans hfile⟩
  have hflash : (d.step (.reboot spiram)).engine.nvs.Holds d.written :=
    (storageInit_nvs spiram _ _).symm ▸ h.flash
  refine ⟨?_, h.soundWritten, ?_, ?_, hfiled.sublist hsub, hfiled, hflash, ?_, ?_, h.short⟩
  · rw [hnext]
    exact h.soundWritten.sublist hsub
  · rw [hnext]
    exact le_rfl
  · rw [hnext]
    exact h.behind.trans h.counts
  · rw [hindex, List.length_take]
    exact min_le_left _ _
  · rw [max_reboot]
    split <;> norm_num

theorem Consistent.shrink {d d' : Device} (h : Consistent d) (left : Shrinks d.engine d'.engine)
    (saved : d'.store.saved = d.store.saved)
    (flash : d'.engine.nvs.Holds (d'.engine.index, d'.engine.nextFileIndex))
    (written : d'.written = (d'.engine.index, d'.engine.nextFileIndex)) : Consistent d' := by
  have hfiled : Filed d' d'.engine.index := by
    intro e he
    obtain ⟨he, hfiles⟩ := left.left e he
    rw [saved, hfiles]
    exact h.filed e he
  refine .of_written ?_ ?_ hfiled flash written ?_ (left.max ▸ h.max)
  · rw [left.next]
    exact left.sound
  · rw [left.next, saved]
    exact h.counts
  · exact left.max ▸ left.length.trans h.room

theorem Consistent.effect {d d' : Device} {op : Op} (h : Consistent d) (heffect : Effect d d' op)
    (hcount : d'.store.saved.length < 2 ^ 32) : Consistent d' := by
  cases heffect with
  | idle same => exact same ▸ h
  | shrink left saved flash written => exact h.shrink left saved flash written
  | @save heap now opened json e entry ok fresh room max index next files saved flash =>
    have number : e.fileIndex = d.engine.nextFileIndex := by
      rw [entry]
      rfl
    have hlen : d'.store.saved.length = d.store.saved.length + 1 := by
      rw [saved]
      exact List.length_append
    have hcounts := h.counts
    -- the file numbers have not run out
    have hnat : d'.engine.nextFileIndex.toNat = d.engine.nextFileIndex.toNat + 1 := by
      rw [next, UInt32.toNat_add, UInt32.toNat_one]
      omega
    have hbelow : ∀ b ∈ d.engine.index, b.fileIndex.toNat < e.fileIndex.toNat := by
      intro b hb
      rw [number]
      exact h.sound.below b hb
    have hsound : SoundIndex d'.engine.nextFileIndex.toNat d'.engine.index := by
      rw [hnat, index]
      exact h.sound.append (congrArg UInt32.toNat number)
        fun b hb hlive => eventId_ne_of_not_exists fresh hb hlive
    have hfiled : Filed d' d'.engine.index := by
      rw [index]
      exact h.filed.concat hbelow files saved
    have hmax : d'.engine.maxIndexEntries ≤ 5000 := max ▸ h.max
    have hroom : d'.engine.index.length ≤ d'.engine.maxIndexEntries := by
      rw [index, List.length_append, max]
      exact room
    split at flash
    next =>
      -- the new index is in flash, too
      obtain ⟨hflash, hwritten⟩ := flash
      exact .of_written hsound (by omega) hfiled hflash hwritten hroom hmax
    next =>
      -- the flash has the index it had, and its entries have smaller numbers
      obtain ⟨hnvs, hwritten⟩ := flash
      have hbehind := h.behind
      refine ⟨hsound, hwritten ▸ h.soundWritten, ?_, ?_, hfiled, ?_, ?_, hroom, hmax,
        hwritten ▸ h.short⟩
      · rw [hwritten]
        omega
      · omega
      · rw [hwritten]
        refine h.filedWritten.save (fun b hb => ?_) files saved
        rw [number]
        exact (h.soundWritten.below b hb).trans_le hbehind
      · rw [hwritten, hnvs]
        exact h.flash

/-- No save is forgotten. -/
theorem length_saved_le (d : Device) (op : DeviceOp) :
    d.store.saved.length ≤ (d.step op).store.saved.length := by
  cases op with
  | call op => exact length_saved_le_step d.store op
  | reboot => exact le_rfl

theorem length_saved_le_run (d : Device) (ops : List DeviceOp) :
    d.store.saved.length ≤ (run Device.step d ops).store.saved.length :=
  run_induction (P := fun d' => d.store.saved.length ≤ d'.store.saved.length)
    (fun d' op hd' => hd'.trans (length_saved_le d' op)) le_rfl ops

theorem Consistent.step {d : Device} (h : Consistent d) (op : DeviceOp)
    (hcount : (d.step op).store.saved.length < 2 ^ 32) : Consistent (d.step op) := by
  cases op with
  | call op => exact h.effect (effect_call h.sound op) hcount
  | reboot spiram => exact h.reboot spiram

/-- The device stays consistent as long as the file numbers last. -/
theorem consistent_run {d : Device} (h : Consistent d) (ops : List DeviceOp)
    (hcount : (run Device.step d ops).store.saved.length < 2 ^ 32) :
    Consistent (run Device.step d ops) := by
  refine run_induction (P := fun d => d.store.saved.length < 2 ^ 32 → Consistent d) ?_
    (fun _ => h) ops hcount
  intro d op ih hlt
  exact (ih ((length_saved_le d op).trans_lt hlt)).step op hlt

/-! ### The store as a log with checkpoints -/

/-- The index in memory, the one that was written last and the entries that were saved. -/
def Device.checkpoint (d : Device) : Checkpoint.State IndexEntry where
  memory := d.engine.index
  disk := d.written.1
  appended := d.store.saved.map Prod.fst

theorem abstraction_step {d : Device} (h : Consistent d) (op : DeviceOp) :
    ∃ op', (d.step op).checkpoint = Checkpoint.step 10 d.checkpoint op' := by
  cases op with
  | reboot spiram =>
    refine ⟨.crash (d.step (.reboot spiram)).engine.maxIndexEntries, ?_⟩
    unfold Device.checkpoint Checkpoint.step
    dsimp only
    rw [(index_reboot h spiram).1]
    rfl
  | call op =>
    cases effect_call h.sound op with
    | idle same => exact ⟨.skip, by rw [same]; rfl⟩
    | shrink left saved flash written =>
      refine ⟨.rewrite (d.step (.call op)).engine.index, ?_⟩
      unfold Device.checkpoint Checkpoint.step
      dsimp only
      rw [written, saved]
    | @save heap now opened json e entry ok fresh room max index next files saved flash =>
      refine ⟨.append e, ?_⟩
      unfold Device.checkpoint Checkpoint.step
      dsimp only
      rw [index, saved, List.map_append]
      split at flash
      next hdue =>
        rw [flash.2, if_pos hdue, index]
        rfl
      next hdue =>
        rw [flash.2, if_neg hdue]
        rfl

theorem recent_run {d : Device} (h : Consistent d) (hrecent : Checkpoint.Recent 10 d.checkpoint)
    (ops : List DeviceOp) (hcount : (run Device.step d ops).store.saved.length < 2 ^ 32) :
    Checkpoint.Recent 10 (run Device.step d ops).checkpoint := by
  suffices hboth : Consistent (run Device.step d ops) ∧
      Checkpoint.Recent 10 (run Device.step d ops).checkpoint from hboth.2
  refine run_induction (P := fun d => d.store.saved.length < 2 ^ 32 →
    Consistent d ∧ Checkpoint.Recent 10 d.checkpoint) ?_ (fun _ => ⟨h, hrecent⟩) ops hcount
  intro d op ih hlt
  obtain ⟨hd, hrecent⟩ := ih ((length_saved_le d op).trans_lt hlt)
  obtain ⟨op', hop'⟩ := abstraction_step hd op
  refine ⟨hd.step op hlt, ?_⟩
  rw [hop']
  exact hrecent.step op'

/-! ### What is gone and what is served -/

/-- No live entry has this id, neither in memory nor in flash. -/
def Gone (eventId : Vector UInt8 32) (d : Device) : Prop :=
  (∀ e ∈ live IndexEntry.deleted d.engine.index, e.eventId ≠ eventId) ∧
    ∀ e ∈ live IndexEntry.deleted d.written.1, e.eventId ≠ eventId

theorem gone_of_removes {d : Device} (h : Consistent d) {op : Op} {eventId : Vector UInt8 32}
    (hremoves : op.Removes d.engine eventId) : Gone eventId (d.step (.call op)) := by
  cases op with
  | save => exact hremoves.elim
  | compact => exact hremoves.elim
  | delete eventId' =>
    obtain ⟨rfl, hok⟩ := hremoves
    have hgone : ∀ e ∈ live IndexEntry.deleted (d.engine.deleteEvent eventId').1.index,
        e.eventId ≠ eventId' := by
      intro e he
      rw [live_deleteEvent h.sound.distinct] at he
      exact of_decide_eq_true (List.mem_filter.mp he).2
    have hwrites : Op.writesIndex d.engine (.delete eventId') = true := decide_eq_true hok
    rw [step_call_writes hwrites]
    exact ⟨hgone, hgone⟩
  | purge now =>
    obtain ⟨e, he, rfl, hpurges⟩ := hremoves
    have hlive : e.deleted = false := by
      unfold Engine.purges at hpurges
      rw [Bool.and_eq_true, Bool.not_eq_true'] at hpurges
      exact hpurges.1
    have hgone : ∀ b ∈ live IndexEntry.deleted (d.engine.purgeExpired now).1.index,
        b.eventId ≠ e.eventId := by
      intro b hb hid
      rw [live_purgeExpired] at hb
      obtain ⟨hbmem, hkept⟩ := List.mem_filter.mp hb
      -- live ids are distinct, so it would be the entry that was purged
      have hbe : b = e :=
        List.inj_on_of_nodup_map h.sound.distinct hbmem (mem_live.mpr ⟨he, hlive⟩) hid
      rw [hbe, hpurges] at hkept
      exact Bool.noConfusion hkept
    have hwrites : Op.writesIndex d.engine (.purge now) = true :=
      decide_eq_true (List.length_pos_of_mem (List.mem_filter.mpr ⟨he, hpurges⟩))
    rw [step_call_writes hwrites]
    exact ⟨hgone, hgone⟩

theorem Gone.step {d : Device} {eventId : Vector UInt8 32} (hd : Consistent d)
    (h : Gone eventId d) {op : DeviceOp} (hsaves : ¬ op.Saves d.engine eventId) :
    Gone eventId (d.step op) := by
  cases op with
  | reboot spiram =>
    refine ⟨fun e he => h.2 e ?_, h.2⟩
    rw [(index_reboot hd spiram).1] at he
    exact ((List.take_sublist _ _).filter _).subset he
  | call op =>
    cases effect_call hd.sound op with
    | idle same =>
      rw [same]
      exact h
    | shrink left saved flash written =>
      have hgone := fun e he => h.1 e (left.left e he).1
      refine ⟨hgone, ?_⟩
      rw [written]
      exact hgone
    | @save heap now opened json e entry ok fresh room max index next files saved flash =>
      have hgone : ∀ b ∈ live IndexEntry.deleted
          (d.step (.call (.save heap now opened json))).engine.index, b.eventId ≠ eventId := by
        intro b hb
        rw [index, live_append] at hb
        rcases List.mem_append.mp hb with hold | hlast
        · exact h.1 b hold
        · rw [List.mem_singleton.mp (mem_live.mp hlast).1, entry]
          exact fun hid => hsaves ⟨hid, ok⟩
      refine ⟨hgone, ?_⟩
      split at flash
      · rw [flash.2]
        exact hgone
      · rw [flash.2]
        exact h.2

theorem mem_of_serves {d : Device} {e : IndexEntry} {text : CStr} (h : d.Serves e text) :
    e ∈ live IndexEntry.deleted d.engine.index ∧ d.engine.files e.path = some text := by
  obtain ⟨heap, now, kind, author, limit, h⟩ := h
  unfold Engine.queryEntries at h
  rw [queryLoop_eq] at h
  obtain ⟨b, hb, hpair⟩ := List.mem_map.mp h
  obtain ⟨rfl, rfl⟩ := Prod.mk.inj hpair
  obtain ⟨hb, htest⟩ := List.mem_filter.mp (List.mem_of_mem_take hb)
  obtain ⟨hb, hlife⟩ := List.mem_filter.mp hb
  rw [Bool.and_eq_true] at htest hlife
  obtain ⟨json, hread⟩ := Option.isSome_iff_exists.mp htest.2
  refine ⟨mem_live.mpr ⟨List.mem_reverse.mp hb, by simpa using hlife.1⟩, ?_⟩
  rw [readEvent_eq_some hread]
  rfl

theorem gone_run {d : Device} {eventId : Vector UInt8 32} (hd : Consistent d)
    (h : Gone eventId d) {ops : List DeviceOp}
    (hsaves : AllSteps Device.step (fun d op => ¬ op.Saves d.engine eventId) d ops)
    (hcount : (run Device.step d ops).store.saved.length < 2 ^ 32) :
    Gone eventId (run Device.step d ops) := by
  suffices hboth : Consistent (run Device.step d ops) ∧ Gone eventId (run Device.step d ops) from
    hboth.2
  refine run_guarded (P := fun d => d.store.saved.length < 2 ^ 32 →
    Consistent d ∧ Gone eventId d) ?_ (fun _ => ⟨hd, h⟩) hsaves hcount
  intro d op ih hop hlt
  obtain ⟨hd, hgone⟩ := ih ((length_saved_le d op).trans_lt hlt)
  exact ⟨hd.step op hlt, hgone.step hd hop⟩

theorem Consistent.saved_of_serves {d : Device} (h : Consistent d) {e : IndexEntry} {text : CStr}
    (hserves : d.Serves e text) : (e, text) ∈ d.store.saved := by
  obtain ⟨he, hfile⟩ := mem_of_serves hserves
  obtain ⟨json, hsaved, hjson⟩ := h.filed e he
  rw [hfile, Option.some.injEq] at hjson
  exact hjson ▸ hsaved

/-- A new file is none of those that the index knows. -/
theorem Consistent.path_ne_newEntry {d : Device} (h : Consistent d) (heap : CStr → List UInt8)
    (now : UInt32) (json : CStr) {e : IndexEntry} (he : e ∈ d.engine.index) :
    e.path ≠ (d.engine.newEntry heap now json).path := by
  intro hpath
  have hlt := h.sound.below e he
  rw [getEventPath_injective hpath] at hlt
  exact lt_irrefl _ hlt

/-- What a restart leaves of the live entries. -/
theorem live_reboot {d : Device} (h : Consistent d) (hrecent : Checkpoint.Recent 10 d.checkpoint)
    (spiram : Bool) {e : IndexEntry} (he : e ∈ live IndexEntry.deleted d.engine.index) :
    let d' := d.step (.reboot spiram)
    (e ∈ live IndexEntry.deleted d'.engine.index ∧
        d'.engine.files e.path = d.engine.files e.path) ∨
      e ∈ (d.store.saved.map Prod.fst).drop (d.store.saved.length - 9) ∨
        e ∈ d.written.1.drop d'.engine.maxIndexEntries := by
  intro d'
  obtain ⟨hmem, hlive⟩ := mem_live.mp he
  rcases hrecent.mem_of_crash (by norm_num) d'.engine.maxIndexEntries hmem with hin | hlast | hout
  · refine .inl ⟨mem_live.mpr ⟨?_, hlive⟩, congrFun (storageInit_files spiram _ _) _⟩
    rw [(index_reboot h spiram).1]
    exact hin
  · rw [Device.checkpoint, List.length_map] at hlast
    exact .inr (.inl hlast)
  · exact .inr (.inr hout)

theorem consistent_device (spiram : Bool) (defaultTtlSec : UInt32) (ops : List DeviceOp)
    (hcount : (run Device.step (Device.new spiram defaultTtlSec) ops).store.saved.length <
      2 ^ 32) : Consistent (run Device.step (Device.new spiram defaultTtlSec) ops) :=
  consistent_run (consistent_new spiram defaultTtlSec) ops hcount

/-- **The store over restarts.** For every run of calls and restarts with fewer than `2 ^ 32`
saves: a restart loads the index that was written last, as far as the array has room, and
what is missing afterwards is among the last nine saves or had no room; an event that was
deleted or purged is not served as long as it is not saved again; what is served is what was
saved; and a save never writes to the file of an entry. -/
theorem restart_consistent (spiram : Bool) (defaultTtlSec : UInt32) (ops : List DeviceOp)
    (hcount : (run Device.step (Device.new spiram defaultTtlSec) ops).store.saved.length <
      2 ^ 32) :
    let d := run Device.step (Device.new spiram defaultTtlSec) ops
    (∀ spiram',
      let d' := d.step (.reboot spiram')
      d'.engine.index = d.written.1.take d'.engine.maxIndexEntries ∧
        d'.engine.nextFileIndex = d.written.2 ∧
        ∀ e ∈ live IndexEntry.deleted d.engine.index,
          (e ∈ live IndexEntry.deleted d'.engine.index ∧
              d'.engine.files e.path = d.engine.files e.path) ∨
            e ∈ (d.store.saved.map Prod.fst).drop (d.store.saved.length - 9) ∨
              e ∈ d.written.1.drop d'.engine.maxIndexEntries) ∧
      (∀ before op after eventId, ops = before ++ .call op :: after →
        op.Removes (run Device.step (Device.new spiram defaultTtlSec) before).engine eventId →
        AllSteps Device.step (fun d op => ¬ op.Saves d.engine eventId)
          (run Device.step (Device.new spiram defaultTtlSec) (before ++ [.call op])) after →
        ∀ e text, d.Serves e text → e.eventId ≠ eventId) ∧
      (∀ e text, d.Serves e text → (e, text) ∈ d.store.saved) ∧
      ∀ heap now opened json, (d.engine.saveEventJson heap now opened json).2 = .ok →
        ∀ e ∈ d.engine.index, e.path ≠ (d.engine.newEntry heap now json).path := by
  intro d
  have h : Consistent d := consistent_device spiram defaultTtlSec ops hcount
  have hrecent : Checkpoint.Recent 10 d.checkpoint := by
    refine recent_run (consistent_new spiram defaultTtlSec) ?_ ops hcount
    exact Checkpoint.recent_start 10
  refine ⟨?_, ?_, fun e text => h.saved_of_serves, ?_⟩
  · intro spiram' d'
    obtain ⟨hindex, hnext⟩ := index_reboot h spiram'
    exact ⟨hindex, hnext, fun e he => live_reboot h hrecent spiram' he⟩
  · intro before op after eventId hops hremoves hsaves e text hserves
    have hsplit : d = run Device.step
        (run Device.step (Device.new spiram defaultTtlSec) (before ++ [.call op])) after := by
      rw [← run_append, List.append_assoc]
      exact congrArg (run Device.step _) hops
    have hcount : d.store.saved.length < 2 ^ 32 := hcount
    rw [hsplit] at hcount hserves
    -- the saves of a part of the run are no more than those of the whole run
    have hpart := (length_saved_le_run _ after).trans_lt hcount
    have hgone : Gone eventId
        (run Device.step (Device.new spiram defaultTtlSec) (before ++ [.call op])) := by
      rw [run_concat] at hpart ⊢
      refine gone_of_removes (consistent_device spiram defaultTtlSec before ?_) hremoves
      exact (length_saved_le _ _).trans_lt hpart
    exact (gone_run (consistent_device spiram defaultTtlSec _ hpart) hgone hsaves hcount).1 e
      (mem_of_serves hserves).1
  · intro heap now opened json _ e he
    exact h.path_ne_newEntry heap now json he

/-! ### A worn store -/

/-- An event is saved and deleted again. -/
def marker : CStr := cstr "\x7b\"id\":\"01\"\x7d"

/-- The id of the event. -/
def markerId : Vector UInt8 32 := zeroField 32 [1]

/-- The two calls. -/
def savedAndDeleted : List DeviceOp :=
  [.call (.save (fun _ => []) 0 true marker), .call (.delete markerId)]

theorem ok_saveEventJson {s : Engine} {heap : CStr → List UInt8} {now : UInt32} {json : CStr}
    (hnew : s.eventExists (s.newEntry heap now json).eventId = false)
    (hroom : s.index.length < s.maxIndexEntries) :
    (s.saveEventJson heap now true json).2 = .ok := by
  unfold Engine.saveEventJson
  dsimp only
  rw [if_neg (by simp [hnew]), if_neg (Nat.not_le.mpr hroom), if_neg (by simp)]

theorem ok_deleteEvent {s : Engine} {eventId : Vector UInt8 32}
    (h : s.eventExists eventId = true) : (s.deleteEvent eventId).2 = .ok := by
  obtain ⟨i, hi⟩ := Option.isSome_iff_exists.mp h
  unfold Engine.deleteEvent
  rw [hi]

theorem deleteEvent_fields (s : Engine) (eventId : Vector UInt8 32) :
    (s.deleteEvent eventId).1.index.length = s.index.length ∧
      (s.deleteEvent eventId).1.nextFileIndex = s.nextFileIndex ∧
      (s.deleteEvent eventId).1.maxIndexEntries = s.maxIndexEntries := by
  unfold Engine.deleteEvent
  split
  · exact ⟨rfl, rfl, rfl⟩
  · exact ⟨List.length_modify _ _ _, rfl, rfl⟩

theorem eventExists_eq_false {s : Engine} {eventId : Vector UInt8 32}
    (h : ∀ e ∈ live IndexEntry.deleted s.index, e.eventId ≠ eventId) :
    s.eventExists eventId = false := by
  rw [Engine.eventExists, Option.isSome_eq_false_iff, Option.isNone_iff_eq_none,
    Engine.findIndexEntry, List.findIdx?_eq_none_iff]
  intro e he
  cases hdead : e.deleted with
  | true => simp
  | false => simp [h e (mem_live.mpr ⟨he, hdead⟩)]

/-- An entry is added whose id no living one has. -/
theorem DistinctIds.concat {s s' : Engine} {e : IndexEntry} (h : DistinctIds s)
    (hindex : s'.index = s.index ++ [e]) (hlive : e.deleted = false)
    (hnew : ∀ b ∈ live IndexEntry.deleted s.index, b.eventId ≠ e.eventId) :
    live IndexEntry.deleted s'.index = live IndexEntry.deleted s.index ++ [e] ∧
      DistinctIds s' := by
  have hconcat : live IndexEntry.deleted s'.index = live IndexEntry.deleted s.index ++ [e] := by
    rw [hindex, live_append, live_cons, hlive]
    rfl
  refine ⟨hconcat, ?_⟩
  unfold DistinctIds
  rw [hconcat, List.map_append, List.nodup_append']
  refine ⟨h, List.nodup_singleton _, ?_⟩
  rw [List.map_singleton, List.disjoint_singleton]
  intro hmem
  obtain ⟨b, hb, hbid⟩ := List.mem_map.mp hmem
  exact hnew b hb hbid

/-- A tombstone is added to the index, and one file number is used. -/
theorem run_savedAndDeleted {d : Device} (hdistinct : DistinctIds d.engine)
    (hroom : d.engine.index.length < d.engine.maxIndexEntries)
    (hnew : ∀ e ∈ live IndexEntry.deleted d.engine.index, e.eventId ≠ markerId) :
    let d' := run Device.step d savedAndDeleted
    live IndexEntry.deleted d'.engine.index = live IndexEntry.deleted d.engine.index ∧
      d'.engine.index.length = d.engine.index.length + 1 ∧
      d'.engine.nextFileIndex = d.engine.nextFileIndex + 1 ∧
      d'.engine.maxIndexEntries = d.engine.maxIndexEntries ∧
      d'.store.saved.length = d.store.saved.length + 1 ∧ d'.written.1 = d'.engine.index := by
  have hid : (d.engine.newEntry (fun _ => []) 0 marker).eventId = markerId := by
    have hmeta : (parseEventMeta (fun _ => []) marker).id = markerId := by decide
    exact hmeta
  have hok : (d.engine.saveEventJson (fun _ => []) 0 true marker).2 = .ok :=
    ok_saveEventJson (hid ▸ eventExists_eq_false hnew) hroom
  rcases saveEventJson_cases d.engine (fun _ => []) 0 true marker with
    ⟨-, herr⟩ | ⟨-, -, -, -, hindex, hnext, hmax, -⟩
  · exact absurd hok herr
  have hlive := deleted_newEntry d.engine (fun _ => []) 0 marker
  have hstore : (d.store.step (.save (fun _ => []) 0 true marker)).saved.length =
      d.store.saved.length + 1 := by
    unfold Store.step
    dsimp only
    rw [if_pos hok]
    exact List.length_append
  rw [run, savedAndDeleted, List.foldl_cons, List.foldl_cons, List.foldl_nil]
  set e := d.engine.newEntry (fun _ => []) 0 marker
  set d₁ := d.step (.call (.save (fun _ => []) 0 true marker))
  -- the entry is the only one with its id
  have hindex : d₁.engine.index = d.engine.index ++ [e] := hindex
  obtain ⟨hlive₁, hdistinct₁⟩ := hdistinct.concat hindex hlive (hid ▸ hnew)
  have hdeleted : (d₁.engine.deleteEvent markerId).2 = .ok := by
    refine ok_deleteEvent (Bool.eq_true_of_not_eq_false fun hnone => ?_)
    refine eventId_ne_of_not_exists hnone ?_ hlive hid
    rw [hindex]
    exact List.mem_concat_self
  have hwrites : Op.writesIndex d₁.engine (.delete markerId) = true := decide_eq_true hdeleted
  obtain ⟨hlength, hnext₁, hmax₁⟩ := deleteEvent_fields d₁.engine markerId
  rw [step_call_writes hwrites]
  refine ⟨?_, ?_, hnext₁.trans hnext, hmax₁.trans hmax, hstore, rfl⟩
  · refine (live_deleteEvent hdistinct₁ markerId).trans ?_
    rw [hlive₁, List.filter_append, List.filter_eq_self.mpr fun b hb => decide_eq_true (hnew b hb),
      List.filter_cons_of_neg (by simp [hid])]
    exact List.append_nil _
  · refine hlength.trans ?_
    rw [hindex]
    exact List.length_append

/-- The index fills with tombstones. -/
def filling (n : ℕ) : List DeviceOp := (List.replicate n savedAndDeleted).flatten

/-- The file numbers are used up while the index stays as it is. -/
def wearing (n : ℕ) : List DeviceOp :=
  (List.replicate n (savedAndDeleted ++ [.call .compact])).flatten

theorem run_filling {d : Device} (n : ℕ) (hlive : live IndexEntry.deleted d.engine.index = [])
    (hroom : d.engine.index.length + n ≤ d.engine.maxIndexEntries)
    (hwritten : d.written.1 = d.engine.index) :
    let d' := run Device.step d (filling n)
    d'.written.1.length = d.engine.index.length + n ∧
      d'.store.saved.length = d.store.saved.length + n := by
  induction n generalizing d with
  | zero => exact ⟨congrArg List.length hwritten, rfl⟩
  | succ n ih =>
    obtain ⟨hlive', hlength, -, hmax, hsaved, hwritten'⟩ := run_savedAndDeleted (d := d)
      (by unfold DistinctIds; rw [hlive]; exact List.nodup_nil) (by omega)
      (by rw [hlive]; exact fun _ he => absurd he List.not_mem_nil)
    obtain ⟨hlen, hcount⟩ := ih (hlive'.trans hlive) (by omega) hwritten'
    rw [filling, List.replicate_succ, List.flatten_cons, run_append]
    exact ⟨hlen.trans (by omega), hcount.trans (by omega)⟩

theorem run_wearing {d : Device} {e : IndexEntry} (n : ℕ) (hindex : d.engine.index = [e])
    (hlive : e.deleted = false) (hid : e.eventId ≠ markerId)
    (hroom : 1 < d.engine.maxIndexEntries) :
    let d' := run Device.step d (wearing n)
    d'.engine.index = [e] ∧ d'.engine.nextFileIndex = d.engine.nextFileIndex + UInt32.ofNat n ∧
      d'.engine.maxIndexEntries = d.engine.maxIndexEntries := by
  induction n generalizing d with
  | zero => exact ⟨hindex, (UInt32.add_zero _).symm, rfl⟩
  | succ n ih =>
    have hone : live IndexEntry.deleted d.engine.index = [e] := by
      rw [hindex, live_cons, hlive]
      rfl
    obtain ⟨hlive', -, hnext, hmax, -, -⟩ := run_savedAndDeleted (d := d)
      (by unfold DistinctIds; rw [hone]; exact List.nodup_singleton _) (by rw [hindex]; exact hroom)
      (by rw [hone]; exact fun b hb => List.mem_singleton.mp hb ▸ hid)
    set d₁ := run Device.step d savedAndDeleted
    have hcompact := compactIndex_fields d₁.engine
    obtain ⟨hindex', hnext', hmax'⟩ := ih (d := d₁.step (.call .compact))
      ((index_compactIndex d₁.engine).trans (hlive'.trans hone))
      (by rw [show (d₁.step (.call .compact)).engine.maxIndexEntries = _ from hcompact.2.1, hmax]
          exact hroom)
    rw [wearing, List.replicate_succ, List.flatten_cons, run_append, run_append, run_cons, run_nil]
    refine ⟨hindex', ?_, hmax'.trans (hcompact.2.1.trans hmax)⟩
    refine hnext'.trans ?_
    rw [show (d₁.step (.call .compact)).engine.nextFileIndex = _ from hcompact.1, hnext,
      UInt32.add_assoc, Nat.add_comm n 1, UInt32.ofNat_add]
    rfl

theorem defaultTtlSec_step (d : Device) (op : DeviceOp) :
    (d.step op).engine.defaultTtlSec = d.engine.defaultTtlSec := by
  cases op with
  | reboot =>
    unfold Device.step storageInit Engine.loadIndexFromNvs
    dsimp only
    split <;> rfl
  | call op =>
    change (d.store.step op).engine.defaultTtlSec = _
    unfold Store.step
    cases op with
    | save heap now opened json =>
      unfold Engine.saveEventJson
      dsimp only
      split
      · rfl
      · split
        · rfl
        · split
          · rfl
          · split <;> rfl
    | delete eventId =>
      unfold Engine.deleteEvent
      dsimp only
      split <;> rfl
    | purge now =>
      unfold Engine.purgeExpired
      dsimp only
      split <;> rfl
    | compact =>
      unfold Engine.compactIndex
      dsimp only
      split <;> rfl

/-- An event whose id is zero. -/
def zeroEvent : CStr := cstr "\x7b\"id\":\"00\"\x7d"

/-- An event whose id begins with sixteen zeros. -/
def twinEvent : CStr := cstr "\x7b\"id\":\"0000000000000000000000000000000001\"\x7d"

/-- The entry of the first one in a new store. -/
def zeroEntry : IndexEntry := { IndexEntry.zero with expiresAt := 100 }

/-- All file numbers are used up. -/
def wornStore : List DeviceOp :=
  [.reboot true, .call (.save (fun _ => []) 0 true zeroEvent)] ++ wearing (2 ^ 32 - 1)

theorem run_wornStore :
    let d := run Device.step (Device.new true 100) wornStore
    d.engine.index = [zeroEntry] ∧ d.engine.nextFileIndex = 0 ∧
      d.engine.maxIndexEntries = 5000 ∧ d.engine.defaultTtlSec = 100 := by
  have hstart : (run Device.step (Device.new true 100)
      [.reboot true, .call (.save (fun _ => []) 0 true zeroEvent)]).engine.index = [zeroEntry] ∧
    (run Device.step (Device.new true 100)
      [.reboot true, .call (.save (fun _ => []) 0 true zeroEvent)]).engine.nextFileIndex = 1 ∧
    (run Device.step (Device.new true 100)
      [.reboot true, .call (.save (fun _ => []) 0 true zeroEvent)]).engine.maxIndexEntries =
        5000 := by
    refine ⟨?_, ?_, ?_⟩ <;> decide
  obtain ⟨hindex, hnext, hmax⟩ := hstart
  obtain ⟨hindex', hnext', hmax'⟩ := run_wearing (2 ^ 32 - 1) hindex (by decide)
    (by decide) (by rw [hmax]; norm_num)
  have httl : (run Device.step (Device.new true 100) wornStore).engine.defaultTtlSec = 100 :=
    run_induction (P := fun d => d.engine.defaultTtlSec = 100)
      (fun d op hd => (defaultTtlSec_step d op).trans hd) rfl wornStore
  rw [wornStore, run_append] at httl ⊢
  refine ⟨hindex', ?_, hmax'.trans hmax, httl⟩
  rw [hnext', hnext]
  decide

theorem path_newEntry (s : Engine) (heap : CStr → List UInt8) (now : UInt32) (json : CStr) :
    (s.newEntry heap now json).path = getEventPath (parseEventMeta heap json).id s.nextFileIndex :=
  rfl

/-- The two events have the same path where they have the same number. -/
theorem saved_twinEvent {s : Engine} (hindex : s.index = [zeroEntry]) (hnext : s.nextFileIndex = 0)
    (hmax : s.maxIndexEntries = 5000) :
    (s.saveEventJson (fun _ => []) 50 true twinEvent).2 = .ok ∧
      ∃ e ∈ live IndexEntry.deleted s.index,
        e.path = (s.newEntry (fun _ => []) 50 twinEvent).path := by
  have hid : zeroEntry.eventId ≠ (parseEventMeta (fun _ => []) twinEvent).id := by decide
  have hpath : zeroEntry.path = getEventPath (parseEventMeta (fun _ => []) twinEvent).id 0 := by
    decide
  refine ⟨ok_saveEventJson (eventExists_eq_false ?_) ?_, zeroEntry, ?_, ?_⟩
  · intro e he
    rw [hindex] at he
    rw [List.mem_singleton.mp (mem_live.mp he).1]
    exact hid
  · rw [hindex, hmax]
    decide
  · rw [hindex]
    exact mem_live.mpr ⟨List.mem_singleton_self _, by decide⟩
  · rw [path_newEntry, hnext, hpath]

/-- The loaded index is not the one that was written when the array is smaller than before, and
when the file numbers begin again a save writes to the file of an entry. -/
theorem restart_not_exact :
    ((run Device.step (Device.new true 100) (filling 1001)).step (.reboot false)).engine.index ≠
        (run Device.step (Device.new true 100) (filling 1001)).written.1 ∧
      let d := run Device.step (Device.new true 100) wornStore
      (d.engine.saveEventJson (fun _ => []) 50 true twinEvent).2 = .ok ∧
        ∃ e ∈ live IndexEntry.deleted d.engine.index,
          e.path = (d.engine.newEntry (fun _ => []) 50 twinEvent).path := by
  refine ⟨?_, ?_⟩
  · obtain ⟨hlength, hsaved⟩ := run_filling (d := Device.new true 100) 1001 rfl
      (by decide) rfl
    have hcount : (run Device.step (Device.new true 100) (filling 1001)).store.saved.length <
        2 ^ 32 := by
      rw [hsaved]
      decide
    obtain ⟨hindex, -⟩ := index_reboot (consistent_device true 100 (filling 1001) hcount) false
    intro heq
    -- of the 1001 entries 1000 are loaded
    have hlen := congrArg List.length heq
    rw [hindex, max_reboot, if_neg Bool.false_ne_true, List.length_take, hlength] at hlen
    exact absurd hlen (by decide)
  · obtain ⟨hindex, hnext, hmax, -⟩ := run_wornStore
    exact saved_twinEvent hindex hnext hmax

/-- Two events are saved and one is deleted; then the device restarts. -/
def deletedAndRestarted : List DeviceOp :=
  [.call (.save (fun _ => []) 5 true zeroEvent), .call (.save (fun _ => []) 5 true marker),
    .call (.delete markerId), .reboot true]

theorem restart_consistent_deleted :
    (run Device.step (Device.new true 100) deletedAndRestarted).engine.index.length = 2 ∧
      ∀ e text, (run Device.step (Device.new true 100) deletedAndRestarted).Serves e text →
        e.eventId ≠ markerId := by
  have hsaved : (run Device.step (Device.new true 100) deletedAndRestarted).store.saved.length =
      2 := by
    decide
  have h := restart_consistent true 100 deletedAndRestarted (by rw [hsaved]; norm_num)
  refine ⟨by decide, h.2.1 (deletedAndRestarted.take 2) (.delete markerId) [.reboot true]
    markerId rfl ⟨rfl, by decide⟩ ⟨id, trivial⟩⟩

end Relay

end TollGate
