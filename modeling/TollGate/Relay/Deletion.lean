import TollGate.Relay.Event
import TollGate.Relay.Representation

/-!
# Deletion events

`deletion.c`: an event of kind 5 names others by their ids (`e` tags), by kind and key
(`a` tags) or by kind (`k` tags), in three passes over its tags. The first pass deletes
whatever has the id. The other two query the store, which compares four bytes of a key;
the second then takes the text of an event for its id.

The string that the passes get as the key of the deleter is copied after the JSON tree it
belongs to was freed; `freed` is what stands there by then.

`deletes_own_iff` says when everything that is deleted is the deleter's own: when every tag,
in the state it meets, leads to events of the deleter only.
-/

namespace TollGate

namespace Relay

open CStr CJson TombstoneLog StepRun

/-! ### The source operations -/

/-- The value of a tag with this name. -/
def tagValue (name : String) (tag : Json) : Option CStr :=
  match tag with
  | .array (.string n :: .string value :: _) => if n = cstr name then some value else none
  | _ => none

/-- The values of the tags with this name. -/
def tagValues (obj : Json) (name : String) : List CStr :=
  (((obj.getObjectItem "tags").bind Json.asArray).getD []).filterMap (tagValue name)

/-- `extract_event_id_field`. -/
def extractEventIdField (p : Platform) (json : CStr) : Option (Vector UInt8 32) :=
  match ((p.parse json).bind fun obj => obj.getObjectItem "id").bind Json.asString with
  | none => none
  | some id => if id.length ≠ 64 then none else hexBytes 32 p.heap id

/-- `sscanf(value, "%d:%64[^:]:%255s", ..)` where it fills at least the first two. -/
def scanAddress (value : CStr) : Option (Int32 × CStr) :=
  let number := value.dropWhile isSpace
  let unsigned := (readSign number).2
  let digits := unsigned.takeWhile (isDigit 10)
  match digits, unsigned.drop digits.length with
  | _ :: _, 58 :: rest =>
    let pubkey := (rest.takeWhile (· ≠ 58)).take 64
    if pubkey = [] then none else some (strtol 10 number, pubkey)
  | _, _ => none

/-- The id an `e` tag holds. -/
def eTagIds (p : Platform) (_ : Engine) (value : CStr) : List (Vector UInt8 32) :=
  (hexBytes 32 p.heap value).toList

/-- The ids an `a` tag leads to. The text of an event is handed to `storage_delete_event` as
if it were its id. -/
def aTagIds (p : Platform) (now : UInt32) (deleter : CStr) (s : Engine) (value : CStr) :
    List (Vector UInt8 32) :=
  match scanAddress value with
  | none => []
  | some (kind, pubkey) =>
    -- the one place where the source compares keys
    if pubkey ≠ deleter then []
    else (s.queryEventsJson p.heap now kind (some pubkey) 100).map fun json =>
      zeroField 32 (memory p.heap json)

/-- The ids a `k` tag leads to. -/
def kTagIds (p : Platform) (now : UInt32) (deleter : CStr) (s : Engine) (value : CStr) :
    List (Vector UInt8 32) :=
  (s.queryEventsJson p.heap now (atoi value) (some deleter) 500).filterMap (extractEventIdField p)

/-- The events with these ids are deleted; `counted` says which results count. -/
def deleteIds (counted : StorageResult → Bool) (r : Engine × ℕ) (ids : List (Vector UInt8 32)) :
    Engine × ℕ :=
  ids.foldl (fun r id =>
    let d := r.1.deleteEvent id
    (d.1, if counted d.2 then r.2 + 1 else r.2)) r

/-- A pass over the tags with one name. -/
def deleteByTags (name : String) (ids : Engine → CStr → List (Vector UInt8 32))
    (counted : StorageResult → Bool) (obj : Json) (s : Engine) : Engine × ℕ :=
  (tagValues obj name).foldl (fun r value => deleteIds counted r (ids r.1 value)) (s, 0)

/-- `delete_by_e_tags`. The key of the deleter is not looked at. -/
def deleteByETags (p : Platform) (obj : Json) (s : Engine) : Engine × ℕ :=
  deleteByTags "e" (eTagIds p) (· = .ok) obj s

/-- `delete_by_a_tags`. -/
def deleteByATags (p : Platform) (now : UInt32) (deleter : CStr) (obj : Json) (s : Engine) :
    Engine × ℕ :=
  deleteByTags "a" (aTagIds p now deleter) (· = .ok) obj s

/-- `delete_by_k_tags`, which counts every id. -/
def deleteByKTags (p : Platform) (now : UInt32) (deleter : CStr) (obj : Json) (s : Engine) :
    Engine × ℕ :=
  deleteByTags "k" (kTagIds p now deleter) (fun _ => true) obj s

/-- `strdup(pubkey)`, once the tree is freed. -/
def deleterPk (freed : CStr) (obj : Json) : CStr :=
  match obj.getObjectItem "pubkey" with
  | none => []
  | some _ => freed

/-- The event is one of kind `NOSTR_KIND_DELETION`. -/
def isDeletion (obj : Json) : Bool := ((obj.getObjectItem "kind").map Json.valueint).getD 0 = 5

/-- `deletion_process_json`, on an event whose key `handle_event` has found to be a string. -/
def deletionProcessJson (p : Platform) (now : UInt32) (freed : CStr) (s : Engine) (json : CStr) :
    Engine × ℕ :=
  match p.parse json with
  | none => (s, 0)
  | some obj =>
    if !isDeletion obj then (s, 0)
    else
      let e := deleteByETags p obj s
      let a := deleteByATags p now (deleterPk freed obj) obj e.1
      let k := deleteByKTags p now (deleterPk freed obj) obj a.1
      (k.1, e.2 + a.2 + k.2)

/-! ### A deletion as a run over its tags -/

/-- A tag that names events. -/
inductive Route where
  | e (value : CStr)
  | a (value : CStr)
  | k (value : CStr)

/-- The ids that a tag leads to in a state. -/
def Route.ids (p : Platform) (now : UInt32) (deleter : CStr) (s : Engine) :
    Route → List (Vector UInt8 32)
  | .e value => eTagIds p s value
  | .a value => aTagIds p now deleter s value
  | .k value => kTagIds p now deleter s value

/-- The tags, in the order of the three passes. -/
def routes (obj : Json) : List Route :=
  (tagValues obj "e").map .e ++ (tagValues obj "a").map .a ++ (tagValues obj "k").map .k

/-- Events are deleted by their ids. -/
def Engine.deleteAll (s : Engine) (ids : List (Vector UInt8 32)) : Engine :=
  ids.foldl (fun s id => (s.deleteEvent id).1) s

/-- One tag is followed. -/
def followRoute (p : Platform) (now : UInt32) (deleter : CStr) (s : Engine) (r : Route) : Engine :=
  s.deleteAll (r.ids p now deleter s)

theorem deleteIds_fst (counted : StorageResult → Bool) (r : Engine × ℕ)
    (ids : List (Vector UInt8 32)) : (deleteIds counted r ids).1 = r.1.deleteAll ids := by
  unfold deleteIds Engine.deleteAll
  induction ids generalizing r with
  | nil => rfl
  | cons id ids ih => exact ih _

/-- A pass follows its tags one after the other. -/
theorem deleteByTags_fst (p : Platform) (now : UInt32) (deleter : CStr) (name : String)
    (counted : StorageResult → Bool) (route : CStr → Route) (obj : Json) (s : Engine) :
    (deleteByTags name (fun s value => (route value).ids p now deleter s) counted obj s).1 =
      run (followRoute p now deleter) s ((tagValues obj name).map route) := by
  unfold deleteByTags
  -- the count is carried along and does not matter
  generalize tagValues obj name = values
  generalize (0 : ℕ) = n
  induction values generalizing s n with
  | nil => rfl
  | cons value values ih =>
    rw [List.foldl_cons, List.map_cons, run_cons, followRoute, ← deleteIds_fst counted (s, n)]
    exact ih _ _

theorem deletionProcessJson_fst {p : Platform} {json : CStr} {obj : Json}
    (hparse : p.parse json = some obj) (hkind : isDeletion obj = true) (now : UInt32) (freed : CStr)
    (s : Engine) :
    (deletionProcessJson p now freed s json).1 =
      run (followRoute p now (deleterPk freed obj)) s (routes obj) := by
  have he := deleteByTags_fst p now (deleterPk freed obj) "e" (· = .ok) .e obj s
  have ha := fun s' => deleteByTags_fst p now (deleterPk freed obj) "a" (· = .ok) .a obj s'
  have hk := fun s' => deleteByTags_fst p now (deleterPk freed obj) "k" (fun _ => true) .k obj s'
  unfold deletionProcessJson routes
  rw [hparse]
  simp only [hkind, Bool.not_true, Bool.false_eq_true, if_false, run_append]
  rw [← he, ← ha, ← hk]
  rfl

/-! ### What is deleted -/

/-- The key in the text of an event. -/
def authorOf (p : Platform) (json : CStr) : Option (Vector UInt8 32) :=
  (((p.parse json).bind fun obj => obj.getObjectItem "pubkey").bind Json.asString).bind
    (hexBytes 32 p.heap)

/-- The event in the file of the entry has the author of the deletion event. -/
def ownEvent (p : Platform) (s : Engine) (json : CStr) (e : IndexEntry) : Bool :=
  match (s.files e.path).bind (authorOf p) with
  | none => false
  | some author => authorOf p json = some author

/-- Every live event that the processing of a deletion event takes away is the deleter's
own. -/
def DeletesOwn (p : Platform) (now : UInt32) (freed : CStr) (s : Engine) (json : CStr) : Prop :=
  ∀ e ∈ live IndexEntry.deleted s.index,
    e ∉ live IndexEntry.deleted (deletionProcessJson p now freed s json).1.index →
      ownEvent p s json e = true

/-- The live events that a tag leads to are the deleter's own. The authors are those of the
store `s₀` before the deletion. -/
def LeadsToOwn (p : Platform) (now : UInt32) (deleter : CStr) (s₀ : Engine) (json : CStr)
    (s : Engine) (r : Route) : Prop :=
  ∀ e ∈ live IndexEntry.deleted s.index, e.eventId ∈ r.ids p now deleter s →
    ownEvent p s₀ json e = true

/-- The ids of the live entries are distinct. -/
def DistinctIds (s : Engine) : Prop :=
  ((live IndexEntry.deleted s.index).map IndexEntry.eventId).Nodup

section Deleted

variable {s : Engine}

theorem live_deleteEvent (h : DistinctIds s) (id : Vector UInt8 32) :
    live IndexEntry.deleted (s.deleteEvent id).1.index =
      (live IndexEntry.deleted s.index).filter fun e => e.eventId ≠ id := by
  rw [← live_kill_key deleted_delete id h]
  unfold Engine.deleteEvent Engine.findIndexEntry
  cases s.index.findIdx? fun e => e.eventId = id && !e.deleted <;> rfl

/-- Exactly the events with one of the ids are taken away. -/
theorem live_deleteAll (h : DistinctIds s) (ids : List (Vector UInt8 32)) :
    live IndexEntry.deleted (s.deleteAll ids).index =
      (live IndexEntry.deleted s.index).filter fun e => e.eventId ∉ ids := by
  unfold Engine.deleteAll
  induction ids generalizing s with
  | nil => simp
  | cons id ids ih =>
    -- the first id is gone, and the rest is still a set of distinct ids
    have hlive := live_deleteEvent h id
    have hdistinct : DistinctIds (s.deleteEvent id).1 := by
      unfold DistinctIds
      rw [hlive]
      exact h.sublist (List.filter_sublist.map _)
    rw [List.foldl_cons, ih hdistinct, hlive, List.filter_filter]
    congr 1
    funext e
    simp [Bool.and_comm]

theorem DistinctIds.followRoute (h : DistinctIds s) (p : Platform) (now : UInt32) (deleter : CStr)
    (r : Route) : DistinctIds (followRoute p now deleter s r) := by
  unfold DistinctIds Relay.followRoute
  rw [live_deleteAll h]
  exact h.sublist (List.filter_sublist.map _)

theorem live_run_subset (h : DistinctIds s) {p : Platform} {now : UInt32} {deleter : CStr}
    (rs : List Route) :
    live IndexEntry.deleted (run (followRoute p now deleter) s rs).index ⊆
      live IndexEntry.deleted s.index := by
  induction rs generalizing s with
  | nil => exact List.Subset.refl _
  | cons r rs ih =>
    have hlive := live_deleteAll h (r.ids p now deleter s)
    refine List.Subset.trans (ih (h.followRoute p now deleter r)) ?_
    unfold followRoute
    rw [hlive]
    exact List.filter_subset_self _

/-- What a run over tags takes away is the deleter's own exactly if every tag leads to own
events in the state it meets. -/
theorem deletes_own_run_iff (h : DistinctIds s) (p : Platform) (now : UInt32) (deleter : CStr)
    (s₀ : Engine) (json : CStr) (rs : List Route) :
    (∀ e ∈ live IndexEntry.deleted s.index,
      e ∉ live IndexEntry.deleted (run (followRoute p now deleter) s rs).index →
        ownEvent p s₀ json e = true) ↔
      AllSteps (followRoute p now deleter) (LeadsToOwn p now deleter s₀ json) s rs := by
  induction rs generalizing s with
  | nil => exact iff_of_true (fun e he hgone => absurd he hgone) trivial
  | cons r rs ih =>
    have hnext := h.followRoute p now deleter r
    have hlive : live IndexEntry.deleted (followRoute p now deleter s r).index =
        (live IndexEntry.deleted s.index).filter fun e => e.eventId ∉ r.ids p now deleter s :=
      live_deleteAll h _
    rw [run_cons, AllSteps, ← ih hnext]
    refine ⟨?_, ?_⟩
    · intro hown
      refine ⟨?_, ?_⟩
      · -- an event that this tag leads to does not come back with a later one
        intro e he hid
        refine hown e he fun hlast => ?_
        have hstill := live_run_subset hnext rs hlast
        rw [hlive, List.mem_filter] at hstill
        exact of_decide_eq_true hstill.2 hid
      · -- an event that a later tag takes was there before this one
        intro e he hgone
        rw [hlive, List.mem_filter] at he
        exact hown e he.1 hgone
    · rintro ⟨hfirst, hrest⟩ e he hgone
      -- the event goes with this tag, or with a later one
      by_cases hid : e.eventId ∈ r.ids p now deleter s
      · exact hfirst e he hid
      · refine hrest e ?_ hgone
        rw [hlive, List.mem_filter]
        exact ⟨he, decide_eq_true hid⟩

end Deleted

/-- **Exactly when a deletion event takes only the deleter's own events away.** In every store,
whose live ids are distinct, and for every deletion event: each of its tags leads, in the state
it is followed in, to events of the deleter only. -/
theorem deletes_own_iff (p : Platform) (now : UInt32) (freed : CStr) (s : Engine) (json : CStr)
    (obj : Json) (hparse : p.parse json = some obj) (hkind : isDeletion obj = true)
    (hdistinct : DistinctIds s) :
    DeletesOwn p now freed s json ↔
      AllSteps (followRoute p now (deleterPk freed obj))
        (LeadsToOwn p now (deleterPk freed obj) s json) s (routes obj) := by
  unfold DeletesOwn
  rw [deletionProcessJson_fst hparse hkind]
  exact deletes_own_run_iff hdistinct p now _ s json (routes obj)

/-- A deletion event with one `e` tag. -/
def deletion (pubkey : Vector UInt8 32) : Event :=
  ⟨Vector.replicate 32 8, pubkey, .ofInt 5, 5,
    [.array [.string (cstr "e"), .string (hexText reaction.id.toList)]], [],
    Vector.replicate 64 3⟩

/-- Its text. -/
def deletionText (pubkey : Vector UInt8 32) : CStr :=
  sampleText (deletion pubkey)
    (cstr "[[\"e\",\"" ++ hexText reaction.id.toList ++ cstr "\"]]") []

/-- `cJSON` on the event in the store and the deletion event, whose id is its hash and which is
signed. -/
def deletionPlatform (pubkey : Vector UInt8 32) : Platform :=
  { textPlatform [(reactionText, reaction.tree), (deletionText pubkey, (deletion pubkey).tree)] with
    sha256 := fun _ => (deletion pubkey).id
    schnorrVerify := fun _ _ _ => true }

/-- A valid deletion event takes somebody else's event away. -/
theorem foreign_event_deleted :
    relayValidatorVerifyEvent (deletionPlatform (Vector.replicate 32 9))
        (deletionText (Vector.replicate 32 9)) = .ok true ∧
      ¬ DeletesOwn (deletionPlatform (Vector.replicate 32 9)) 20 (hexText (List.replicate 32 9))
        reactionStore (deletionText (Vector.replicate 32 9)) := by
  unfold DeletesOwn
  refine ⟨?_, ?_⟩ <;> decide +kernel

/-- The author's own deletion event leads to the event, which is the author's. -/
theorem deletes_own_of_author :
    DeletesOwn (deletionPlatform reaction.pubkey) 20 (hexText reaction.pubkey.toList) reactionStore
      (deletionText reaction.pubkey) := by
  have hne : reactionText ≠ deletionText reaction.pubkey := by decide
  have hparse : (deletionPlatform reaction.pubkey).parse (deletionText reaction.pubkey) =
      some (deletion reaction.pubkey).tree := by
    simp [deletionPlatform, textPlatform, hne]
  have hkind : isDeletion (deletion reaction.pubkey).tree = true := by decide
  have hdistinct : DistinctIds reactionStore := by
    unfold DistinctIds
    decide
  refine (deletes_own_iff _ 20 _ reactionStore _ _ hparse hkind hdistinct).mpr ⟨?_, trivial⟩
  unfold LeadsToOwn
  decide +kernel

end Relay

end TollGate
