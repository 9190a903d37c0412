import TollGate.Relay.Deletion
import TollGate.Relay.Maintenance

/-!
# Deletion by address

An `a` tag names the events of one author with one kind and one value of the tag `d`:
`kind:pubkey:d`. `delete_by_a_tags` reads the address, asks the store for the newest events of the
kind under four bytes of the key, and hands the text of each to `storage_delete_event`,
which takes its first 32 bytes for an id. Neither the value of `d` nor the time of the
deletion event is looked at.

`removed_iff` says what a deletion event takes away, tag by tag, and
`removesAddressed_iff` when that is what its address names. As no id is the beginning of
the text of an event, but by chance, an address leads to nothing, so that it
should name nothing (`removesAddressed_single_iff`).
-/

namespace TollGate

namespace Relay

open CStr CJson TombstoneLog StepRun

/-! ### What an address names -/

/-- The address `kind:pubkey:d`. -/
def addressText (kind : Int32) (pubkey : Vector UInt8 32) (d : CStr) : CStr :=
  decimal kind.toNatClampNeg ++ 58 :: hexText pubkey.toList ++ 58 :: d

/-- The value of the first tag `d`. One that is not there counts as empty. -/
def dValue (e : Event) : CStr := (e.tags.filterMap (tagValue "d")).headD []

/-- The event in the file of the entry is one the address names: of the author of the deletion
event, with this kind and this value of `d`, and not later than it. -/
def Addressed (p : Platform) (s : Engine) (del : Event) (kind : Int32) (d : CStr)
    (e : IndexEntry) : Prop :=
  ∃ text obj ev, s.files e.path = some text ∧ p.parse text = some obj ∧ Event.Written ev obj ∧
    ev.pubkey = del.pubkey ∧ ev.kind = kind ∧ dValue ev = d ∧
    ev.createdAt.valuedouble ≤ del.createdAt.valuedouble

/-- The processing of the deletion event takes away exactly the live events the address
names. -/
def RemovesAddressed (p : Platform) (now : UInt32) (freed : CStr) (s : Engine) (json : CStr)
    (del : Event) (kind : Int32) (d : CStr) : Prop :=
  ∀ e ∈ live IndexEntry.deleted s.index,
    e ∉ live IndexEntry.deleted (deletionProcessJson p now freed s json).1.index ↔
      Addressed p s del kind d e

/-! ### What is taken away -/

/-- One of the tags leads to the entry, in the state in which it is followed. -/
def LeadsTo (p : Platform) (now : UInt32) (deleter : CStr) (s : Engine) (rs : List Route)
    (e : IndexEntry) : Prop :=
  Occurs (fun front r => e.eventId ∈ r.ids p now deleter (run (followRoute p now deleter) s front))
    rs

section Removed

variable {p : Platform} {now : UInt32} {deleter freed json : CStr} {s : Engine} {e : IndexEntry}

theorem distinctIds_run (h : DistinctIds s) (p : Platform) (now : UInt32) (deleter : CStr)
    (rs : List Route) : DistinctIds (run (followRoute p now deleter) s rs) :=
  run_induction (fun _ r hs => hs.followRoute p now deleter r) h rs

/-- **A live event is taken away exactly if a tag leads to it.** -/
theorem removed_iff (h : DistinctIds s) (he : e ∈ live IndexEntry.deleted s.index)
    (rs : List Route) :
    e ∉ live IndexEntry.deleted (run (followRoute p now deleter) s rs).index ↔
      LeadsTo p now deleter s rs e := by
  induction rs using List.reverseRecOn with
  | nil => exact iff_of_false (fun hgone => hgone he) not_occurs_nil
  | append_singleton rs r ih =>
    have hlive := live_deleteAll (distinctIds_run h p now deleter rs)
      (r.ids p now deleter (run (followRoute p now deleter) s rs))
    unfold LeadsTo at ih ⊢
    rw [occurs_concat, ← ih, run_concat, followRoute, hlive, List.mem_filter, decide_eq_true_eq]
    tauto

/-- A deletion event follows the tags of the three kinds. -/
theorem isDeletion_of_written {del : Event} {obj : Json} (hdel : del.Written obj)
    (hkind : del.kind = 5) : isDeletion obj = true := by
  rw [isDeletion, hdel.kind, hkind]
  rfl

end Removed

/-- **Exactly when a deletion event takes away what its address names.** In every store, whose live
ids are distinct, and for every deletion event with such an address of its own author: the live
events that the address names are those that one of the tags leads to. -/
theorem removesAddressed_iff (p : Platform) (now : UInt32) (freed : CStr) (s : Engine) (json : CStr)
    (obj : Json) (del : Event) (kind : Int32) (d : CStr) (hparse : p.parse json = some obj)
    (hdel : del.Written obj) (hkind : del.kind = 5)
    (_haddress : addressText kind del.pubkey d ∈ tagValues obj "a") (hdistinct : DistinctIds s) :
    RemovesAddressed p now freed s json del kind d ↔
      ∀ e ∈ live IndexEntry.deleted s.index,
        Addressed p s del kind d e ↔ LeadsTo p now (deleterPk freed obj) s (routes obj) e := by
  unfold RemovesAddressed
  rw [deletionProcessJson_fst hparse (isDeletion_of_written hdel hkind)]
  refine forall₂_congr fun e he => ?_
  rw [removed_iff hdistinct he]
  exact iff_comm

/-- An address leads to entries whose id is the beginning of a stored text. -/
theorem mem_aTagIds {p : Platform} {now : UInt32} {deleter value : CStr} {s : Engine}
    {id : Vector UInt8 32} (h : id ∈ aTagIds p now deleter s value) :
    ∃ path text, s.files path = some text ∧ id = zeroField 32 (memory p.heap text) := by
  unfold aTagIds at h
  split at h
  · exact absurd h List.not_mem_nil
  · split at h
    · exact absurd h List.not_mem_nil
    · obtain ⟨text, htext, rfl⟩ := List.mem_map.mp h
      rw [queryEventsJson_eq] at htext
      obtain ⟨e, he, rfl⟩ := List.mem_map.mp htext
      have hread := (List.mem_filter.mp (List.mem_of_mem_take he)).2
      rw [Bool.and_eq_true, Option.isSome_iff_exists] at hread
      obtain ⟨-, text, hread⟩ := hread
      have hfile := readEvent_eq_some hread
      exact ⟨e.path, text, hfile, by rw [hfile]; rfl⟩

/-- An address does not lead to an entry whose id is no beginning of a stored text. -/
theorem not_leadsTo_address {p : Platform} (now : UInt32) (deleter value : CStr) {s : Engine}
    {e : IndexEntry} (hids : ∀ path text, s.files path = some text →
      e.eventId ≠ zeroField 32 (memory p.heap text)) :
    ¬ LeadsTo p now deleter s [.a value] e := by
  rintro ⟨front, r, back, hsplit, hmem⟩
  have hone : front = [] ∧ r = .a value := by
    rcases List.append_eq_singleton_iff.mp hsplit.symm with ⟨hfront, hr⟩ | ⟨-, hr⟩
    · exact ⟨hfront, (List.cons.inj hr).1⟩
    · exact absurd hr (List.cons_ne_nil r back)
  obtain ⟨rfl, rfl⟩ := hone
  obtain ⟨path, text, hfile, hid⟩ := mem_aTagIds hmem
  exact hids path text hfile hid

/-- **An address deletes nothing.** Where no id is the beginning of a stored text, an event that has
an address and no other tag to delete by takes away what the address names exactly if it names
nothing. -/
theorem removesAddressed_single_iff {p : Platform} {now : UInt32} {freed : CStr} {s : Engine}
    {json : CStr} {obj : Json} {del : Event} {kind : Int32} {d : CStr}
    (hparse : p.parse json = some obj) (hdel : del.Written obj) (hkind : del.kind = 5)
    (hroutes : routes obj = [.a (addressText kind del.pubkey d)]) (hdistinct : DistinctIds s)
    (hids : ∀ e ∈ live IndexEntry.deleted s.index, ∀ path text, s.files path = some text →
      e.eventId ≠ zeroField 32 (memory p.heap text)) :
    RemovesAddressed p now freed s json del kind d ↔
      ∀ e ∈ live IndexEntry.deleted s.index, ¬ Addressed p s del kind d e := by
  unfold RemovesAddressed
  rw [deletionProcessJson_fst hparse (isDeletion_of_written hdel hkind), hroutes]
  refine forall₂_congr fun e he => ?_
  have hstays := not_leadsTo_address now (deleterPk freed obj)
    (addressText kind del.pubkey d) (hids e he)
  rw [removed_iff hdistinct he]
  exact ⟨fun h haddressed => hstays (h.mpr haddressed),
    fun h => iff_of_false hstays h⟩

/-! ### An article and two addresses -/

/-- An article under the name `post`. -/
def article : Event :=
  ⟨Vector.replicate 32 1, Vector.replicate 32 2, .ofInt 5, 30023,
    [.array [.string (cstr "d"), .string (cstr "post")]], [], Vector.replicate 64 3⟩

/-- Its text. -/
def articleText : CStr := sampleText article (cstr "[[\"d\",\"post\"]]") []

/-- A store with the article. -/
def articleStore : Engine :=
  ((Engine.empty 5000 3600).saveEventJson (fun _ => []) 10 true articleText).1

/-- The author deletes the article with this name. -/
def addressDeletion (d : CStr) : Event :=
  ⟨Vector.replicate 32 8, article.pubkey, .ofInt 5, 5,
    [.array [.string (cstr "a"), .string (addressText 30023 article.pubkey d)]], [],
    Vector.replicate 64 3⟩

/-- The text of the deletion event. -/
def addressDeletionText (d : CStr) : CStr :=
  sampleText (addressDeletion d)
    (cstr "[[\"a\",\"" ++ addressText 30023 article.pubkey d ++ cstr "\"]]") []

/-- `cJSON` on the article and the deletion event, whose id is its hash and which is signed. -/
def addressPlatform (d : CStr) : Platform :=
  { textPlatform
      [(articleText, article.tree), (addressDeletionText d, (addressDeletion d).tree)] with
    sha256 := fun _ => (addressDeletion d).id
    schnorrVerify := fun _ _ _ => true }

/-- The entry of the article. -/
def articleEntry : IndexEntry :=
  (Engine.empty 5000 3600).newEntry (fun _ => []) 10 articleText

theorem live_articleStore : live IndexEntry.deleted articleStore.index = [articleEntry] := by
  decide

theorem files_articleStore :
    articleStore.files = Function.update (fun _ => none) articleEntry.path (some articleText) := by
  rfl

theorem articleEntry_id :
    articleEntry.eventId ≠ zeroField 32 (memory (fun _ => []) articleText) := by
  decide

/-- Only the article is stored, and its id is not the beginning of its text. -/
theorem articleStore_ids {e : IndexEntry} (he : e ∈ live IndexEntry.deleted articleStore.index)
    (path text : CStr) (hfile : articleStore.files path = some text) :
    e.eventId ≠ zeroField 32 (memory (fun _ => []) text) := by
  rw [live_articleStore, List.mem_singleton] at he
  rw [files_articleStore] at hfile
  by_cases hpath : path = articleEntry.path
  · rw [hpath, Function.update_self] at hfile
    obtain rfl := Option.some.inj hfile
    rw [he]
    exact articleEntry_id
  · rw [Function.update_of_ne hpath] at hfile
    cases hfile

theorem distinct_articleStore : DistinctIds articleStore := by
  unfold DistinctIds
  rw [live_articleStore]
  exact List.nodup_singleton _

theorem file_articleEntry : articleStore.files articleEntry.path = some articleText := by
  rw [files_articleStore, Function.update_self]

section Samples

variable {d d' : CStr}

theorem parse_article (d : CStr) : (addressPlatform d).parse articleText = some article.tree := by
  simp [addressPlatform, textPlatform]

theorem parse_addressDeletion (hne : articleText ≠ addressDeletionText d) :
    (addressPlatform d).parse (addressDeletionText d) = some (addressDeletion d).tree := by
  simp [addressPlatform, textPlatform, hne]

theorem tagValues_addressDeletion (d : CStr) (name : String) :
    tagValues (addressDeletion d).tree name =
      if cstr "a" = cstr name then [addressText 30023 article.pubkey d] else [] := by
  rw [tagValues, (Event.written_tree (addressDeletion d)).tags]
  change ([Json.array _].filterMap (tagValue name)) = _
  by_cases hname : cstr "a" = cstr name
  · simp [tagValue, hname]
  · simp [tagValue, hname]

theorem routes_addressDeletion (d : CStr) :
    routes (addressDeletion d).tree = [.a (addressText 30023 article.pubkey d)] := by
  have hne : cstr "a" ≠ cstr "e" ∧ cstr "a" ≠ cstr "k" := by decide
  simp only [routes, tagValues_addressDeletion, hne.1, hne.2, if_true, if_false, List.map_nil,
    List.map_cons, List.nil_append, List.append_nil]

/-- The article is named by its own name. -/
theorem addressed_article_iff :
    Addressed (addressPlatform d) articleStore (addressDeletion d) 30023 d' articleEntry ↔
      d' = cstr "post" := by
  refine ⟨?_, ?_⟩
  · rintro ⟨text, obj, ev, hfile, hparse, hwritten, -, -, rfl, -⟩
    obtain rfl := Option.some.inj (file_articleEntry.symm.trans hfile)
    obtain rfl := Option.some.inj ((parse_article d).symm.trans hparse)
    have htags := hwritten.tags.symm.trans (Event.written_tree article).tags
    rw [dValue, Json.array.inj (Option.some.inj htags)]
    rfl
  · rintro rfl
    exact ⟨articleText, article.tree, article, file_articleEntry, parse_article d,
      Event.written_tree _, rfl, rfl, rfl, le_rfl⟩

end Samples

/-- The author deletes the article by its address, and it stays. -/
theorem article_stays :
    relayValidatorVerifyEvent (addressPlatform (cstr "post"))
        (addressDeletionText (cstr "post")) = .ok true ∧
      ¬ RemovesAddressed (addressPlatform (cstr "post")) 20 (hexText article.pubkey.toList)
        articleStore (addressDeletionText (cstr "post")) (addressDeletion (cstr "post")) 30023
        (cstr "post") := by
  have hparse := parse_addressDeletion (show articleText ≠ addressDeletionText (cstr "post") by
    decide)
  refine ⟨?_, fun hremoves => ?_⟩
  · rw [relayValidatorVerifyEvent_of_written hparse (Event.written_tree _)]
    simp [addressPlatform]
  · rw [removesAddressed_single_iff hparse (Event.written_tree _) rfl (routes_addressDeletion _)
      distinct_articleStore fun e he => articleStore_ids he] at hremoves
    refine hremoves articleEntry ?_ (addressed_article_iff.mpr rfl)
    rw [live_articleStore]
    exact List.mem_singleton_self _

/-- An address that names nothing takes nothing away. -/
theorem removesAddressed_draft :
    live IndexEntry.deleted articleStore.index ≠ [] ∧
      RemovesAddressed (addressPlatform (cstr "draft")) 20 (hexText article.pubkey.toList)
        articleStore (addressDeletionText (cstr "draft")) (addressDeletion (cstr "draft")) 30023
        (cstr "draft") := by
  have hparse := parse_addressDeletion (show articleText ≠ addressDeletionText (cstr "draft") by
    decide)
  refine ⟨by rw [live_articleStore]; exact List.cons_ne_nil _ _, ?_⟩
  refine (removesAddressed_iff _ 20 _ articleStore _ _ _ 30023 (cstr "draft") hparse
    (Event.written_tree _) rfl ?_ distinct_articleStore).mpr fun e he => iff_of_false ?_ ?_
  · rw [tagValues_addressDeletion, if_pos rfl]
    exact List.mem_singleton_self _
  · rw [live_articleStore, List.mem_singleton] at he
    rw [he, addressed_article_iff]
    decide
  · rw [routes_addressDeletion]
    exact not_leadsTo_address _ _ _ (articleStore_ids he)

end Relay

end TollGate
