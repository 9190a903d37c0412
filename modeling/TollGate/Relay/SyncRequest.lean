import TollGate.Lib.JsonPrinter
import TollGate.Relay.Maintenance
import TollGate.Relay.Metadata
import TollGate.Relay.Writers

/-!
# The request of a sync

`sync_manager_do_negentropy_sync` prints the ids of the stored events into a filter and the filter
into a buffer of 256 bytes. The ids are those that the texts of the newest 500 events tell.

A request that does not fit is cut off in front of the bracket that closes it, and is no JSON. One
that fits is a REQ that lists these ids and no others. So the request is complete exactly if the
texts tell the ids of all events and take up no more than the buffer has
(`requestComplete_iff`); of three events with their own ids it is, of four it is not
(`requestComplete_iff_three`).
-/

namespace TollGate

namespace Relay

open CStr CJson JsonText TombstoneLog

/-! ### The request -/

/-- The filter with these ids. -/
def idsFilter (ids : List CStr) : Json := .object [(cstr "ids", .array (ids.map .string))]

/-- What is printed into `sub_msg`. -/
def subMsg (p : Platform) (ids : List CStr) : CStr :=
  cstr "[\"REQ\",\"sync_diff\"," ++ p.print (idsFilter ids) ++ cstr "]"

/-- The text that `sync_manager_do_negentropy_sync` sends, once it is connected. Without local
events it sends nothing. -/
def negentropyRequest (p : Platform) (now : UInt32) (s : Engine) : Option CStr :=
  match getEventIdsFromStorage p now s with
  | [] => none
  | id :: ids => some (snprintf 256 (subMsg p (id :: ids)))

/-! ### What it should be -/

/-- The lexemes are an object with the members `top`. -/
def IsObjectValue (ls : List Lexeme) (top : List Member) : Prop :=
  ∃ inner ms, Derives (.members top) inner ms ∧ ls = .other [123] :: (inner ++ [.other [125]])

/-- The text is a REQ, and `top` are the members of a filter in it. -/
def IsReq (text : CStr) (top : List Member) : Prop :=
  ∃ a v b cmd sub filters filter, Blank a ∧ Blank b ∧
    IsArray v ([.str cmd] :: [.str sub] :: filters) ∧ decode cmd = cstr "REQ" ∧
    filter ∈ filters ∧ IsObjectValue filter top ∧ text = print (.other a :: (v ++ [.other b]))

/-- The filter has an array `ids`, and the id is one of its strings. -/
def ListsId (top : List Member) (id : CStr) : Prop :=
  ∃ m vs raw, named top "ids" = [m] ∧ IsArray m.value vs ∧ [.str raw] ∈ vs ∧ decode raw = id

/-- What is sent is a REQ that lists the ids of all live events. -/
def RequestComplete (p : Platform) (now : UInt32) (s : Engine) : Prop :=
  ∀ text, negentropyRequest p now s = some text → ∃ top, IsReq text top ∧
    ∀ e ∈ s.current now, ListsId top (hexText e.eventId.toList)

/-! ### The ids that are told -/

/-- The id in the text of an event. -/
def toldId (p : Platform) (json : CStr) : Option CStr :=
  ((p.parse json).bind fun obj => obj.getObjectItem "id").bind Json.asString

/-- The ids that the texts of the live events tell, of the newest 500 that can be read. -/
def toldIds (p : Platform) (now : UInt32) (s : Engine) : List CStr :=
  (((s.current now).reverse.filterMap s.readEvent).take 500).filterMap (toldId p)

theorem getEventIdsFromStorage_eq (p : Platform) (now : UInt32) (s : Engine) :
    getEventIdsFromStorage p now s = toldIds p now s := by
  have hreads : ∀ entries : List IndexEntry, ∀ n,
      ((entries.filter fun e => (s.readEvent e).isSome).take n).map
        (fun e => (s.files e.path).getD []) = (entries.filterMap s.readEvent).take n := by
    intro entries
    induction entries with
    | nil => exact fun n => by simp
    | cons e entries ih =>
      intro n
      cases hread : s.readEvent e with
      | none =>
        rw [List.filter_cons_of_neg (by simp [hread]), List.filterMap_cons_none hread, ih]
      | some text =>
        rw [List.filter_cons_of_pos (by simp [hread]), List.filterMap_cons_some hread]
        cases n with
        | zero => rfl
        | succ n =>
          rw [List.take_succ_cons, List.take_succ_cons, List.map_cons, ih,
            readEvent_eq_some hread]
          rfl
  -- any kind and any author, and the limit is 500
  have hany : ∀ e, (Engine.indexTest p.heap (-1) none e && (s.readEvent e).isSome) =
      (s.readEvent e).isSome := fun e => Bool.true_and _
  unfold getEventIdsFromStorage toldIds
  rw [queryEventsJson_eq]
  simp only [hany]
  rw [hreads]
  rfl

/-! ### The text as JSON -/

/-- The member with the ids. -/
def idsMember (raws : List (List StringChar)) : Member :=
  plainMember "ids" (.other [91] :: (stringItems raws ++ [.other [93]]))

/-- The filter. -/
def filterLexemes (raws : List (List StringChar)) : List Lexeme :=
  .other [123] :: (compact [idsMember raws] ++ [.other [125]])

/-- The items of the request. -/
def requestItems (raws : List (List StringChar)) : List Lexeme :=
  .other [] :: .str (plainString (cstr "REQ")) :: .other [] :: .other [44] ::
    .other [] :: .str (plainString (cstr "sync_diff")) :: .other [] :: .other [44] ::
    .other [] :: (filterLexemes raws ++ [.other []])

/-- The request. -/
def requestArray (raws : List (List StringChar)) : List Lexeme :=
  .other [91] :: (requestItems raws ++ [.other [93]])

section Text

variable {p : Platform} {ids : List CStr} {raws : List (List StringChar)}

/-- The text of the filter. -/
theorem print_idsFilter (hprint : Unformatted p.print) (ids : List CStr) :
    p.print (idsFilter ids) = 123 :: 34 :: (cstr "ids" ++ 34 :: 58 :: 91 ::
      (commas ((ids.map Json.string).map p.print) ++ [93, 125])) := by
  unfold idsFilter
  rw [hprint.object, List.map_singleton, commas_singleton, memberText,
    hprint.plain (cstr "ids") (by decide), hprint.array]
  simp

theorem subMsg_eq (hprint : Unformatted p.print)
    (hraws : (ids.map Json.string).map p.print = raws.map fun raw => print [.str raw]) :
    subMsg p ids = print (requestArray raws) := by
  have hfront : cstr "[\"REQ\",\"sync_diff\"," =
      91 :: 34 :: (cstr "REQ" ++ 34 :: 44 :: 34 :: (cstr "sync_diff" ++ [34, 44])) := by
    decide
  have hback : cstr "]" = [93] := by decide
  have hREQ : rawText (plainString (cstr "REQ")) = cstr "REQ" := rawText_plainString (by decide)
  have hsub : rawText (plainString (cstr "sync_diff")) = cstr "sync_diff" :=
    rawText_plainString (by decide)
  have hids : rawText (plainString (cstr "ids")) = cstr "ids" := rawText_plainString (by decide)
  unfold subMsg
  rw [print_idsFilter hprint, hraws, ← print_stringItems, hfront, hback]
  simp [requestArray, requestItems, filterLexemes, compact, idsMember, plainMember,
    Member.lexemes, print_append, print_cons, Lexeme.text, hREQ, hsub, hids]
  simp [print]

/-- The request takes up 29 bytes and those of the ids with a comma each. -/
theorem length_subMsg (hprint : Unformatted p.print) (hne : ids ≠ []) :
    (subMsg p ids).length =
      29 + (ids.map fun id => (p.print (.string id)).length + 1).sum := by
  have hfront : (cstr "[\"REQ\",\"sync_diff\",").length = 19 := by decide
  have hback : (cstr "]").length = 1 := by decide
  have hids : (cstr "ids").length = 3 := by decide
  have hpos : 0 < (ids.map fun id => (p.print (.string id)).length + 1).sum := by
    cases ids with
    | nil => exact absurd rfl hne
    | cons id ids =>
      rw [List.map_cons, List.sum_cons]
      omega
  unfold subMsg
  rw [print_idsFilter hprint]
  simp only [List.length_append, List.length_cons, List.length_nil, length_commas, hfront, hback,
    hids, List.map_map]
  simp only [Function.comp_def]
  omega

theorem derives_idsMember (hne : raws ≠ []) :
    ∃ ms, Derives (.members [idsMember raws]) (compact [idsMember raws]) ms := by
  obtain ⟨ms, hms⟩ := IsArray.derives ⟨_, items_stringItems hne, rfl⟩
  exact ⟨_, .member blank_nil blank_nil blank_nil blank_nil hms⟩

theorem items_requestItems (hne : raws ≠ []) :
    Items (requestItems raws) [[.str (plainString (cstr "REQ"))],
      [.str (plainString (cstr "sync_diff"))], filterLexemes raws] := by
  obtain ⟨ms, hms⟩ := derives_idsMember hne
  exact .cons blank_nil blank_nil (.string _) (.cons blank_nil blank_nil (.string _)
    (.one blank_nil blank_nil (.object hms)))

theorem isArray_requestArray (hne : raws ≠ []) :
    IsArray (requestArray raws) [[.str (plainString (cstr "REQ"))],
      [.str (plainString (cstr "sync_diff"))], filterLexemes raws] :=
  ⟨_, items_requestItems hne, rfl⟩

/-- Printed whole it is a REQ that lists the ids. -/
theorem isReq_subMsg (hprint : Unformatted p.print) (hne : ids ≠ []) :
    ∃ top, IsReq (subMsg p ids) top ∧ ∀ id ∈ ids, ListsId top id := by
  obtain ⟨raws, hdecode, hraws⟩ := hprint.exists_raws ids
  have hrne : raws ≠ [] := by
    rintro rfl
    exact hne hdecode.symm
  obtain ⟨ms, hms⟩ := derives_idsMember hrne
  refine ⟨[idsMember raws], ?_, fun id hid => ?_⟩
  · refine ⟨[], requestArray raws, [], _, _, [filterLexemes raws], filterLexemes raws, blank_nil,
      blank_nil, isArray_requestArray hrne, decode_plainString (by decide),
      List.mem_singleton_self _, ⟨_, ms, hms, rfl⟩, ?_⟩
    rw [subMsg_eq hprint hraws, print_cons, print_append]
    exact (List.append_nil _).symm
  · rw [← hdecode] at hid
    obtain ⟨raw, hraw, rfl⟩ := List.mem_map.mp hid
    have hnamed : named [idsMember raws] "ids" = [idsMember raws] := by
      unfold named
      rw [List.filter_cons_of_pos, List.filter_nil]
      exact decide_eq_true (decode_plainString (by decide))
    exact ⟨idsMember raws, _, raw, hnamed, ⟨_, items_stringItems hrne, rfl⟩,
      List.mem_map_of_mem hraw, rfl⟩

theorem strings_requestArray (raws : List (List StringChar)) :
    strings (.other [] :: (requestArray raws ++ [.other []])) = plainString (cstr "REQ") ::
      plainString (cstr "sync_diff") :: plainString (cstr "ids") :: raws := by
  simp [requestArray, requestItems, filterLexemes, compact, idsMember, plainMember,
    Member.lexemes, strings_append, strings_stringItems, strings_cons_str, strings_cons_other]
  rfl

/-- However the text is read as a REQ, the ids of 64 digits in it are those that were printed. -/
theorem mem_of_listsId (hprint : Unformatted p.print) (hne : ids ≠ []) {top : List Member}
    {id : CStr} (hreq : IsReq (subMsg p ids) top) (hlists : ListsId top id)
    (hlength : id.length = 64) : id ∈ ids := by
  obtain ⟨raws, hdecode, hraws⟩ := hprint.exists_raws ids
  have hrne : raws ≠ [] := by
    rintro rfl
    exact hne hdecode.symm
  obtain ⟨a, v, b, cmd, sub, filters, filter, ha, hb, harray, -, hfilter, hobject, htext⟩ := hreq
  obtain ⟨inner, ms, hinner, hfilterEq⟩ := hobject
  obtain ⟨m, vs, raw, hnamed, hids, hraw, rfl⟩ := hlists
  -- the string stands in the member, the member in the filter, and the filter in the text
  have hmember : m ∈ top :=
    List.mem_of_mem_filter (hnamed ▸ List.mem_singleton_self m : m ∈ named top "ids")
  have hvalue : Lexeme.str raw ∈ inner :=
    hinner.value_subset hmember (hids.subset hraw (List.mem_singleton_self _))
  have hin : Lexeme.str raw ∈ v := by
    refine harray.subset (List.mem_cons_of_mem _ (List.mem_cons_of_mem _ hfilter)) ?_
    rw [hfilterEq]
    exact List.mem_cons_of_mem _ (List.mem_append_left _ hvalue)
  have hstrings : raw ∈ strings (.other a :: (v ++ [.other b])) :=
    mem_strings.mpr (List.mem_cons_of_mem _ (List.mem_append_left _ hin))
  -- the text has the strings of the printed request
  obtain ⟨msv, hv⟩ := harray.derives
  obtain ⟨msr, hr⟩ := (isArray_requestArray hrne).derives
  have hprinted : print (.other a :: (v ++ [.other b])) =
      print (.other [] :: (requestArray raws ++ [.other []])) := by
    rw [← htext, subMsg_eq hprint hraws, print_cons, print_append]
    exact (List.append_nil _).symm
  rw [strings_eq_of_print_eq (hv.spaced_between ha hb) (hr.spaced_between blank_nil blank_nil)
    hprinted, strings_requestArray, List.mem_cons, List.mem_cons, List.mem_cons] at hstrings
  have hshort : ∀ name : CStr, IsPlain name → name.length < 64 → raw ≠ plainString name := by
    rintro name hplain hlt rfl
    rw [decode_plainString hplain] at hlength
    omega
  rw [← hdecode]
  rcases hstrings with h | h | h | h
  · exact absurd h (hshort (cstr "REQ") (by decide) (by decide))
  · exact absurd h (hshort (cstr "sync_diff") (by decide) (by decide))
  · exact absurd h (hshort (cstr "ids") (by decide) (by decide))
  · exact List.mem_map_of_mem h

/-- What is cut off is no JSON. -/
theorem not_isReq_of_cut (hprint : Unformatted p.print) (hne : ids ≠ [])
    (hlong : 255 < (subMsg p ids).length) {top : List Member} :
    ¬ IsReq (snprintf 256 (subMsg p ids)) top := by
  rintro ⟨a, v, b, cmd, sub, filters, filter, ha, hb, harray, -, -, -, htext⟩
  obtain ⟨raws, hdecode, hraws⟩ := hprint.exists_raws ids
  have hrne : raws ≠ [] := by
    rintro rfl
    exact hne hdecode.symm
  obtain ⟨ms, hms⟩ := (items_requestItems hrne).derives
  obtain ⟨msv, hv⟩ := harray.derives
  have hwhole : subMsg p ids = 91 :: (print (requestItems raws) ++ [93]) := by
    rw [subMsg_eq hprint hraws, requestArray, print_cons, print_append]
    rfl
  have hcut : (snprintf 256 (subMsg p ids)).length = 255 :=
    List.length_take_of_le hlong.le
  refine not_isText_of_cut hms.level ?_ ?_ ⟨a, v, b, msv, ha, hv, hb, htext⟩
  · rw [← hwhole]
    exact List.take_prefix _ _
  · rw [← hwhole]
    intro heq
    rw [heq] at hcut
    omega

end Text

/-! ### Exactly when it is complete -/

section Complete

variable {p : Platform} {now : UInt32} {s : Engine}

/-- The ids as they are printed, with a comma each, fit into the buffer. -/
def IdsFit (p : Platform) (ids : List CStr) : Prop :=
  (ids.map fun id => (p.print (.string id)).length + 1).sum ≤ 226

theorem length_hexText_id (e : IndexEntry) : (hexText e.eventId.toList).length = 64 := by
  rw [length_hexText, Vector.length_toList]

theorem negentropyRequest_eq (hne : toldIds p now s ≠ []) :
    negentropyRequest p now s = some (snprintf 256 (subMsg p (toldIds p now s))) := by
  unfold negentropyRequest
  rw [getEventIdsFromStorage_eq]
  cases htold : toldIds p now s with
  | nil => exact absurd htold hne
  | cons id ids => rfl

theorem requestComplete_of_fits (hprint : Unformatted p.print)
    (htold : ∀ e ∈ s.current now, hexText e.eventId.toList ∈ toldIds p now s)
    (hfit : IdsFit p (toldIds p now s)) : RequestComplete p now s := by
  intro text htext
  by_cases hne : toldIds p now s = []
  · unfold negentropyRequest at htext
    rw [getEventIdsFromStorage_eq, hne] at htext
    exact absurd htext nofun
  · have hlength := length_subMsg hprint hne
    have hfit : (subMsg p (toldIds p now s)).length < 256 := by
      unfold IdsFit at hfit
      omega
    rw [negentropyRequest_eq hne, snprintf_of_length_lt hfit, Option.some.injEq] at htext
    obtain ⟨top, hreq, hlists⟩ := isReq_subMsg hprint hne
    exact ⟨top, htext ▸ hreq, fun e he => hlists _ (htold e he)⟩

theorem fits_of_requestComplete (hprint : Unformatted p.print) (hne : toldIds p now s ≠ [])
    (hcomplete : RequestComplete p now s) :
    (∀ e ∈ s.current now, hexText e.eventId.toList ∈ toldIds p now s) ∧
      IdsFit p (toldIds p now s) := by
  obtain ⟨top, hreq, hlists⟩ := hcomplete _ (negentropyRequest_eq hne)
  have hlength := length_subMsg hprint hne
  by_cases hlong : 255 < (subMsg p (toldIds p now s)).length
  · exact absurd hreq (not_isReq_of_cut hprint hne hlong)
  · rw [snprintf_of_length_lt (by omega)] at hreq
    refine ⟨fun e he => ?_, ?_⟩
    · exact mem_of_listsId hprint hne hreq (hlists e he) (length_hexText_id e)
    · unfold IdsFit
      omega

/-- The text of a live event tells the id of this one. -/
def IsTold (p : Platform) (now : UInt32) (s : Engine) (e : IndexEntry) : Prop :=
  ∃ e' ∈ s.current now, (s.readEvent e').bind (toldId p) = some (hexText e.eventId.toList)

/-- The ids of the live events, as they should be told. -/
abbrev currentIds (now : UInt32) (s : Engine) : List CStr :=
  (s.current now).map fun e => hexText e.eventId.toList

theorem nodup_currentIds (now : UInt32) (hdistinct : DistinctIds s) : (currentIds now s).Nodup := by
  have hids : ((s.current now).map IndexEntry.eventId).Nodup :=
    hdistinct.sublist (List.filter_sublist.map _)
  have hmap := hids.map (hexText_injective 32)
  rwa [List.map_map] at hmap

/-- An id of 64 digits takes up 67 bytes. -/
theorem sum_currentIds (hprint : Unformatted p.print) (now : UInt32) (s : Engine) :
    ((currentIds now s).map fun id => (p.print (.string id)).length + 1).sum =
      67 * (s.current now).length := by
  have hprinted : ∀ e : IndexEntry,
      (p.print (.string (hexText e.eventId.toList))).length + 1 = 67 := by
    intro e
    rw [hprint.plain _ (isPlain_hexText _), List.length_cons, List.length_append,
      length_hexText_id]
    rfl
  unfold currentIds
  rw [List.map_map]
  simp only [Function.comp_def, hprinted, List.map_const', List.sum_replicate, smul_eq_mul]
  exact Nat.mul_comm _ _

/-- Up to 500 events all texts are read. -/
theorem toldIds_eq (hfew : (s.current now).length ≤ 500) :
    toldIds p now s =
      (s.current now).reverse.filterMap fun e => (s.readEvent e).bind (toldId p) := by
  unfold toldIds
  rw [List.take_of_length_le, List.filterMap_filterMap]
  exact (List.length_filterMap_le _ _).trans (by rwa [List.length_reverse])

theorem isTold_of_mem {e : IndexEntry} (h : hexText e.eventId.toList ∈ toldIds p now s) :
    IsTold p now s e := by
  obtain ⟨text, htext, hid⟩ := List.mem_filterMap.mp h
  obtain ⟨e', he', hread⟩ := List.mem_filterMap.mp (List.mem_of_mem_take htext)
  refine ⟨e', List.mem_reverse.mp he', ?_⟩
  rw [hread]
  exact hid

theorem currentIds_subset
    (h : ∀ e ∈ s.current now, hexText e.eventId.toList ∈ toldIds p now s) :
    currentIds now s ⊆ toldIds p now s := by
  intro id hid
  obtain ⟨e, he, rfl⟩ := List.mem_map.mp hid
  exact h e he

/-- **At most three events.** In a store whose live events have distinct ids, what is sent is
complete exactly if there are at most three and the text of one of them tells the id of each. -/
theorem requestComplete_iff_three (hprint : Unformatted p.print) (hdistinct : DistinctIds s)
    (hne : toldIds p now s ≠ []) :
    RequestComplete p now s ↔
      (s.current now).length ≤ 3 ∧ ∀ e ∈ s.current now, IsTold p now s e := by
  have hnodup := nodup_currentIds now hdistinct
  have hsum := sum_currentIds hprint now s
  refine ⟨fun hcomplete => ?_, ?_⟩
  · obtain ⟨htold, hfit⟩ := fits_of_requestComplete hprint hne hcomplete
    refine ⟨?_, fun e he => isTold_of_mem (htold e he)⟩
    -- the distinct ids are among those that fit
    obtain ⟨ids, hperm, hsub⟩ := hnodup.subperm (currentIds_subset htold)
    have hle := (hsub.map fun id => (p.print (.string id)).length + 1).sum_le_sum
      fun _ _ => Nat.zero_le _
    rw [(hperm.map _).sum_eq, hsum] at hle
    unfold IdsFit at hfit
    omega
  · rintro ⟨hthree, htold⟩
    have hids : toldIds p now s =
        (s.current now).reverse.filterMap fun e => (s.readEvent e).bind (toldId p) :=
      toldIds_eq (hthree.trans (by norm_num))
    have hmem : ∀ e ∈ s.current now, hexText e.eventId.toList ∈ toldIds p now s := by
      intro e he
      obtain ⟨e', he', hid⟩ := htold e he
      rw [hids]
      exact List.mem_filterMap.mpr ⟨e', List.mem_reverse.mpr he', hid⟩
    refine requestComplete_of_fits hprint hmem ?_
    -- there are no other ids, since each text tells one
    have hlength : (toldIds p now s).length ≤ (currentIds now s).length := by
      rw [hids, List.length_map]
      exact (List.length_filterMap_le _ _).trans_eq List.length_reverse
    have hperm := (hnodup.subperm (currentIds_subset hmem)).perm_of_length_le hlength
    unfold IdsFit
    rw [← (hperm.map _).sum_eq, hsum]
    omega

/-- **Complete requests.** For every store and clock: what is sent is a REQ that lists the ids of
all live events, exactly if no text tells an id, so that nothing is sent, or the texts tell the ids
of all live events, and what they tell fits into the buffer. -/
theorem requestComplete_iff (hprint : Unformatted p.print) (now : UInt32) (s : Engine) :
    RequestComplete p now s ↔ toldIds p now s = [] ∨
      (∀ e ∈ s.current now, hexText e.eventId.toList ∈ toldIds p now s) ∧
        IdsFit p (toldIds p now s) := by
  refine ⟨fun hcomplete => ?_, ?_⟩
  · by_cases hne : toldIds p now s = []
    · exact .inl hne
    · exact .inr (fits_of_requestComplete hprint hne hcomplete)
  · rintro (hnone | ⟨htold, hfit⟩)
    · intro text htext
      unfold negentropyRequest at htext
      rw [getEventIdsFromStorage_eq, hnone] at htext
      exact absurd htext nofun
    · exact requestComplete_of_fits hprint htold hfit

end Complete

/-! ### Three and four events -/

/-- The event `reaction` with another id. -/
def reactionWith (k : UInt8) : Event := { reaction with id := Vector.replicate 32 k }

/-- Its text. -/
def reactionWithText (k : UInt8) : CStr := sampleText (reactionWith k) (cstr "[]") []

/-- A store with such events. -/
def reactionsStore (ks : List UInt8) : Engine :=
  ks.foldl (fun s k => (s.saveEventJson (fun _ => []) 10 true (reactionWithText k)).1)
    (Engine.empty 5000 3600)

/-- `cJSON` on their texts. -/
def reactionsPlatform : Platform :=
  { textPlatform ([1, 2, 3, 4].map fun k => (reactionWithText k, (reactionWith k).tree)) with
    print := unformatted }

set_option maxRecDepth 4096 in
theorem toldIds_three : toldIds reactionsPlatform 20 (reactionsStore [1, 2, 3]) =
    [3, 2, 1].map fun k => hexText (reactionWith k).id.toList := by
  decide

set_option maxRecDepth 4096 in
theorem toldIds_four : toldIds reactionsPlatform 20 (reactionsStore [1, 2, 3, 4]) =
    [4, 3, 2, 1].map fun k => hexText (reactionWith k).id.toList := by
  decide

/-- The ids of three events fit. -/
theorem requestComplete_of_three :
    toldIds reactionsPlatform 20 (reactionsStore [1, 2, 3]) ≠ [] ∧
      RequestComplete reactionsPlatform 20 (reactionsStore [1, 2, 3]) := by
  have hcurrent : currentIds 20 (reactionsStore [1, 2, 3]) =
      [1, 2, 3].map fun k => hexText (reactionWith k).id.toList := rfl
  rw [toldIds_three]
  refine ⟨List.cons_ne_nil _ _, ?_⟩
  refine (requestComplete_iff unformatted_unformatted 20 _).mpr (.inr ?_)
  rw [toldIds_three]
  refine ⟨fun e he => ?_, ?_⟩
  · have hid : hexText e.eventId.toList ∈ currentIds 20 (reactionsStore [1, 2, 3]) :=
      List.mem_map_of_mem he
    rw [hcurrent] at hid
    exact List.mem_reverse.mp hid
  · unfold IdsFit
    decide

/-- Those of four do not, and what is sent is no JSON. -/
theorem four_events_cut :
    ¬ RequestComplete reactionsPlatform 20 (reactionsStore [1, 2, 3, 4]) := by
  intro hcomplete
  obtain ⟨-, hfit⟩ := fits_of_requestComplete unformatted_unformatted
    (by rw [toldIds_four]; exact List.cons_ne_nil _ _) hcomplete
  rw [toldIds_four] at hfit
  unfold IdsFit at hfit
  exact absurd hfit (by decide)

end Relay

end TollGate
