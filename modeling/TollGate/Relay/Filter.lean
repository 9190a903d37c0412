import TollGate.Relay.Event

/-!
# Requests for stored events

A `REQ` is answered from the store with an index query (`handle_req`), while events that
come in later are held against the same filter by `filter_matches_event`. The query looks
at the first kind and the first author of the filter only, and at neither of its times.

`stored_answer_iff` says for which stores and filters the two agree: no event within reach of
the limit is sent although the filter rejects it (`SentWrongly`), and none is left out
although the filter accepts it (`Missed`).
-/

namespace TollGate

namespace Relay

open CStr CJson

/-! ### Filters -/

/-- `sub_filter_t`. -/
structure SubFilter where
  ids : List CStr
  authors : List CStr
  kinds : List Int32
  eTags : List CStr
  pTags : List CStr
  since : Int64
  until_ : Int64
  limit : Int32
deriving DecidableEq

/-- `SUB_MAX_FILTER_IDS` and its four equals. -/
abbrev subMaxFilter : ℕ := 20

/-- The items of an array member, up to the room in the filter. -/
def filterItems (obj : Json) (name : String) : List Json :=
  (((obj.getObjectItem name).bind Json.asArray).getD []).take subMaxFilter

/-- The strings of an array member. `strdup` of an item that is no string ends the run. -/
def filterStrings (obj : Json) (name : String) : Except Fault (List CStr) :=
  (filterItems obj name).mapM fun item => deref item.asString

/-- A time of the filter. -/
def filterTime (obj : Json) (name : String) : Int64 :=
  ((obj.getObjectItem name).map fun item => item.toNumber.toInt64).getD 0

/-- `parse_filter_json`. -/
def parseFilterJson (p : Platform) (json : CStr) : Except Fault SubFilter :=
  match p.parse json with
  | none => .ok ⟨[], [], [], [], [], 0, 0, 0⟩
  | some obj => do
    let ids ← filterStrings obj "ids"
    let authors ← filterStrings obj "authors"
    let kinds := (filterItems obj "kinds").map Json.valueint
    let eTags ← filterStrings obj "#e"
    let pTags ← filterStrings obj "#p"
    let limit := ((obj.getObjectItem "limit").map Json.valueint).getD 0
    return ⟨ids, authors, kinds, eTags, pTags, filterTime obj "since", filterTime obj "until",
      limit⟩

/-- `hex_prefix_match`. -/
def hexPrefixMatch (start full : CStr) : Bool :=
  if start.length = 0 then true
  else if start.length > full.length then false
  else full.take start.length = start

/-- `filter_matches_event`. The ids and the tags are not looked at. -/
def SubFilter.matchesEvent (f : SubFilter) (eventKind : Int32) (pubkeyHex : CStr)
    (createdAt : UInt64) : Bool :=
  if f.kinds.length > 0 && !f.kinds.any (· = eventKind) then false
  else if f.authors.length > 0 && !f.authors.any (hexPrefixMatch · pubkeyHex) then false
  else if f.since > 0 && createdAt.toInt64 < f.since then false
  else if f.until_ > 0 && createdAt.toInt64 > f.until_ then false
  else true

/-! ### The request -/

/-- What is sent to a client. An event goes with the index entry it was found by. -/
inductive Reply where
  | event (subId : CStr) (e : IndexEntry) (json : CStr)
  | eose (subId : CStr)
  | closed (subId message : CStr)
deriving DecidableEq

/-- `query_kind`. -/
def SubFilter.queryKind (f : SubFilter) : Int32 := f.kinds.head?.getD (-1)

/-- `query_author`. -/
def SubFilter.queryAuthor (f : SubFilter) : Option CStr := f.authors.head?

/-- `query_limit`. -/
def SubFilter.queryLimit (f : SubFilter) : Int32 := if f.limit > 0 then f.limit else 100

/-- `handle_req`, up to the end of the stored events; `allowed` is the answer of the rate
limiter. -/
def handleReq (p : Platform) (s : Engine) (now : UInt32) (allowed : Bool)
    (subId filtersJson : CStr) : Except Fault (List Reply) :=
  if !allowed then .ok [.closed subId (cstr "rate limited")]
  else do
    let filter ← parseFilterJson p filtersJson
    -- of the lists only the first kind and the first author come to the store
    let results := s.queryEntries p.heap now filter.queryKind filter.queryAuthor filter.queryLimit
    return results.map (fun r => .event subId r.1 r.2) ++ [.eose subId]

/-! ### What the filter says -/

/-- The kind, key and time of a stored event, as `handle_event` hands them to the matcher. -/
def matchFields (p : Platform) (json : CStr) : Option (Int32 × CStr × UInt64) := do
  let obj ← p.parse json
  let pubkey ← (obj.getObjectItem "pubkey").bind Json.asString
  let kind ← obj.getObjectItem "kind"
  let createdAt ← obj.getObjectItem "created_at"
  return (kind.valueint, pubkey, createdAt.toNumber.valueUInt64)

/-- The live entries, from the newest on. -/
def Engine.liveEntries (s : Engine) (now : UInt32) : List IndexEntry :=
  s.index.reverse.filter fun e => !e.deleted && !e.expired now

/-- The matcher accepts the event in the file of the entry. -/
def accepts (p : Platform) (f : SubFilter) (s : Engine) (e : IndexEntry) : Bool :=
  match (s.files e.path).bind (matchFields p) with
  | none => false
  | some (kind, pubkey, createdAt) => f.matchesEvent kind pubkey createdAt

/-- The limit of the answer: that of the filter, but at most 500, and 100 without one. -/
def SubFilter.answerLimit (f : SubFilter) : ℕ := Engine.clampLimit f.queryLimit

/-- The entry with the text of its file. -/
def Engine.eventReply (s : Engine) (subId : CStr) (e : IndexEntry) : Reply :=
  .event subId e ((s.files e.path).getD [])

/-- What the filter says should be sent: the newest live events that the matcher accepts,
up to the limit, and the end of the stored events. -/
def filterAnswer (p : Platform) (f : SubFilter) (s : Engine) (now : UInt32) (subId : CStr) :
    List Reply :=
  (((s.liveEntries now).filter (accepts p f s)).take f.answerLimit).map (s.eventReply subId) ++
    [.eose subId]

/-! ### Where the query and the filter differ -/

/-- A test of the filter fails. -/
def SubFilter.Rejects (f : SubFilter) (kind : Int32) (pubkey : CStr) (createdAt : UInt64) : Prop :=
  (f.kinds ≠ [] ∧ kind ∉ f.kinds) ∨
    (f.authors ≠ [] ∧ ∀ a ∈ f.authors, hexPrefixMatch a pubkey = false) ∨
    (0 < f.since ∧ createdAt.toInt64 < f.since) ∨ (0 < f.until_ ∧ f.until_ < createdAt.toInt64)

/-- The index test of the query and the size of the file let the event through, and the
filter rejects it, or its text has not the fields that the filter asks for. -/
def SentWrongly (p : Platform) (f : SubFilter) (s : Engine) (e : IndexEntry) : Prop :=
  Engine.indexTest p.heap f.queryKind f.queryAuthor e = true ∧
    ∃ json, s.readEvent e = some json ∧
      ∀ kind pubkey createdAt, matchFields p json = some (kind, pubkey, createdAt) →
        f.Rejects kind pubkey createdAt

/-- The filter accepts the event, and its kind is not the first of the list, its key does
not begin with the four bytes of the first author, or its text is empty or too long. -/
def Missed (p : Platform) (f : SubFilter) (s : Engine) (e : IndexEntry) : Prop :=
  accepts p f s e = true ∧
    ((0 < f.queryKind ∧ e.kind.toUInt32.toInt32 ≠ f.queryKind) ∨
      (∃ a, f.queryAuthor = some a ∧ 8 ≤ a.length ∧
        e.pubkeyPrefix ≠ zeroField 4 (relayHexToBytes (memory p.heap a) 8 4).1) ∨
      ∀ json, s.files e.path = some json →
        json.length = 0 ∨ Engine.maxEventSize < json.length)

/-! ### Two tests on the same list -/

/-- An item of a list with what stands in front of it is the first one or stands further on. -/
theorem forall_split_cons_iff {α : Type} {b : α} {xs : List α} {P : List α → α → Prop} :
    (∀ front a back, b :: xs = front ++ a :: back → P front a) ↔
      P [] b ∧ ∀ front a back, xs = front ++ a :: back → P (b :: front) a := by
  refine ⟨?_, ?_⟩
  · intro h
    refine ⟨h [] b xs rfl, ?_⟩
    intro front a back hxs
    exact h (b :: front) a back (by rw [hxs]; rfl)
  · rintro ⟨hb, h⟩ front a back hxs
    cases front with
    | nil =>
      rw [List.nil_append, List.cons.injEq] at hxs
      exact hxs.1 ▸ hb
    | cons c front =>
      rw [List.cons_append, List.cons.injEq] at hxs
      exact hxs.1 ▸ h front a back hxs.2

/-- Cut to the same length, what two tests leave of a list is the same exactly if they agree
on every item in front of which there is still room. -/
theorem take_filter_eq_iff {α : Type} (t u : α → Bool) (n : ℕ) (xs : List α) :
    (xs.filter t).take n = (xs.filter u).take n ↔
      ∀ front a back, xs = front ++ a :: back → (front.filter u).length < n → t a = u a := by
  induction xs generalizing n with
  | nil => simp
  | cons b xs ih =>
    cases n with
    | zero => simp
    | succ n =>
      -- for the first item there is room
      have hfirst : (([] : List α).filter u).length < n + 1 → t b = u b ↔ t b = u b :=
        forall_prop_of_true (Nat.succ_pos n)
      rw [forall_split_cons_iff (P := fun front a => (front.filter u).length < n + 1 → t a = u a),
        hfirst]
      cases ht : t b with
      | true =>
        cases hu : u b with
        | true =>
          -- the item takes one place in both lists
          simp only [List.filter_cons_of_pos ht, List.filter_cons_of_pos hu, List.take_succ_cons,
            List.cons.injEq, true_and, List.length_cons, Nat.add_lt_add_iff_right]
          exact ih n
        | false =>
          -- the next item of the other list passes `u`, which this one does not
          rw [List.filter_cons_of_pos ht, List.filter_cons_of_neg (by simp [hu]),
            List.take_succ_cons]
          refine ⟨?_, fun h => absurd h.1 Bool.noConfusion⟩
          intro h
          have hmem : b ∈ (xs.filter u).take (n + 1) := h ▸ List.mem_cons_self
          have := (List.mem_filter.mp (List.mem_of_mem_take hmem)).2
          rw [hu] at this
          exact Bool.noConfusion this
      | false =>
        cases hu : u b with
        | true =>
          -- the other way round
          rw [List.filter_cons_of_neg (by simp [ht]), List.filter_cons_of_pos hu,
            List.take_succ_cons]
          refine ⟨?_, fun h => absurd h.1 Bool.noConfusion⟩
          intro h
          have hmem : b ∈ (xs.filter t).take (n + 1) := h ▸ List.mem_cons_self
          have := (List.mem_filter.mp (List.mem_of_mem_take hmem)).2
          rw [ht] at this
          exact Bool.noConfusion this
        | false =>
          -- the item is in neither list
          simp only [List.filter_cons_of_neg (show ¬ t b = true by simp [ht]),
            List.filter_cons_of_neg (show ¬ u b = true by simp [hu]), true_and]
          exact ih (n + 1)

/-! ### The query -/

/-- The tests of the query on a live entry and its file. -/
def sends (p : Platform) (f : SubFilter) (s : Engine) (e : IndexEntry) : Bool :=
  Engine.indexTest p.heap f.queryKind f.queryAuthor e && (s.readEvent e).isSome

theorem readEvent_eq_some {s : Engine} {e : IndexEntry} {json : CStr}
    (h : s.readEvent e = some json) : s.files e.path = some json := by
  unfold Engine.readEvent at h
  split at h
  · exact absurd h (by simp)
  next text htext =>
    split at h
    · exact absurd h (by simp)
    · rw [htext, h]

/-- The query takes the live entries that pass its tests, up to the limit. -/
theorem queryLoop_eq (s : Engine) (heap : CStr → List UInt8) (now : UInt32) (kind : Int32)
    (author : Option CStr) (entries : List IndexEntry) (n : ℕ) :
    s.queryLoop heap now kind author entries n =
      (((entries.filter fun e => !e.deleted && !e.expired now).filter fun e =>
        Engine.indexTest heap kind author e && (s.readEvent e).isSome).take n).map fun e =>
          (e, (s.files e.path).getD []) := by
  induction entries generalizing n with
  | nil => simp [Engine.queryLoop]
  | cons e entries ih =>
    cases n with
    | zero => simp [Engine.queryLoop]
    | succ n =>
      unfold Engine.queryLoop
      rw [List.filter_filter] at ih ⊢
      cases hread : s.readEvent e with
      | none =>
        -- a file that cannot be read is passed over, whatever the index says
        rw [List.filter_cons_of_neg (by simp [hread])]
        split <;> exact ih (n + 1)
      | some json =>
        split
        next hskip =>
          rw [List.filter_cons_of_neg]
          · exact ih (n + 1)
          · simp only [Bool.or_eq_true, Bool.not_eq_true'] at hskip
            rcases hskip with (hdead | hold) | htest
            · simp [hdead]
            · simp [hold]
            · simp [htest]
        next hkeep =>
          rw [List.filter_cons_of_pos, List.take_succ_cons, List.map_cons, ih n,
            readEvent_eq_some hread]
          · rfl
          · simp only [Bool.not_eq_true, Bool.or_eq_false_iff, Bool.not_eq_false'] at hkeep
            obtain ⟨⟨hlive, hnew⟩, htest⟩ := hkeep
            simp [hlive, hnew, htest, hread]

theorem handleReq_eq {p : Platform} {s : Engine} {now : UInt32} {subId filtersJson : CStr}
    {f : SubFilter} (hf : parseFilterJson p filtersJson = .ok f) :
    handleReq p s now true subId filtersJson =
      .ok ((((s.liveEntries now).filter (sends p f s)).take f.answerLimit).map
        (s.eventReply subId) ++ [.eose subId]) := by
  unfold handleReq
  -- the text that is sent is the one in the file of the entry
  rw [hf]
  simp only [Engine.queryEntries, queryLoop_eq, List.map_map]
  rfl

/-! ### The two tests compared -/

section Compared

variable {p : Platform} {f : SubFilter} {s : Engine} {e : IndexEntry}

theorem matchesEvent_eq_false_iff (f : SubFilter) (kind : Int32) (pubkey : CStr)
    (createdAt : UInt64) :
    f.matchesEvent kind pubkey createdAt = false ↔ f.Rejects kind pubkey createdAt := by
  have hkinds : f.kinds.length > 0 && !f.kinds.any (· = kind) ↔
      f.kinds ≠ [] ∧ kind ∉ f.kinds := by
    simp only [gt_iff_lt, List.length_pos_iff, Bool.and_eq_true, decide_eq_true_eq,
      Bool.not_eq_true', List.any_eq_false]
    refine and_congr_right fun _ => ⟨fun h hmem => h kind hmem rfl, ?_⟩
    rintro hnot x hx rfl
    exact hnot hx
  have hauthors : f.authors.length > 0 && !f.authors.any (hexPrefixMatch · pubkey) ↔
      f.authors ≠ [] ∧ ∀ a ∈ f.authors, hexPrefixMatch a pubkey = false := by
    simp [List.length_pos_iff]
  unfold SubFilter.matchesEvent SubFilter.Rejects
  -- the four tests in the order of the source
  simp only [hkinds, hauthors]
  split
  next h => exact iff_of_true rfl (.inl h)
  next hk =>
    split
    next h => exact iff_of_true rfl (.inr (.inl h))
    next ha =>
      simp only [hk, ha, false_or]
      split
      next h => exact iff_of_true rfl (.inl (by simpa using h))
      next hsince =>
        split
        next h => exact iff_of_true rfl (.inr (by simpa using h))
        next huntil =>
          simp only [Bool.and_eq_true, decide_eq_true_eq] at hsince huntil
          refine iff_of_false Bool.noConfusion ?_
          rintro (h | h)
          · exact hsince h
          · exact huntil h

theorem accepts_of_readEvent {json : CStr} (h : s.readEvent e = some json) :
    accepts p f s e = false ↔
      ∀ kind pubkey createdAt, matchFields p json = some (kind, pubkey, createdAt) →
        f.Rejects kind pubkey createdAt := by
  unfold accepts
  rw [readEvent_eq_some h, Option.bind_some]
  cases hfields : matchFields p json with
  | none => simp
  | some fields =>
    obtain ⟨kind, pubkey, createdAt⟩ := fields
    simp only [matchesEvent_eq_false_iff, Option.some.injEq, Prod.mk.injEq]
    refine ⟨?_, fun h => h kind pubkey createdAt ⟨rfl, rfl, rfl⟩⟩
    rintro h _ _ _ ⟨rfl, rfl, rfl⟩
    exact h

theorem sentWrongly_iff : SentWrongly p f s e ↔ sends p f s e = true ∧ accepts p f s e = false := by
  unfold SentWrongly sends
  rw [Bool.and_eq_true]
  refine ⟨?_, ?_⟩
  · rintro ⟨htest, json, hread, hrejects⟩
    exact ⟨⟨htest, by rw [hread]; rfl⟩, (accepts_of_readEvent hread).mpr hrejects⟩
  · rintro ⟨⟨htest, hsome⟩, hrejects⟩
    obtain ⟨json, hread⟩ := Option.isSome_iff_exists.mp hsome
    exact ⟨htest, json, hread, (accepts_of_readEvent hread).mp hrejects⟩

theorem indexTest_eq_false_iff (heap : CStr → List UInt8) (kind : Int32) (author : Option CStr)
    (e : IndexEntry) :
    Engine.indexTest heap kind author e = false ↔
      (0 < kind ∧ e.kind.toUInt32.toInt32 ≠ kind) ∨
        ∃ a, author = some a ∧ 8 ≤ a.length ∧
          e.pubkeyPrefix ≠ zeroField 4 (relayHexToBytes (memory heap a) 8 4).1 := by
  have hkind : (!(kind > 0) || e.kind.toUInt32.toInt32 = kind) = false ↔
      0 < kind ∧ e.kind.toUInt32.toInt32 ≠ kind := by
    simp
  unfold Engine.indexTest
  rw [Bool.and_eq_false_iff, hkind]
  refine or_congr_right ?_
  cases author with
  | none => simp
  | some a => simp

/-- A file that is there is passed over for its size. -/
theorem readEvent_eq_none_iff {json : CStr} (h : s.files e.path = some json) :
    s.readEvent e = none ↔ json.length = 0 ∨ Engine.maxEventSize < json.length := by
  unfold Engine.readEvent
  simp only [h]
  split
  next hsize => exact iff_of_true rfl hsize
  next hsize => exact iff_of_false (by simp) hsize

theorem missed_iff : Missed p f s e ↔ accepts p f s e = true ∧ sends p f s e = false := by
  unfold Missed sends
  rw [Bool.and_eq_false_iff, indexTest_eq_false_iff, or_assoc, Option.isSome_eq_false_iff,
    Option.isNone_iff_eq_none]
  refine and_congr_right fun haccepts => or_congr_right (or_congr_right ?_)
  -- an accepted event has its file
  cases hfile : s.files e.path with
  | none => simp [accepts, hfile] at haccepts
  | some json => simp [readEvent_eq_none_iff hfile]

theorem sends_eq_accepts_iff :
    sends p f s e = accepts p f s e ↔ ¬ SentWrongly p f s e ∧ ¬ Missed p f s e := by
  -- two tests differ in one of two ways
  rw [sentWrongly_iff, missed_iff]
  cases sends p f s e <;> cases accepts p f s e <;> simp

end Compared

theorem eventReply_injective (s : Engine) (subId : CStr) :
    Function.Injective (s.eventReply subId) := by
  intro e e' h
  unfold Engine.eventReply at h
  exact (Reply.event.inj h).2.1

/-- **Exactly when a request is answered as its filter says.** For every store, clock, filter
and subscription: no live event before which the limit leaves room is sent although the
filter rejects it or missed although the filter accepts it. -/
theorem stored_answer_iff (p : Platform) (s : Engine) (now : UInt32) (subId filtersJson : CStr)
    (f : SubFilter) (hf : parseFilterJson p filtersJson = .ok f) :
    handleReq p s now true subId filtersJson = .ok (filterAnswer p f s now subId) ↔
      ∀ front e back, s.liveEntries now = front ++ e :: back →
        (front.filter (accepts p f s)).length < f.answerLimit →
          ¬ SentWrongly p f s e ∧ ¬ Missed p f s e := by
  rw [handleReq_eq hf, filterAnswer, Except.ok.injEq, List.append_left_inj,
    (eventReply_injective s subId).list_map.eq_iff, take_filter_eq_iff]
  simp only [sends_eq_accepts_iff]

/-- A filter for the kinds 1 and 7. -/
def twoKinds : CStr := cstr "\x7b\"kinds\":[1,7]\x7d"

/-- A filter for the kind 7. -/
def oneKind : CStr := cstr "\x7b\"kinds\":[7]\x7d"

/-- `cJSON` on these filters and the event. -/
def kindsPlatform : Platform :=
  textPlatform [(reactionText, reaction.tree),
    (twoKinds, .object [(cstr "kinds", .array [.number (.ofInt 1), .number (.ofInt 7)])]),
    (oneKind, .object [(cstr "kinds", .array [.number (.ofInt 7)])])]

/-- The filter asks for the kinds 1 and 7, and the event of kind 7 is not sent. -/
theorem second_kind_not_sent :
    parseFilterJson kindsPlatform twoKinds = .ok ⟨[], [], [1, 7], [], [], 0, 0, 0⟩ ∧
      handleReq kindsPlatform reactionStore 20 true (cstr "s") twoKinds ≠
        .ok (filterAnswer kindsPlatform ⟨[], [], [1, 7], [], [], 0, 0, 0⟩ reactionStore 20
          (cstr "s")) := by
  refine ⟨?_, ?_⟩ <;> decide +kernel

/-- The filter asks for the kind 7, and what it says is sent. -/
theorem stored_answer_of_one_kind :
    (reactionStore.liveEntries 20).length = 1 ∧
      ∀ front e back, reactionStore.liveEntries 20 = front ++ e :: back →
        (front.filter (accepts kindsPlatform ⟨[], [], [7], [], [], 0, 0, 0⟩
          reactionStore)).length < 100 →
        ¬ SentWrongly kindsPlatform ⟨[], [], [7], [], [], 0, 0, 0⟩ reactionStore e ∧
          ¬ Missed kindsPlatform ⟨[], [], [7], [], [], 0, 0, 0⟩ reactionStore e := by
  have hparse : parseFilterJson kindsPlatform oneKind = .ok ⟨[], [], [7], [], [], 0, 0, 0⟩ := by
    decide
  have hanswer : handleReq kindsPlatform reactionStore 20 true (cstr "s") oneKind =
      .ok (filterAnswer kindsPlatform ⟨[], [], [7], [], [], 0, 0, 0⟩ reactionStore 20
        (cstr "s")) := by
    decide +kernel
  refine ⟨by decide, ?_⟩
  exact (stored_answer_iff kindsPlatform reactionStore 20 (cstr "s") oneKind _ hparse).mp hanswer

end Relay

end TollGate
