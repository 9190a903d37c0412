import TollGate.Relay.Subscriptions
import TollGate.Relay.Writers

/-!
# Events for subscriptions

A `REQ` may have several filters, and a filter conditions on ids, authors, kinds, tags
and times. On the way from the message to `sub_manager_match_json`, `router_dispatch` takes the
first filter of the message, `parse_filter_json` reads all its conditions, `filter_copy`
copies them, and `filter_matches_event` looks at the kinds, the authors and the times.

`ReqFilter` is a filter as NIP-01 has it, with the conditions that are given, and `SubTable`
the subscription table with the filters that each connection asked for under each id.
`matchJson_reports_iff` says of every run of messages and every event when exactly the
subscriptions are reported that asked for it: no first filter lets an event through that no
filter of the request accepts, and none holds back what another one accepts.
-/

namespace TollGate

namespace Relay

open CStr CJson StepRun

/-! ### Filters -/

/-- A filter of a `REQ`. -/
structure ReqFilter where
  ids : Option (List CStr)
  authors : Option (List CStr)
  kinds : Option (List Int32)
  eTags : Option (List CStr)
  pTags : Option (List CStr)
  since : Option Number
  until_ : Option Number

/-- An array of strings. -/
def stringArray (strings : List CStr) : Json := .array (strings.map Json.string)

/-- An array of kinds. -/
def kindArray (kinds : List Int32) : Json := .array (kinds.map fun k => .number (.ofInt k))

namespace ReqFilter

/-- The object has the conditions of the filter, in any order, and maybe other members. -/
structure Written (f : ReqFilter) (obj : Json) : Prop where
  ids : obj.getObjectItem "ids" = f.ids.map stringArray
  authors : obj.getObjectItem "authors" = f.authors.map stringArray
  kinds : obj.getObjectItem "kinds" = f.kinds.map kindArray
  eTags : obj.getObjectItem "#e" = f.eTags.map stringArray
  pTags : obj.getObjectItem "#p" = f.pTags.map stringArray
  since : obj.getObjectItem "since" = f.since.map Json.number
  until_ : obj.getObjectItem "until" = f.until_.map Json.number

/-- The lists have room in a `sub_filter_t`. -/
structure WithinLimits (f : ReqFilter) : Prop where
  ids : (f.ids.getD []).length ≤ subMaxFilter
  authors : (f.authors.getD []).length ≤ subMaxFilter
  kinds : (f.kinds.getD []).length ≤ subMaxFilter
  eTags : (f.eTags.getD []).length ≤ subMaxFilter
  pTags : (f.pTags.getD []).length ≤ subMaxFilter

/-- The event satisfies all conditions that are given. -/
structure Accepts (f : ReqFilter) (ev : Event) : Prop where
  ids : ∀ l, f.ids = some l → ∃ start ∈ l, start <+: hexText ev.id.toList
  authors : ∀ l, f.authors = some l → ∃ start ∈ l, start <+: hexText ev.pubkey.toList
  kinds : ∀ l, f.kinds = some l → ev.kind ∈ l
  eTags : ∀ l, f.eTags = some l → ∃ value ∈ l, value ∈ ev.tags.filterMap (tagValue "e")
  pTags : ∀ l, f.pTags = some l → ∃ value ∈ l, value ∈ ev.tags.filterMap (tagValue "p")
  since : ∀ n, f.since = some n → n.valuedouble ≤ ev.createdAt.valuedouble
  until_ : ∀ n, f.until_ = some n → ev.createdAt.valuedouble ≤ n.valuedouble

/-- The event passes the conditions that are looked at: kinds and authors, unless the list is
empty, and the times, if they are positive. -/
structure PassesChecked (f : ReqFilter) (ev : Event) : Prop where
  kinds : ∀ l, f.kinds = some l → l ≠ [] → ev.kind ∈ l
  authors : ∀ l, f.authors = some l → l ≠ [] → ∃ start ∈ l, start <+: hexText ev.pubkey.toList
  since : ∀ n, f.since = some n → 0 < n.toInt64 →
    n.toInt64 ≤ ev.createdAt.valueUInt64.toInt64
  until_ : ∀ n, f.until_ = some n → 0 < n.toInt64 →
    ev.createdAt.valueUInt64.toInt64 ≤ n.toInt64

/-- The `sub_filter_t` of the filter. -/
def stored (f : ReqFilter) (limit : Int32) : SubFilter where
  ids := f.ids.getD []
  authors := f.authors.getD []
  kinds := f.kinds.getD []
  eTags := f.eTags.getD []
  pTags := f.pTags.getD []
  since := (f.since.map Number.toInt64).getD 0
  until_ := (f.until_.map Number.toInt64).getD 0
  limit := limit

end ReqFilter

/-- `filter_matches_event` on the fields of the event. -/
def SubFilter.matches (f : SubFilter) (ev : Event) : Bool :=
  f.matchesEvent ev.kind (hexText ev.pubkey.toList) ev.createdAt.valueUInt64

/-! ### The events that are reported -/

/-- `sub_match_entry_t`. -/
structure SubMatchEntry where
  connFd : Int32
  subId : CStr
deriving DecidableEq

/-- The entry of a subscription in the result, if one of its filters matches. -/
def Subscription.matchEntry (sub : Subscription) (eventKind : Int32) (pubkeyHex : CStr)
    (createdAt : UInt64) : Option SubMatchEntry :=
  if sub.filters.any (·.matchesEvent eventKind pubkeyHex createdAt) then
    some ⟨sub.connFd, sub.subId⟩
  else none

/-- `sub_manager_match_json`. -/
def SubManager.matchJson (m : SubManager) (eventKind : Int32) (pubkeyHex : CStr)
    (createdAt : UInt64) : List SubMatchEntry :=
  (List.finRange subMaxTotal).filterMap fun i =>
    (m.subs i).bind (·.matchEntry eventKind pubkeyHex createdAt)

/-! ### Runs of messages -/

/-- A `REQ`: the id, the objects and the filters they say. -/
structure Req where
  subId : CStr
  objs : List Json
  filters : List ReqFilter

/-- The text is the `REQ`, the filters are in the limits, and the first object survives being
printed and parsed once more. -/
structure Req.Sent (r : Req) (p : Platform) (data : CStr) : Prop where
  parse : p.parse data = some (.array (.string (cstr "REQ") :: .string r.subId :: r.objs))
  nonempty : r.filters ≠ []
  written : List.Forall₂ ReqFilter.Written r.filters r.objs
  limits : ∀ f ∈ r.filters, f.WithinLimits
  subId : r.subId.length ≤ subMaxIdLen
  printed : ∀ obj ∈ r.objs.head?, p.parse (p.print obj) = some obj

/-- A message of a client, as far as the subscriptions go; `allowed` is the answer of the rate
limiter, and `room` what the heap can take. -/
def SubManager.receive (p : Platform) (m : SubManager) (fd : Int32) (allowed : Bool) (room : ℕ)
    (data : CStr) : Except Fault SubManager :=
  match routerDispatch p data with
  | .req subId json =>
    if !allowed then .ok m
    else do
      let filter ← parseFilterJson p json
      return (m.add fd subId [filter] room).1
  | .close subId => .ok (m.remove fd subId).1
  | _ => .ok m

/-- What happens to the subscriptions. -/
inductive SubAction where
  /-- A `REQ`. -/
  | req (fd : Int32) (allowed : Bool) (room : ℕ) (data : CStr) (r : Req)
  /-- Another message. -/
  | message (fd : Int32) (allowed : Bool) (room : ℕ) (data : CStr)
  /-- A connection closes. -/
  | disconnect (fd : Int32)

/-- A `REQ` is as NIP-01 has it, and another message is none. -/
def SubAction.Valid (p : Platform) : SubAction → Prop
  | .req _ _ _ data r => r.Sent p data
  | .message _ _ _ data => ∀ subId filters, routerDispatch p data ≠ .req subId filters
  | .disconnect _ => True

/-- The subscriptions, and the filters of the last `REQ` of each connection and id. -/
structure SubTable where
  manager : SubManager
  requested : Int32 → CStr → List ReqFilter

namespace SubTable

/-- After `sub_manager_init`. -/
def init : SubTable := ⟨.init, fun _ _ => []⟩

/-- One step. No message faults that `Valid` lets through (`receive_req`, `receive_message`). -/
def step (p : Platform) (t : SubTable) : SubAction → SubTable
  | .req fd allowed room data r =>
    { manager := (t.manager.receive p fd allowed room data).toOption.getD t.manager
      requested := fun fd' subId =>
        if allowed ∧ fd' = fd ∧ subId = r.subId then r.filters else t.requested fd' subId }
  | .message fd allowed room data =>
    { t with manager := (t.manager.receive p fd allowed room data).toOption.getD t.manager }
  | .disconnect fd => { t with manager := t.manager.removeAll fd }

/-- The table after the actions. -/
def reach (p : Platform) (actions : List SubAction) : SubTable := run (step p) init actions

/-- The subscription is in the table. -/
def Active (t : SubTable) (sub : Subscription) : Prop := ∃ i, t.manager.subs i = some sub

/-- The entries for an event that comes in. -/
def matched (t : SubTable) (ev : Event) : List SubMatchEntry :=
  t.manager.matchJson ev.kind (hexText ev.pubkey.toList) ev.createdAt.valueUInt64

/-- Exactly the subscriptions are reported that asked for the event, each once. -/
def Reports (t : SubTable) (ev : Event) : Prop :=
  (t.matched ev).Nodup ∧ ∀ entry, entry ∈ t.matched ev ↔
    ∃ sub, t.Active sub ∧ entry = ⟨sub.connFd, sub.subId⟩ ∧
      ∃ f ∈ t.requested sub.connFd sub.subId, f.Accepts ev

/-- The first filter passes the conditions that are looked at, and no filter of the request
accepts the event. -/
def ReportedWrongly (t : SubTable) (sub : Subscription) (ev : Event) : Prop :=
  sub.filters ≠ [] ∧ (∃ f ∈ (t.requested sub.connFd sub.subId).head?, f.PassesChecked ev) ∧
    ∀ f ∈ t.requested sub.connFd sub.subId, ¬ f.Accepts ev

/-- A filter of the request accepts the event, and its first one does not pass or was not
copied, for want of memory. -/
def Overlooked (t : SubTable) (sub : Subscription) (ev : Event) : Prop :=
  (∃ f ∈ t.requested sub.connFd sub.subId, f.Accepts ev) ∧
    (sub.filters = [] ∨ ∀ f ∈ (t.requested sub.connFd sub.subId).head?, ¬ f.PassesChecked ev)

end SubTable

/-! ### Filters read from JSON -/

theorem hexPrefixMatch_iff {start full : CStr} :
    hexPrefixMatch start full = true ↔ start <+: full := by
  unfold hexPrefixMatch
  split
  · next hzero =>
    rw [List.length_eq_zero_iff.mp hzero]
    exact iff_of_true rfl List.nil_prefix
  · split
    · next hlong =>
      refine iff_of_false Bool.false_ne_true fun hpre => ?_
      have := hpre.length_le
      omega
    · rw [decide_eq_true_eq, List.prefix_iff_eq_take]
      exact eq_comm

section Parsing

variable {f : ReqFilter} {obj : Json} {name : String} {strings : Option (List CStr)}

theorem filterItems_array {items : List Json} (h : obj.getObjectItem name = some (.array items))
    (hlen : items.length ≤ subMaxFilter) : filterItems obj name = items := by
  rw [filterItems, h, Option.bind_some, Json.asArray, Option.getD_some, List.take_of_length_le hlen]

theorem filterItems_none (h : obj.getObjectItem name = none) : filterItems obj name = [] := by
  rw [filterItems, h]
  rfl

/-- Strings are read as they are. -/
theorem filterStrings_eq (h : obj.getObjectItem name = strings.map stringArray)
    (hlen : (strings.getD []).length ≤ subMaxFilter) :
    filterStrings obj name = .ok (strings.getD []) := by
  unfold filterStrings
  cases strings with
  | none =>
    rw [filterItems_none h]
    rfl
  | some l =>
    rw [filterItems_array h (by rwa [List.length_map]), Option.getD_some]
    clear h hlen
    induction l with
    | nil => rfl
    | cons s l ih =>
      rw [List.map_cons, List.mapM_cons, ih]
      rfl

/-- `parse_filter_json` reads all conditions of a filter. -/
theorem parseFilterJson_of_written {p : Platform} {json : CStr} (hparse : p.parse json = some obj)
    (hwritten : f.Written obj) (hlimits : f.WithinLimits) :
    ∃ limit, parseFilterJson p json = .ok (f.stored limit) := by
  refine ⟨((obj.getObjectItem "limit").map Json.valueint).getD 0, ?_⟩
  have hkinds : (filterItems obj "kinds").map Json.valueint = f.kinds.getD [] := by
    have h := hwritten.kinds
    have hlen := hlimits.kinds
    cases hk : f.kinds with
    | none =>
      rw [hk] at h
      rw [filterItems_none h]
      rfl
    | some l =>
      rw [hk] at h hlen
      rw [filterItems_array h (by rwa [List.length_map]), List.map_map]
      exact List.map_id l
  have htime : ∀ name (o : Option Number), obj.getObjectItem name = o.map Json.number →
      filterTime obj name = (o.map Number.toInt64).getD 0 := by
    intro name o h
    rw [filterTime, h, Option.map_map]
    rfl
  rw [parseFilterJson, hparse]
  simp only [filterStrings_eq hwritten.ids hlimits.ids,
    filterStrings_eq hwritten.authors hlimits.authors,
    filterStrings_eq hwritten.eTags hlimits.eTags, filterStrings_eq hwritten.pTags hlimits.pTags,
    hkinds, htime _ _ hwritten.since, htime _ _ hwritten.until_]
  rfl

/-- A test on a list is none on the empty list. -/
theorem listTest_iff {α : Type} (l : Option (List α)) (P : List α → Prop) :
    ¬ (l.getD [] ≠ [] ∧ ¬ P (l.getD [])) ↔ ∀ k, l = some k → k ≠ [] → P k := by
  cases l with
  | none => simp
  | some k => simp

/-- A time is looked at if it is positive. -/
theorem timeTest_iff (n : Option Number) (P : Int64 → Prop) :
    ¬ (0 < (n.map Number.toInt64).getD 0 ∧ ¬ P ((n.map Number.toInt64).getD 0)) ↔
      ∀ k, n = some k → 0 < k.toInt64 → P k.toInt64 := by
  cases n with
  | none => simp
  | some k => simp

/-- The matcher looks at four of the conditions. -/
theorem matches_stored_iff (f : ReqFilter) (limit : Int32) (ev : Event) :
    (f.stored limit).matches ev = true ↔ f.PassesChecked ev := by
  have hauthors : (∀ a ∈ f.authors.getD [], hexPrefixMatch a (hexText ev.pubkey.toList) = false) ↔
      ¬ ∃ start ∈ f.authors.getD [], start <+: hexText ev.pubkey.toList := by
    simp only [← hexPrefixMatch_iff, not_exists, not_and, Bool.not_eq_true]
  have hbefore : ∀ t : Int64, ev.createdAt.valueUInt64.toInt64 < t ↔
      ¬ t ≤ ev.createdAt.valueUInt64.toInt64 := fun t => Int64.not_le.symm
  have hafter : ∀ t : Int64, t < ev.createdAt.valueUInt64.toInt64 ↔
      ¬ ev.createdAt.valueUInt64.toInt64 ≤ t := fun t => Int64.not_le.symm
  rw [← Bool.not_eq_false, SubFilter.matches, matchesEvent_eq_false_iff, SubFilter.Rejects]
  simp only [ReqFilter.stored, hauthors, hbefore, hafter, not_or]
  rw [listTest_iff f.kinds fun l => ev.kind ∈ l,
    listTest_iff f.authors fun l => ∃ start ∈ l, start <+: hexText ev.pubkey.toList,
    timeTest_iff f.since fun t => t ≤ ev.createdAt.valueUInt64.toInt64,
    timeTest_iff f.until_ fun t => ev.createdAt.valueUInt64.toInt64 ≤ t]
  exact ⟨fun ⟨hk, ha, hs, hu⟩ => ⟨hk, ha, hs, hu⟩,
    fun ⟨hk, ha, hs, hu⟩ => ⟨hk, ha, hs, hu⟩⟩

end Parsing

/-! ### The subscription table under each action -/

/-- What a new filter becomes in the table: a copy of itself, or nothing. -/
def Copied (f : SubFilter) (copies : List SubFilter) : Prop := copies = [] ∨ copies = [f]

/-- The lists are not longer than those of `sub_filter_t`. -/
structure SubFilter.WithinLimits (f : SubFilter) : Prop where
  ids : f.ids.length ≤ subMaxFilter
  authors : f.authors.length ≤ subMaxFilter
  kinds : f.kinds.length ≤ subMaxFilter
  eTags : f.eTags.length ≤ subMaxFilter
  pTags : f.pTags.length ≤ subMaxFilter

theorem ReqFilter.WithinLimits.stored {f : ReqFilter} (h : f.WithinLimits) (limit : Int32) :
    (f.stored limit).WithinLimits :=
  ⟨h.ids, h.authors, h.kinds, h.eTags, h.pTags⟩

/-- A copy is the filter itself. -/
theorem filterCopy_eq {f copy : SubFilter} {room rest : ℕ} (hf : f.WithinLimits)
    (h : filterCopy room f = some (copy, rest)) : copy = f := by
  unfold filterCopy at h
  simp only [Option.bind_eq_bind, Option.bind_eq_some_iff, Option.pure_def, Option.some.injEq,
    Prod.mk.injEq] at h
  obtain ⟨-, -, -, -, -, -, -, -, rfl, -⟩ := h
  rw [List.take_of_length_le hf.ids, List.take_of_length_le hf.authors,
    List.take_of_length_le hf.kinds, List.take_of_length_le hf.eTags,
    List.take_of_length_le hf.pTags]

theorem copied_copyFilters {f : SubFilter} (hf : f.WithinLimits) (room : ℕ) :
    Copied f (copyFilters room ([f].take subMaxFilters)).1 := by
  change Copied f (copyFilters room [f]).1
  unfold copyFilters
  split
  · exact .inl rfl
  · next copy rest hcopy =>
    rw [filterCopy_eq hf hcopy]
    exact .inr rfl

namespace SubManager

variable {p : Platform} {m : SubManager} {fd : Int32} {subId : CStr} {f : SubFilter} {room : ℕ}

/-- The pairs of descriptor and id are those of one subscription each. -/
def Distinct (m : SubManager) : Prop :=
  ∀ i j sub sub', m.subs i = some sub → m.subs j = some sub' → sub.connFd = sub'.connFd →
    sub.subId = sub'.subId → i = j

theorem findSub_eq_some {i : Fin subMaxTotal} (h : m.findSub fd subId = some i) :
    ∃ sub, m.subs i = some sub ∧ sub.connFd = fd ∧ sub.subId = subId := by
  obtain ⟨sub, hsub, htest⟩ := Slots.find_eq_some h
  simp only [Bool.and_eq_true, decide_eq_true_eq] at htest
  exact ⟨sub, hsub, htest⟩

theorem findSub_eq_none {i : Fin subMaxTotal} {sub : Subscription}
    (h : m.findSub fd subId = none) (hi : m.subs i = some sub) :
    ¬ (sub.connFd = fd ∧ sub.subId = subId) := by
  have htest := Slots.find_eq_none h hi
  simpa only [Bool.and_eq_false_iff, decide_eq_false_iff_not, ← not_and_or] using htest

/-- A new filter goes to the subscription of its id, to a free slot if there is none, or it is
refused. -/
theorem add_one (hf : f.WithinLimits) (m : SubManager) (fd : Int32) (subId : CStr) (room : ℕ) :
    (∃ i old copies, m.subs i = some old ∧ old.connFd = fd ∧ old.subId = subId ∧
        Copied f copies ∧
        (m.add fd subId [f] room).1.subs = m.subs.put i { old with filters := copies }) ∨
      (m.findSub fd subId = none ∧ ∃ i copies, m.subs i = none ∧ Copied f copies ∧
        (m.add fd subId [f] room).1.subs =
          m.subs.put i ⟨subId.take subMaxIdLen, fd, copies⟩) ∨
      (m.findSub fd subId = none ∧ (m.add fd subId [f] room).1 = m) := by
  have hcopied := copied_copyFilters hf room
  unfold add
  cases hfind : m.findSub fd subId with
  | some i =>
    obtain ⟨old, hold, hfd, hid⟩ := findSub_eq_some hfind
    refine .inl ⟨i, old, _, hold, hfd, hid, hcopied, ?_⟩
    simp only [hold, Option.map_some]
    rfl
  | none =>
    by_cases hfull : subMaxPerConn ≤ m.count fd
    · exact .inr (.inr ⟨rfl, by simp only [if_pos hfull]⟩)
    · simp only [if_neg hfull]
      cases hfree : m.subs.firstFree with
      | none => exact .inr (.inr ⟨trivial, rfl⟩)
      | some i =>
        by_cases hcomplete : (copyFilters room ([f].take subMaxFilters)).2 = true
        · refine .inr (.inl ⟨trivial, i, _, Slots.firstFree_eq_some hfree, hcopied, ?_⟩)
          simp only [if_pos hcomplete]
        · exact .inr (.inr ⟨trivial, by simp only [if_neg hcomplete]⟩)

/-- Of a `REQ` the first object goes to the handler. -/
theorem dispatch_req {r : Req} {data : CStr} (h : r.Sent p data) :
    ∃ first rest obj, r.filters = first :: rest ∧ first.Written obj ∧
      p.parse (p.print obj) = some obj ∧ routerDispatch p data = .req r.subId (p.print obj) := by
  obtain ⟨first, rest, hfilters⟩ := List.exists_cons_of_ne_nil h.nonempty
  have hwritten := h.written
  rw [hfilters] at hwritten
  obtain ⟨obj, objs, hfirst, -, hobjs⟩ := List.forall₂_cons_left_iff.mp hwritten
  refine ⟨first, rest, obj, hfilters, hfirst, h.printed obj (hobjs ▸ rfl), ?_⟩
  have hne : cstr "REQ" ≠ cstr "EVENT" := by decide
  unfold routerDispatch
  rw [h.parse, hobjs]
  simp [Json.asArray, Json.asString, hne]

/-- A `REQ` adds its first filter. -/
theorem receive_req {r : Req} {data : CStr} (h : r.Sent p data) (m : SubManager) (fd : Int32)
    (room : ℕ) :
    ∃ first rest limit, r.filters = first :: rest ∧ (first.stored limit).WithinLimits ∧
      m.receive p fd true room data = .ok (m.add fd r.subId [first.stored limit] room).1 := by
  obtain ⟨first, rest, obj, hfilters, hfirst, hprinted, hdispatch⟩ := dispatch_req h
  have hlimits : first.WithinLimits := h.limits first (hfilters ▸ List.mem_cons_self)
  obtain ⟨limit, hparse⟩ := parseFilterJson_of_written hprinted hfirst hlimits
  refine ⟨first, rest, limit, hfilters, hlimits.stored limit, ?_⟩
  rw [receive, hdispatch]
  simp only [Bool.not_true, Bool.false_eq_true, if_false, hparse]
  rfl

/-- A refused `REQ` does nothing. -/
theorem receive_refused {r : Req} {data : CStr} (h : r.Sent p data) (m : SubManager) (fd : Int32)
    (room : ℕ) : m.receive p fd false room data = .ok m := by
  obtain ⟨-, -, obj, -, -, -, hdispatch⟩ := dispatch_req h
  rw [receive, hdispatch]
  rfl

/-- Any other message can only remove a subscription. -/
theorem receive_message {data : CStr}
    (h : ∀ subId filters, routerDispatch p data ≠ .req subId filters) (m : SubManager)
    (fd : Int32) (allowed : Bool) (room : ℕ) :
    ∃ m', m.receive p fd allowed room data = .ok m' ∧
      ∀ i sub, m'.subs i = some sub → m.subs i = some sub := by
  unfold receive
  cases hcall : routerDispatch p data with
  | req subId filters => exact absurd hcall (h subId filters)
  | close subId => exact ⟨_, rfl, fun i sub => subs_remove⟩
  | event json => exact ⟨m, rfl, fun i sub => id⟩
  | notice message => exact ⟨m, rfl, fun i sub => id⟩
  | nothing => exact ⟨m, rfl, fun i sub => id⟩

end SubManager

/-! ### What a run keeps -/

namespace SubTable

variable {p : Platform} {t : SubTable}

/-- A subscription has at most the first filter of its request, and no two have the same
descriptor and id. -/
structure Faithful (t : SubTable) : Prop where
  distinct : t.manager.Distinct
  copied : ∀ sub, t.Active sub → ∃ first rest limit,
    t.requested sub.connFd sub.subId = first :: rest ∧ Copied (first.stored limit) sub.filters

theorem faithful_init : init.Faithful where
  distinct := fun _ _ _ _ h => absurd h (Option.some_ne_none _).symm
  copied := fun _ ⟨_, h⟩ => absurd h (Option.some_ne_none _).symm

namespace Faithful

/-- Subscriptions may go. -/
theorem of_fewer (h : t.Faithful) {m : SubManager}
    (hm : ∀ i sub, m.subs i = some sub → t.manager.subs i = some sub) :
    Faithful { t with manager := m } where
  distinct := fun i j sub sub' hi hj => h.distinct i j sub sub' (hm i sub hi) (hm j sub' hj)
  copied := fun sub ⟨i, hi⟩ => h.copied sub ⟨i, hm i sub hi⟩

section Request

variable {fd : Int32} {subId : CStr} {first : ReqFilter} {rest : List ReqFilter} {limit : Int32}

/-- The subscription of the descriptor and id is put into a slot, and there is no other. -/
theorem put (h : t.Faithful) {m : SubManager} {i : Fin subMaxTotal} {new : Subscription}
    (hm : m.subs = t.manager.subs.put i new) (hfd : new.connFd = fd) (hid : new.subId = subId)
    (hnew : Copied (first.stored limit) new.filters)
    (hother : ∀ j sub, j ≠ i → t.manager.subs j = some sub →
      ¬ (sub.connFd = fd ∧ sub.subId = subId)) :
    Faithful ⟨m, fun fd' subId' =>
      if fd' = fd ∧ subId' = subId then first :: rest else t.requested fd' subId'⟩ where
  distinct := by
    intro j k sub sub' hj hk hfds hids
    rw [hm, Slots.put_eq_some] at hj hk
    obtain ⟨rfl, rfl⟩ | ⟨hji, hj⟩ := hj
    · obtain ⟨rfl, rfl⟩ | ⟨hki, hk⟩ := hk
      · rfl
      · exact absurd ⟨hfds.symm.trans hfd, hids.symm.trans hid⟩ (hother k sub' hki hk)
    · obtain ⟨rfl, rfl⟩ | ⟨hki, hk⟩ := hk
      · exact absurd ⟨hfds.trans hfd, hids.trans hid⟩ (hother j sub hji hj)
      · exact h.distinct j k sub sub' hj hk hfds hids
  copied := by
    rintro sub ⟨j, hj⟩
    change m.subs j = some sub at hj
    rw [hm, Slots.put_eq_some] at hj
    obtain ⟨rfl, rfl⟩ | ⟨hji, hj⟩ := hj
    · refine ⟨first, rest, limit, ?_, hnew⟩
      exact if_pos ⟨hfd, hid⟩
    · obtain ⟨first', rest', limit', hrequested, hcopied⟩ := h.copied sub ⟨j, hj⟩
      refine ⟨first', rest', limit', ?_, hcopied⟩
      exact (if_neg (hother j sub hji hj)).trans hrequested

/-- A new filter comes with its request. -/
theorem add (h : t.Faithful) (hlimits : (first.stored limit).WithinLimits)
    (hlength : subId.length ≤ subMaxIdLen) (room : ℕ) :
    Faithful ⟨(t.manager.add fd subId [first.stored limit] room).1, fun fd' subId' =>
      if fd' = fd ∧ subId' = subId then first :: rest else t.requested fd' subId'⟩ := by
  obtain ⟨i, old, copies, hold, hfd, hid, hcopied, hadd⟩ |
    ⟨hnone, i, copies, hfree, hcopied, hadd⟩ | ⟨hnone, hadd⟩ :=
    SubManager.add_one hlimits t.manager fd subId room
  · refine h.put hadd hfd hid hcopied ?_
    rintro j sub hji hj ⟨hfd', hid'⟩
    exact hji (h.distinct j i sub old hj hold (hfd'.trans hfd.symm) (hid'.trans hid.symm))
  · refine h.put hadd rfl (List.take_of_length_le hlength) hcopied ?_
    intro j sub _ hj
    exact SubManager.findSub_eq_none hnone hj
  · -- there is no subscription that the request could belong to
    rw [hadd]
    refine ⟨h.distinct, ?_⟩
    rintro sub ⟨j, hj⟩
    obtain ⟨first', rest', limit', hrequested, hcopied⟩ := h.copied sub ⟨j, hj⟩
    refine ⟨first', rest', limit', ?_, hcopied⟩
    exact (if_neg (SubManager.findSub_eq_none hnone hj)).trans hrequested

end Request

end Faithful

/-- No action leads the table astray. -/
theorem faithful_step (h : t.Faithful) {a : SubAction} (ha : a.Valid p) :
    (t.step p a).Faithful := by
  cases a with
  | req fd allowed room data r =>
    cases allowed with
    | false =>
      simp only [step, SubManager.receive_refused ha, Bool.false_eq_true, false_and, if_false]
      exact h
    | true =>
      obtain ⟨first, rest, limit, hfilters, hlimits, hreceive⟩ :=
        SubManager.receive_req ha t.manager fd room
      simp only [step, hreceive, hfilters, true_and]
      exact h.add hlimits ha.subId room
  | message fd allowed room data =>
    obtain ⟨m, hreceive, hfewer⟩ := SubManager.receive_message ha t.manager fd allowed room
    simp only [step, hreceive]
    exact h.of_fewer hfewer
  | disconnect fd => exact h.of_fewer fun i sub hi => (SubManager.subs_removeAll.mp hi).1

theorem faithful_reach {actions : List SubAction} (h : ∀ a ∈ actions, a.Valid p) :
    (reach p actions).Faithful := by
  refine run_guarded (G := fun _ a => a.Valid p) (fun t a ht ha => ?_) faithful_init ?_
  · exact faithful_step ht ha
  · refine allSteps_iff.mpr fun front a back hactions => h a ?_
    rw [hactions]
    exact List.mem_append_right front List.mem_cons_self

/-! ### What is reported -/

theorem matchEntry_eq_some {sub : Subscription} {ev : Event} {entry : SubMatchEntry} :
    sub.matchEntry ev.kind (hexText ev.pubkey.toList) ev.createdAt.valueUInt64 = some entry ↔
      entry = ⟨sub.connFd, sub.subId⟩ ∧ ∃ f ∈ sub.filters, f.matches ev = true := by
  unfold Subscription.matchEntry
  rw [Option.ite_none_right_eq_some, List.any_eq_true, Option.some.injEq, and_comm, eq_comm]
  rfl

theorem mem_matched {ev : Event} {entry : SubMatchEntry} :
    entry ∈ t.matched ev ↔ ∃ sub, t.Active sub ∧ entry = ⟨sub.connFd, sub.subId⟩ ∧
      ∃ f ∈ sub.filters, f.matches ev = true := by
  unfold matched SubManager.matchJson
  simp only [List.mem_filterMap, List.mem_finRange, true_and, Option.bind_eq_some_iff,
    matchEntry_eq_some]
  refine ⟨?_, ?_⟩
  · rintro ⟨i, sub, hsub, hentry⟩
    exact ⟨sub, ⟨i, hsub⟩, hentry⟩
  · rintro ⟨sub, ⟨i, hsub⟩, hentry⟩
    exact ⟨i, sub, hsub, hentry⟩

/-- An entry comes from one slot only. -/
theorem Faithful.nodup_matched (h : t.Faithful) (ev : Event) : (t.matched ev).Nodup := by
  refine List.Nodup.filterMap ?_ (List.nodup_finRange subMaxTotal)
  intro i j entry hi hj
  obtain ⟨sub, hsub, hentry⟩ := Option.bind_eq_some_iff.mp hi
  obtain ⟨sub', hsub', hentry'⟩ := Option.bind_eq_some_iff.mp hj
  have hsame := (matchEntry_eq_some.mp hentry).1.symm.trans (matchEntry_eq_some.mp hentry').1
  rw [SubMatchEntry.mk.injEq] at hsame
  exact h.distinct i j sub sub' hsub hsub' hsame.1 hsame.2

/-- A subscription is reported if its first filter was copied and passes the conditions that
are looked at. -/
theorem Faithful.matches_iff (h : t.Faithful) {sub : Subscription} (hsub : t.Active sub)
    (ev : Event) :
    (∃ f ∈ sub.filters, f.matches ev = true) ↔ sub.filters ≠ [] ∧
      ∃ f ∈ (t.requested sub.connFd sub.subId).head?, f.PassesChecked ev := by
  obtain ⟨first, rest, limit, hrequested, hcopied⟩ := h.copied sub hsub
  have hfirst : (∃ f ∈ (t.requested sub.connFd sub.subId).head?, f.PassesChecked ev) ↔
      first.PassesChecked ev := by
    simp [hrequested]
  rw [hfirst]
  obtain hnone | hone := hcopied
  · simp [hnone]
  · simp [hone, matches_stored_iff]

/-- For one descriptor and id there is one subscription. -/
theorem Faithful.active_unique (h : t.Faithful) {sub sub' : Subscription} (hsub : t.Active sub)
    (hsub' : t.Active sub')
    (hentry : (⟨sub.connFd, sub.subId⟩ : SubMatchEntry) = ⟨sub'.connFd, sub'.subId⟩) :
    sub = sub' := by
  obtain ⟨i, hi⟩ := hsub
  obtain ⟨j, hj⟩ := hsub'
  rw [SubMatchEntry.mk.injEq] at hentry
  obtain rfl := h.distinct i j sub sub' hi hj hentry.1 hentry.2
  exact Option.some.inj (hi.symm.trans hj)

/-- Subscription by subscription. -/
theorem Faithful.reports_iff_forall (h : t.Faithful) (ev : Event) :
    t.Reports ev ↔ ∀ sub, t.Active sub → ((∃ f ∈ sub.filters, f.matches ev = true) ↔
      ∃ f ∈ t.requested sub.connFd sub.subId, f.Accepts ev) := by
  refine ⟨?_, ?_⟩
  · rintro ⟨-, hreports⟩ sub hsub
    have hentry := hreports ⟨sub.connFd, sub.subId⟩
    rw [mem_matched] at hentry
    refine ⟨fun hmatches => ?_, fun haccepts => ?_⟩
    · obtain ⟨sub', hsub', heq, haccepts⟩ := hentry.mp ⟨sub, hsub, rfl, hmatches⟩
      obtain rfl := h.active_unique hsub hsub' heq
      exact haccepts
    · obtain ⟨sub', hsub', heq, hmatches⟩ := hentry.mpr ⟨sub, hsub, rfl, haccepts⟩
      obtain rfl := h.active_unique hsub hsub' heq
      exact hmatches
  · intro hall
    refine ⟨h.nodup_matched ev, fun entry => ?_⟩
    rw [mem_matched]
    refine exists_congr fun sub => and_congr_right fun hsub => and_congr_right fun _ => ?_
    exact hall sub hsub

theorem Faithful.reports_iff (h : t.Faithful) (ev : Event) :
    t.Reports ev ↔
      ∀ sub, t.Active sub → ¬ t.ReportedWrongly sub ev ∧ ¬ t.Overlooked sub ev := by
  rw [h.reports_iff_forall]
  refine forall_congr' fun sub => forall_congr' fun hsub => ?_
  rw [h.matches_iff hsub]
  -- what is wrong is a report without a filter that accepts, or the other way round
  have hwrongly : t.ReportedWrongly sub ev ↔
      (sub.filters ≠ [] ∧ ∃ f ∈ (t.requested sub.connFd sub.subId).head?, f.PassesChecked ev) ∧
        ¬ ∃ f ∈ t.requested sub.connFd sub.subId, f.Accepts ev := by
    unfold ReportedWrongly
    rw [and_assoc]
    push Not
    rfl
  have hoverlooked : t.Overlooked sub ev ↔
      (∃ f ∈ t.requested sub.connFd sub.subId, f.Accepts ev) ∧
        ¬ (sub.filters ≠ [] ∧
          ∃ f ∈ (t.requested sub.connFd sub.subId).head?, f.PassesChecked ev) := by
    unfold Overlooked
    rw [not_and_or, not_ne_iff]
    push Not
    rfl
  rw [hwrongly, hoverlooked, not_and_not_right, not_and_not_right]
  exact iff_iff_implies_and_implies

end SubTable

/-- **Exactly when an event is reported to those who asked for it.** After any messages and
closed connections, for every event: no request whose first filter passes the conditions that
are looked at is without a filter that accepts the event, and none with such a filter has a
first one that fails or was not copied. -/
theorem matchJson_reports_iff (p : Platform) (actions : List SubAction)
    (hactions : ∀ a ∈ actions, a.Valid p) (ev : Event) :
    (SubTable.reach p actions).Reports ev ↔
      ∀ sub, (SubTable.reach p actions).Active sub →
        ¬ (SubTable.reach p actions).ReportedWrongly sub ev ∧
          ¬ (SubTable.reach p actions).Overlooked sub ev :=
  (SubTable.faithful_reach hactions).reports_iff ev

/-! ### Two requests -/

/-- A filter for an id. -/
def idFilter : ReqFilter := ⟨some [cstr "ff"], none, none, none, none, none, none⟩

/-- A filter for a kind. -/
def kindFilter : ReqFilter := ⟨none, none, some [7], none, none, none, none⟩

/-- Their objects. -/
def idObject : Json := .object [(cstr "ids", stringArray [cstr "ff"])]

def kindObject : Json := .object [(cstr "kinds", kindArray [7])]

/-- A request with one filter, written like this. -/
def requestText (filter : CStr) : CStr := cstr "[\"REQ\",\"s\"," ++ filter ++ cstr "]"

/-- `cJSON` on an object, and on the request with it. -/
def requestPlatform (filter : CStr) (obj : Json) : Platform :=
  { textPlatform [(filter, obj),
      (requestText filter, .array [.string (cstr "REQ"), .string (cstr "s"), obj])] with
    print := fun _ => filter }

/-- The request comes in. -/
def requestRun (filter : CStr) (obj : Json) (f : ReqFilter) : List SubAction :=
  [.req 3 true 100 (requestText filter) ⟨cstr "s", [obj], [f]⟩]

/-- The texts of the objects. -/
def idText : CStr := cstr "\x7b\"ids\":[\"ff\"]\x7d"

def kindText : CStr := cstr "\x7b\"kinds\":[7]\x7d"

theorem valid_requestRun {filter : CStr} {obj : Json} {f : ReqFilter}
    (hne : filter ≠ requestText filter) (hwritten : f.Written obj) (hlimits : f.WithinLimits) :
    ∀ a ∈ requestRun filter obj f, a.Valid (requestPlatform filter obj) := by
  intro a ha
  obtain rfl := List.mem_singleton.mp ha
  have hid : (cstr "s").length ≤ subMaxIdLen := by decide
  refine ⟨?_, List.cons_ne_nil f [], .cons hwritten .nil, ?_, hid, ?_⟩
  · simp [requestPlatform, textPlatform, hne]
  · intro f' hf'
    obtain rfl := List.mem_singleton.mp hf'
    exact hlimits
  · intro obj' hobj'
    obtain rfl := Option.some.inj hobj'
    simp [requestPlatform, textPlatform]

theorem valid_idRun : ∀ a ∈ requestRun idText idObject idFilter,
    a.Valid (requestPlatform idText idObject) :=
  valid_requestRun (by decide) ⟨rfl, rfl, rfl, rfl, rfl, rfl, rfl⟩
    ⟨by decide, by decide, by decide, by decide, by decide⟩

theorem valid_kindRun : ∀ a ∈ requestRun kindText kindObject kindFilter,
    a.Valid (requestPlatform kindText kindObject) :=
  valid_requestRun (by decide) ⟨rfl, rfl, rfl, rfl, rfl, rfl, rfl⟩
    ⟨by decide, by decide, by decide, by decide, by decide⟩

/-- Nothing else is asked for. -/
theorem requested_requestRun {filter : CStr} {obj : Json} {f f' : ReqFilter} {fd : Int32}
    {subId : CStr} (h : f' ∈ (SubTable.reach (requestPlatform filter obj)
      (requestRun filter obj f)).requested fd subId) : f' = f := by
  change f' ∈ (if true = true ∧ fd = 3 ∧ subId = cstr "s" then [f] else []) at h
  split at h
  · exact List.mem_singleton.mp h
  · cases h

/-- An event is reported for an id that it has not. -/
theorem foreign_id_reported :
    (∀ a ∈ requestRun idText idObject idFilter, a.Valid (requestPlatform idText idObject)) ∧
      ¬ (SubTable.reach (requestPlatform idText idObject)
        (requestRun idText idObject idFilter)).Reports reaction := by
  refine ⟨valid_idRun, ?_⟩
  rintro ⟨-, hreports⟩
  have hmem : ⟨3, cstr "s"⟩ ∈ (SubTable.reach (requestPlatform idText idObject)
      (requestRun idText idObject idFilter)).matched reaction := by
    decide
  obtain ⟨sub, -, -, f, hf, haccepts⟩ := (hreports _).mp hmem
  obtain rfl := requested_requestRun hf
  obtain ⟨start, hstart, hpre⟩ := haccepts.ids _ rfl
  obtain rfl := List.mem_singleton.mp hstart
  exact absurd hpre (by decide)

theorem accepts_kindFilter : kindFilter.Accepts reaction := by
  refine ⟨?_, ?_, ?_, ?_, ?_, ?_, ?_⟩
  all_goals
    intro l hl
    cases hl
  exact List.mem_singleton_self _

theorem passes_kindFilter : kindFilter.PassesChecked reaction := by
  refine ⟨?_, ?_, ?_, ?_⟩
  all_goals
    intro l hl
    cases hl
  exact fun _ => List.mem_singleton_self _

/-- An event is reported for its kind. -/
theorem matchJson_reports_kind :
    (∀ a ∈ requestRun kindText kindObject kindFilter,
        a.Valid (requestPlatform kindText kindObject)) ∧
      (SubTable.reach (requestPlatform kindText kindObject)
        (requestRun kindText kindObject kindFilter)).Reports reaction := by
  refine ⟨valid_kindRun, ?_⟩
  refine (matchJson_reports_iff _ _ valid_kindRun reaction).mpr ?_
  rintro sub ⟨i, hi⟩
  have hone : (SubTable.reach (requestPlatform kindText kindObject)
      (requestRun kindText kindObject kindFilter)).manager.subs =
        Slots.empty.put 0 ⟨cstr "s", 3, [kindFilter.stored 0]⟩ := rfl
  have hkept : sub.filters ≠ [] := by
    rw [hone, Slots.put_eq_some] at hi
    obtain ⟨-, rfl⟩ | ⟨-, hi⟩ := hi
    · exact List.cons_ne_nil _ _
    · cases hi
  refine ⟨?_, ?_⟩
  · rintro ⟨-, ⟨f, hf, -⟩, hnone⟩
    have hmem := List.mem_of_mem_head? hf
    exact hnone f hmem (requested_requestRun hmem ▸ accepts_kindFilter)
  · rintro ⟨⟨f, hf, -⟩, hempty | hfails⟩
    · exact hkept hempty
    · obtain ⟨first, rest, hrequested⟩ := List.exists_cons_of_ne_nil (List.ne_nil_of_mem hf)
      have hfirst := requested_requestRun (hrequested ▸ List.mem_cons_self)
      refine hfails first ?_ (hfirst ▸ passes_kindFilter)
      rw [hrequested]
      exact rfl

end Relay

end TollGate
