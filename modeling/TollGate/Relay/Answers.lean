import TollGate.Lib.JsonSplice
import TollGate.Relay.Matching
import TollGate.Relay.SubTable

/-!
# Answers under a subscription id

`router_send_event` copies the subscription id between two quotes, `router_send_eose` and
`router_send_closed` have it printed. `handle_req` gives all three the id of the request, and the
fan-out gives the first one what the table keeps of it.

`Registry` is the table over its calls, with the ids that clients registered for each slot.
`answers_agree_iff` says for which ids all answers are valid and name the same subscription: those
without quotes, backslashes and control characters that fit into their field.
-/

namespace TollGate

namespace Relay

open CStr CJson JsonText StepRun

/-! ### The answers -/

/-- `router_send_event`: the `n` bytes that are sent of its buffer. -/
def routerSendEvent (subId eventJson : CStr) (eventLen : ℕ) : CStr :=
  let bufSize := eventLen + subId.length + 32
  let text := cstr "[\"EVENT\",\"" ++ subId ++ cstr "\"," ++ eventJson.take eventLen ++ cstr "]"
  let buf := snprintf bufSize text ++ [0]
  let n := text.length
  buf.take n

/-- `router_send_eose`. -/
def routerSendEose (printer : Json → CStr) (subId : CStr) : CStr :=
  printer (.array [.string (cstr "EOSE"), .string subId])

/-- `router_send_closed`. -/
def routerSendClosed (printer : Json → CStr) (subId : CStr) (message : Option CStr) : CStr :=
  printer (.array [.string (cstr "CLOSED"), .string subId, .string (message.getD [])])

/-- What is sent for a reply of `handle_req`. -/
def Reply.text (printer : Json → CStr) : Reply → CStr
  | .event subId _ json => routerSendEvent subId json json.length
  | .eose subId => routerSendEose printer subId
  | .closed subId message => routerSendClosed printer subId (some message)

/-- `broadcaster_fanout_json`: what is sent to which descriptor. -/
def broadcasterFanoutJson (m : SubManager) (eventJson : CStr) (eventLen : ℕ) (eventKind : Int32)
    (pubkeyHex : CStr) (createdAt : UInt64) : List (Int32 × CStr) :=
  (m.matchJson eventKind pubkeyHex createdAt).map fun entry =>
    (entry.connFd, routerSendEvent entry.subId eventJson eventLen)

/-! ### Runs -/

/-- The table, with the ids under which each slot was registered since it was filled. -/
structure Registry where
  manager : SubManager
  ids : Fin subMaxTotal → List CStr

namespace Registry

/-- After `sub_manager_init`. -/
def init : Registry := ⟨.init, fun _ => []⟩

/-- A call, on a heap that can take so many more strings. -/
def step (t : Registry) : SubCall × ℕ → Registry
  | (.add connFd subId filters, room) =>
    { manager := (t.manager.add connFd subId filters room).1
      ids := fun i =>
        if t.manager.findSub connFd subId = some i then subId :: t.ids i
        else if t.manager.subs i = none then [subId] else t.ids i }
  | (.remove connFd subId, _) => { t with manager := (t.manager.remove connFd subId).1 }
  | (.removeAll connFd, _) => { t with manager := t.manager.removeAll connFd }

/-- The table after the calls. -/
def reach (calls : List (SubCall × ℕ)) : Registry := run step init calls

/-- The client of the subscription registered it under this id. -/
def Under (t : Registry) (sub : Subscription) (id : CStr) : Prop :=
  ∃ i, t.manager.subs i = some sub ∧ id ∈ t.ids i

/-- Every subscription was registered, and keeps the beginning of its ids. -/
structure Inv (t : Registry) : Prop where
  registered : ∀ i sub, t.manager.subs i = some sub → t.ids i ≠ []
  stored : ∀ i sub, t.manager.subs i = some sub → ∀ id ∈ t.ids i, sub.subId = id.take subMaxIdLen

end Registry

/-- All answers for the id are valid and name it: the stored events and those of the fan-out, the
end of the stored events and the refusal. -/
structure AnswersAgree (printer : Json → CStr) (id : CStr) (sub : Subscription) (ev : CStr) :
    Prop where
  stored : IsEventArray (routerSendEvent id ev ev.length) (cstr "EVENT") id ev
  fanout : IsEventArray (routerSendEvent sub.subId ev ev.length) (cstr "EVENT") id ev
  eose : IsStrings (routerSendEose printer id) [cstr "EOSE", id]
  closed : ∀ message, IsStrings (routerSendClosed printer id message)
    [cstr "CLOSED", id, message.getD []]

/-! ### One answer -/

/-- The buffer has room for all of the text. -/
theorem routerSendEvent_eq (subId ev : CStr) :
    routerSendEvent subId ev ev.length = eventArray (cstr "EVENT") subId ev := by
  have hopen : cstr "[\"EVENT\",\"" = 91 :: 34 :: (cstr "EVENT" ++ [34, 44, 34]) := by decide
  have hmiddle : cstr "\"," = [34, 44] := by decide
  have hclose : cstr "]" = [93] := by decide
  have htext : cstr "[\"EVENT\",\"" ++ subId ++ cstr "\"," ++ ev ++ cstr "]" =
      eventArray (cstr "EVENT") subId ev := by
    rw [hopen, hmiddle, hclose, eventArray]
    simp
  have hlength : (eventArray (cstr "EVENT") subId ev).length = subId.length + ev.length + 13 := by
    have hname : (cstr "EVENT").length = 5 := by decide
    simp only [eventArray, List.length_cons, List.length_append, List.length_nil, hname]
    omega
  unfold routerSendEvent
  simp only [List.take_length, htext]
  rw [snprintf_of_length_lt (by omega), List.take_left]

theorem isPlain_event : IsPlain (cstr "EVENT") := by decide

/-- **One answer.** The id in it is the whole of one without characters to escape. -/
theorem routerSendEvent_iff {stored id ev : CStr} (hev : IsValue ev)
    (hlength : stored.length ≤ id.length) :
    IsEventArray (routerSendEvent stored ev ev.length) (cstr "EVENT") id ev ↔
      stored = id ∧ IsPlain id := by
  rw [routerSendEvent_eq]
  exact eventArray_iff isPlain_event hev hlength

/-! ### The table -/

namespace Registry

variable {t : Registry}

theorem inv_init : init.Inv := ⟨nofun, nofun⟩

/-- A table with fewer subscriptions. -/
theorem Inv.of_subset (h : t.Inv) {m : SubManager}
    (hsub : ∀ i sub, m.subs i = some sub → t.manager.subs i = some sub) : Inv ⟨m, t.ids⟩ :=
  ⟨fun i sub hi => h.registered i sub (hsub i sub hi),
    fun i sub hi => h.stored i sub (hsub i sub hi)⟩

/-- An id that is found is the one that is kept, so it is as short. -/
theorem Inv.take_of_found (h : t.Inv) {connFd : Int32} {subId : CStr} {i : Fin subMaxTotal}
    (hfind : t.manager.findSub connFd subId = some i) {sub : Subscription}
    (hsub : t.manager.subs i = some sub) : sub.subId = subId.take subMaxIdLen := by
  obtain ⟨sub', hsub', htest⟩ := Slots.find_eq_some hfind
  obtain rfl := Option.some.inj (hsub.symm.trans hsub')
  -- it is compared with the whole id that is asked for
  have hsame : sub.subId = subId := of_decide_eq_true (Bool.and_eq_true_iff.mp htest).2
  obtain ⟨id, hid⟩ := List.exists_mem_of_ne_nil _ (h.registered i sub hsub)
  have hstored := h.stored i sub hsub id hid
  rw [← hsame, hstored, List.take_take, min_self]

/-- **A call keeps the beginning of every id.** -/
theorem Inv.step (h : t.Inv) (call : SubCall × ℕ) : (t.step call).Inv := by
  obtain ⟨call, room⟩ := call
  cases call with
  | add connFd subId filters =>
    -- the slot that the id was found in, a free one that is filled, or another
    have hslot : ∀ i sub, (t.manager.add connFd subId filters room).1.subs i = some sub →
        (t.step (.add connFd subId filters, room)).ids i ≠ [] ∧
          ∀ id ∈ (t.step (.add connFd subId filters, room)).ids i,
            sub.subId = id.take subMaxIdLen := by
      intro i sub hsub
      unfold Registry.step
      dsimp only
      obtain ⟨old, hold, -, hid⟩ | ⟨hfree, -, hid⟩ := SubManager.subs_add hsub
      · -- the slot was taken, and keeps the id it has
        have hkept : ∀ id ∈ t.ids i, sub.subId = id.take subMaxIdLen :=
          fun id hmem => hid ▸ h.stored i old hold id hmem
        by_cases hfind : t.manager.findSub connFd subId = some i
        · rw [if_pos hfind]
          refine ⟨List.cons_ne_nil _ _, List.forall_mem_cons.mpr ⟨?_, hkept⟩⟩
          exact hid ▸ h.take_of_found hfind hold
        · rw [if_neg hfind, if_neg (by rw [hold]; exact Option.some_ne_none old)]
          exact ⟨h.registered i old hold, hkept⟩
      · -- a free slot is none that was found
        have hfind : t.manager.findSub connFd subId ≠ some i := by
          intro hfind
          obtain ⟨old, hold, -⟩ := Slots.find_eq_some hfind
          rw [hfree] at hold
          cases hold
        rw [if_neg hfind, if_pos hfree]
        exact ⟨List.cons_ne_nil _ _, List.forall_mem_singleton.mpr hid⟩
    exact ⟨fun i sub hsub => (hslot i sub hsub).1, fun i sub hsub => (hslot i sub hsub).2⟩
  | remove connFd subId => exact h.of_subset fun i sub hsub => SubManager.subs_remove hsub
  | removeAll connFd => exact h.of_subset fun i sub hsub => (SubManager.subs_removeAll.mp hsub).1

theorem inv_reach (calls : List (SubCall × ℕ)) : (reach calls).Inv :=
  run_induction (fun _ call h => h.step call) inv_init calls

end Registry

/-! ### All answers -/

/-- `handle_req` answers under the id of the request. -/
theorem handleReq_text {p : Platform} {s : Engine} {now : UInt32} {allowed : Bool}
    {subId filtersJson : CStr} {replies : List Reply}
    (h : handleReq p s now allowed subId filtersJson = .ok replies) (printer : Json → CStr)
    {r : Reply} (hr : r ∈ replies) :
    (∃ json, r.text printer = routerSendEvent subId json json.length) ∨
      r.text printer = routerSendEose printer subId ∨
      ∃ message, r.text printer = routerSendClosed printer subId message := by
  unfold handleReq at h
  cases allowed with
  | false =>
    obtain rfl := Except.ok.inj h
    obtain rfl := List.mem_singleton.mp hr
    exact .inr (.inr ⟨_, rfl⟩)
  | true =>
    cases hfilter : parseFilterJson p filtersJson with
    | error fault => simp [hfilter, bind, Except.bind] at h
    | ok filter =>
      rw [hfilter] at h
      obtain rfl := Except.ok.inj h
      rcases List.mem_append.mp hr with hr | hr
      · obtain ⟨result, -, rfl⟩ := List.mem_map.mp hr
        exact .inl ⟨_, rfl⟩
      · obtain rfl := List.mem_singleton.mp hr
        exact .inr (.inl rfl)

/-- The fan-out sends what the table keeps of the ids. -/
theorem mem_broadcasterFanoutJson {m : SubManager} {ev : CStr} {eventLen : ℕ} {eventKind : Int32}
    {pubkeyHex : CStr} {createdAt : UInt64} {answer : Int32 × CStr}
    (h : answer ∈ broadcasterFanoutJson m ev eventLen eventKind pubkeyHex createdAt) :
    ∃ i sub, m.subs i = some sub ∧
      answer = (sub.connFd, routerSendEvent sub.subId ev eventLen) := by
  obtain ⟨entry, hentry, rfl⟩ := List.mem_map.mp h
  obtain ⟨i, -, hi⟩ := List.mem_filterMap.mp hentry
  obtain ⟨sub, hsub, hmatch⟩ := Option.bind_eq_some_iff.mp hi
  unfold Subscription.matchEntry at hmatch
  obtain ⟨-, hsome⟩ := Option.ite_none_right_eq_some.mp hmatch
  obtain rfl := Option.some.inj hsome
  exact ⟨i, sub, hsub, rfl⟩

/-- **Exactly when the answers for a subscription are valid.** After any calls, for every id under
which a subscription was registered and every event: all answers are valid and name this id, if
and only if it has no character to escape and fits into its field. -/
theorem answers_agree_iff {printer : Json → CStr} (hprinter : Unformatted printer)
    (calls : List (SubCall × ℕ)) {sub : Subscription} {id : CStr}
    (hid : (Registry.reach calls).Under sub id) {ev : CStr} (hev : IsValue ev) :
    AnswersAgree printer id sub ev ↔ IsPlain id ∧ id.length ≤ subMaxIdLen := by
  obtain ⟨i, hsub, hmem⟩ := hid
  have hstored := (Registry.inv_reach calls).stored i sub hsub id hmem
  have hlength : sub.subId.length ≤ id.length := by
    rw [hstored]
    exact List.length_take_le' _ _
  refine ⟨fun h => ?_, ?_⟩
  · obtain ⟨hwhole, hplain⟩ := (routerSendEvent_iff hev hlength).mp h.fanout
    rw [hstored, List.take_eq_self_iff] at hwhole
    exact ⟨hplain, hwhole⟩
  · -- the table has the whole id
    rintro ⟨hplain, hfits⟩
    have hwhole : sub.subId = id := hstored.trans (List.take_of_length_le hfits)
    refine ⟨(routerSendEvent_iff hev le_rfl).mpr ⟨rfl, hplain⟩,
      (routerSendEvent_iff hev hlength).mpr ⟨hwhole, hplain⟩, ?_, fun message => ?_⟩
    · exact hprinter.isStrings (List.cons_ne_nil _ [id])
    · exact hprinter.isStrings (List.cons_ne_nil _ [id, message.getD []])

/-- What the fan-out sends is valid under ids that meet the condition. -/
theorem fanout_valid {calls : List (SubCall × ℕ)}
    (hids : ∀ sub id, (Registry.reach calls).Under sub id → IsPlain id ∧ id.length ≤ subMaxIdLen)
    {ev : CStr} (hev : IsValue ev) {eventKind : Int32} {pubkeyHex : CStr} {createdAt : UInt64}
    {answer : Int32 × CStr} (h : answer ∈ broadcasterFanoutJson (Registry.reach calls).manager ev
      ev.length eventKind pubkeyHex createdAt) :
    ∃ sub id, (Registry.reach calls).Under sub id ∧ answer.1 = sub.connFd ∧
      IsEventArray answer.2 (cstr "EVENT") id ev := by
  obtain ⟨i, sub, hsub, rfl⟩ := mem_broadcasterFanoutJson h
  have hinv := Registry.inv_reach calls
  obtain ⟨id, hmem⟩ := List.exists_mem_of_ne_nil _ (hinv.registered i sub hsub)
  have hunder : (Registry.reach calls).Under sub id := ⟨i, hsub, hmem⟩
  obtain ⟨hplain, hfits⟩ := hids sub id hunder
  have hwhole : sub.subId = id :=
    (hinv.stored i sub hsub id hmem).trans (List.take_of_length_le hfits)
  refine ⟨sub, id, hunder, rfl, ?_⟩
  exact (routerSendEvent_iff hev (congrArg List.length hwhole).le).mpr ⟨hwhole, hplain⟩

/-! ### Two ids -/

/-- The members of an event. -/
def eventMembers : List Member :=
  [plainMember "id" [.str (plainString (List.replicate 64 97))],
    plainMember "pubkey" [.str (plainString (List.replicate 64 98))],
    plainMember "created_at" [.other (plainNumeral 1700000000).text],
    plainMember "kind" [.other (plainNumeral 1).text],
    plainMember "tags" [.other [91], .other [], .other [93]],
    plainMember "content" [.str (plainString (cstr "hello"))],
    plainMember "sig" [.str (plainString (List.replicate 128 99))]]

/-- An event. -/
def storedEvent : CStr := compactText eventMembers

theorem isValue_storedEvent : IsValue storedEvent := by
  refine isValue_compactText (List.cons_ne_nil _ _) ?_
  have hblank : ∀ m ∈ eventMembers, Blank m.before ∧ Blank m.gap := by
    intro m hm
    simp only [eventMembers, List.mem_cons, List.not_mem_nil, or_false] at hm
    rcases hm with rfl | rfl | rfl | rfl | rfl | rfl | rfl
    all_goals exact ⟨blank_nil, blank_nil⟩
  have hvalue : ∀ m ∈ eventMembers, Derives .value m.value [] := by
    refine List.forall_mem_cons.mpr ⟨.string _, List.forall_mem_cons.mpr ⟨.string _, ?_⟩⟩
    refine List.forall_mem_cons.mpr ⟨.number _, List.forall_mem_cons.mpr ⟨.number _, ?_⟩⟩
    refine List.forall_mem_cons.mpr ⟨.emptyArray blank_nil, List.forall_mem_cons.mpr ?_⟩
    exact ⟨.string _, List.forall_mem_singleton.mpr (.string _)⟩
  exact fun m hm => ⟨(hblank m hm).1, (hblank m hm).2, hvalue m hm⟩

/-- A client registers an id. -/
def registration (id : CStr) : List (SubCall × ℕ) := [(.add 5 id [], 0)]

theorem under_registration (id : CStr) :
    (Registry.reach (registration id)).Under ⟨id.take subMaxIdLen, 5, []⟩ id := by
  refine ⟨0, ?_, ?_⟩
  · rfl
  · exact List.mem_cons_self

/-- A plain id. -/
theorem answers_agree_plain :
    AnswersAgree unformatted (cstr "feed") ⟨cstr "feed", 5, []⟩ storedEvent ↔
      IsPlain (cstr "feed") ∧ (cstr "feed").length ≤ subMaxIdLen :=
  answers_agree_iff unformatted_unformatted (registration (cstr "feed"))
    (under_registration (cstr "feed")) isValue_storedEvent

/-- The quote in an id ends the string. -/
theorem quoted_id :
    (Registry.reach (registration (cstr "a\"b"))).Under ⟨cstr "a\"b", 5, []⟩ (cstr "a\"b") ∧
      ¬ IsEventArray (routerSendEvent (cstr "a\"b") storedEvent storedEvent.length)
        (cstr "EVENT") (cstr "a\"b") storedEvent := by
  refine ⟨under_registration (cstr "a\"b"), fun h => ?_⟩
  have hplain := ((routerSendEvent_iff isValue_storedEvent le_rfl).mp h).2
  exact absurd hplain (by decide)

end Relay

end TollGate
