import TollGate.Lib.JsonText
import TollGate.Relay.Event
import TollGate.Relay.Representation

/-!
# What the index knows of an event

`storage_save_event_json` takes the id, the key, the kind and the time of an event from its
text: `parse_event_meta` looks for `"kind":` and its likes with `strstr` and reads what stands
behind the first one. The text may be any that is an event: members in any order, others among
them, blanks, escapes and nested objects.

`saved_entry_iff` says for every such text when the index entry is that of the event. Text in
strings does not matter, since its quotes are escaped; what matters are the members of the
same name at any depth, blanks around the colon, and how a value is written.
-/

namespace TollGate

namespace Relay

open CStr JsonText

/-! ### Event texts -/

/-- The fields of an event that the index knows. -/
structure EventHead where
  id : Vector UInt8 32
  pubkey : Vector UInt8 32
  createdAt : UInt32
  kind : UInt16

/-- The text is an event with these fields; `ms` are all members in it, at any depth. -/
def EventText (text : CStr) (ms : List Member) (h : EventHead) : Prop :=
  ∃ top, IsObject text top ms ∧ StringField top "id" (hexText h.id.toList) ∧
    StringField top "pubkey" (hexText h.pubkey.toList) ∧
    NumberField top "created_at" h.createdAt.toNat ∧ NumberField top "kind" h.kind.toNat

/-- The first four bytes of the key. -/
def EventHead.pubkeyPrefix (h : EventHead) : Vector UInt8 4 := zeroField 4 h.pubkey.toList

/-- The entry is that of the event. -/
structure Indexes (e : IndexEntry) (h : EventHead) : Prop where
  eventId : e.eventId = h.id
  pubkeyPrefix : e.pubkeyPrefix = h.pubkeyPrefix
  createdAt : e.createdAt = h.createdAt
  kind : e.kind = h.kind

/-! ### The members that are read -/

/-- The value of the first member, at any depth, that has the name directly in front of the
colon and a value that begins with `tail` reads as `x`; or there is none, and `x` is zero. -/
def FirstReads {α : Type} (name : String) (tail : CStr) (ms : List Member) (read : CStr → α)
    (zero x : α) : Prop :=
  (ms.find? (·.found (cstr name) tail) = none → zero = x) ∧
    ∀ m, ms.find? (·.found (cstr name) tail) = some m → read (print m.value) = x

/-- The bytes of a string of hexadecimal digits, with its quotes. -/
def quotedBytes (text : CStr) : Vector UInt8 32 := zeroField 32 (hexLoop 32 (text.drop 1)).1

/-- Each field stands in the member that is read for it. -/
structure ReadFirst (ms : List Member) (h : EventHead) : Prop where
  id : FirstReads "id" [34] ms quotedBytes (Vector.replicate 32 0) h.id
  pubkey : FirstReads "pubkey" [34] ms (fun t => zeroField 4 (quotedBytes t).toList)
    (Vector.replicate 4 0) h.pubkeyPrefix
  createdAt : FirstReads "created_at" [] ms (fun t => (strtoull 10 t).toUInt32) 0 h.createdAt
  kind : FirstReads "kind" [] ms (fun t => (atoi t).toUInt32.toUInt16) 0 h.kind

/-! ### Hexadecimal digits up to a quote -/

/-- Two digits are read from in front of the quote. -/
theorem scanHexByte_quote (s rest : List UInt8) :
    scanHexByte (s ++ 34 :: rest) = scanHexByte (s ++ [34]) := by
  have hskip : ∀ rest, (s ++ 34 :: rest).dropWhile isSpace = s.dropWhile isSpace ++ 34 :: rest := by
    intro rest
    rw [List.dropWhile_append]
    split
    · next hall =>
      rw [List.isEmpty_iff.mp hall]
      rfl
    · rfl
  unfold scanHexByte
  rw [hskip, hskip]
  cases s.dropWhile isSpace with
  | nil => rfl
  | cons c s =>
    cases s with
    | nil => rfl
    | cons d s => rfl

/-- Nothing is read from behind the quote. -/
theorem hexLoop_quote (n : ℕ) (s : List UInt8) {rest : List UInt8}
    (hrest : scanHexByte rest = none) : hexLoop n (s ++ 34 :: rest) = hexLoop n (s ++ [34]) := by
  induction n generalizing s with
  | zero => rfl
  | succ n ih =>
    rw [hexLoop, hexLoop, scanHexByte_quote]
    cases hscan : scanHexByte (s ++ [34]) with
    | none => rfl
    | some b =>
      have hdrop : hexLoop n ((s ++ 34 :: rest).drop 2) = hexLoop n ((s ++ [34]).drop 2) := by
        cases s with
        | nil =>
          -- the quote itself is no digit
          cases hscan
        | cons c s =>
          cases s with
          | nil =>
            change hexLoop n rest = hexLoop n []
            cases n with
            | zero => rfl
            | succ n =>
              rw [hexLoop, hrest]
              rfl
          | cons d s => exact ih s
      simp only [hdrop]

/-- Behind a value there are no digits. -/
theorem scanHexByte_of_follows {rest : CStr} (h : Follows rest) (mem : List UInt8) :
    scanHexByte (rest ++ 0 :: mem) = none := by
  have hstop : ∀ c ∈ [(0 : UInt8), 44, 93, 125], isSpace c = false ∧ c ≠ 43 ∧ c ≠ 45 ∧
      isDigit 16 c = false := by
    intro c hc
    simp only [List.mem_cons, List.not_mem_nil, or_false] at hc
    obtain rfl | rfl | rfl | rfl := hc
    all_goals exact ⟨rfl, by decide, by decide, rfl⟩
  -- behind the blanks stands the end of the text or one of the three bytes
  obtain ⟨c, back, hc, hback⟩ : ∃ c back, c ∈ [(0 : UInt8), 44, 93, 125] ∧
      (rest ++ 0 :: mem).dropWhile isSpace = c :: back := by
    have hblank : ∀ b ∈ rest.takeWhile isBlank, isSpace b = true :=
      fun b hb => isSpace_of_isBlank (List.mem_takeWhile_imp hb)
    rw [← List.takeWhile_append_dropWhile (p := isBlank) (l := rest), List.append_assoc,
      List.dropWhile_append_of_pos hblank]
    cases hd : rest.dropWhile isBlank with
    | nil => exact ⟨0, mem, by decide, rfl⟩
    | cons c back =>
      have hc : c = 44 ∨ c = 93 ∨ c = 125 := h c (by rw [hd]; exact rfl)
      have hmem : c ∈ [(0 : UInt8), 44, 93, 125] := by simpa using .inr hc
      refine ⟨c, back ++ 0 :: mem, hmem, ?_⟩
      rw [List.cons_append, List.dropWhile_cons_of_neg]
      rw [(hstop c hmem).1]
      exact Bool.false_ne_true
  obtain ⟨-, hplus, hminus, hdigit⟩ := hstop c hc
  unfold scanHexByte
  rw [hback]
  simp [hplus, hminus, hdigit]

/-! ### What the searches come to -/

section Searches

variable {text : CStr} {top ms : List Member} {name needle : String} {α : Type} {read : CStr → α}
  {zero x : α}

/-- With no member to be found the result is zero. -/
theorem firstReads_of_none {tail : CStr} (h : ms.find? (·.found (cstr name) tail) = none) :
    FirstReads name tail ms read zero x ↔ zero = x := by
  unfold FirstReads
  rw [h]
  simp

theorem firstReads_of_some {tail : CStr} {m : Member}
    (h : ms.find? (·.found (cstr name) tail) = some m) :
    FirstReads name tail ms read zero x ↔ read (print m.value) = x := by
  unfold FirstReads
  rw [h]
  simp

/-- What stands behind the needle. -/
theorem after_of_strstr {back : CStr}
    (h : strstr (cstr needle) text = some (cstr needle ++ back)) :
    after needle text = some back := by
  unfold after
  rw [h, Option.map_some, List.drop_left]

/-- The search for a number. -/
theorem after_number (h : IsObject text top ms) (name needle : String)
    (hname : IsName (cstr name)) (hneedle : cstr needle = 34 :: (cstr name ++ [34, 58]))
    {read : CStr → α} (hread : ∀ s t, readNumeral 10 s = readNumeral 10 t → read s = read t)
    (zero : α) :
    ((after needle text).map read).getD zero = x ↔ FirstReads name [] ms read zero x := by
  obtain ⟨hnone, hsome⟩ := strstr_member h hname [] (Nat.zero_le 1)
  rw [← hneedle] at hnone hsome
  cases hfind : ms.find? (·.found (cstr name) []) with
  | none =>
    rw [firstReads_of_none hfind, after, hnone hfind]
    rfl
  | some m =>
    obtain ⟨rest, hrest, hstr⟩ := hsome m hfind
    obtain ⟨-, hgap, inner, hvalue⟩ := h.of_mem (List.mem_of_find?_eq_some hfind)
    have hback : after needle text = some (m.gap ++ print m.value ++ rest) := by
      refine after_of_strstr (hstr.trans ?_)
      rw [hneedle]
      simp
    have hvalue : read (m.gap ++ print m.value ++ rest) = read (print m.value) := by
      refine hread _ _ (readNumeral_between (fun b hb => isSpace_of_isBlank (hgap b hb))
        hvalue.value_head ?_)
      intro b hb
      exact hrest.not_digit hb
    rw [firstReads_of_some hfind, hback, Option.map_some, Option.getD_some, hvalue]

/-- The search for a string. -/
theorem hexField_reads (h : IsObject text top ms) (name needle : String)
    (hname : IsName (cstr name)) (hneedle : cstr needle = 34 :: (cstr name ++ [34, 58, 34]))
    (heap : CStr → List UInt8) (f : Vector UInt8 32 → α) :
    f (hexField heap needle text) = x ↔
      FirstReads name [34] ms (fun t => f (quotedBytes t)) (f (Vector.replicate 32 0)) x := by
  obtain ⟨hnone, hsome⟩ := strstr_member h hname [34] le_rfl
  rw [← hneedle] at hnone hsome
  cases hfind : ms.find? (·.found (cstr name) [34]) with
  | none =>
    have hzero : hexField heap needle text = Vector.replicate 32 0 := by
      rw [hexField, after, hnone hfind]
      change zeroField 32 [] = _
      decide
    rw [firstReads_of_none hfind, hzero]
  | some m =>
    obtain ⟨rest, hrest, hstr⟩ := hsome m hfind
    obtain ⟨hgap, raw, hvalue⟩ := h.string_of_found hfind
    have hprint : print m.value = 34 :: (rawText raw ++ [34]) := by
      rw [hvalue]
      exact List.append_nil _
    have hback : after needle text = some (rawText raw ++ 34 :: rest) := by
      refine after_of_strstr (hstr.trans ?_)
      rw [hneedle, hgap, hprint]
      simp
    have hread : hexField heap needle text = quotedBytes (print m.value) := by
      rw [hexField, hback, quotedBytes, hprint]
      change zeroField 32 (hexLoop 32 (rawText raw ++ 34 :: rest ++ 0 :: heap text)).1 = _
      rw [List.append_assoc, List.cons_append,
        hexLoop_quote 32 _ (scanHexByte_of_follows hrest (heap text))]
      rfl
    rw [firstReads_of_some hfind, hread]

end Searches

/-! ### The entry -/

/-- The fields of the new entry are those that the searches come to. -/
theorem newEntry_indexes_iff (s : Engine) (heap : CStr → List UInt8) (now : UInt32) {text : CStr}
    {ms : List Member} {h : EventHead} (hevent : EventText text ms h) :
    Indexes (s.newEntry heap now text) h ↔ ReadFirst ms h := by
  obtain ⟨top, hobject, -⟩ := hevent
  have hid := hexField_reads (x := h.id) hobject "id" "\"id\":\"" (by decide) (by decide) heap id
  have hpubkey := hexField_reads (x := h.pubkeyPrefix) hobject "pubkey" "\"pubkey\":\""
    (by decide) (by decide) heap fun v => zeroField 4 v.toList
  -- both readings of a number depend on its leading numeral only
  have htime : ∀ s t, readNumeral 10 s = readNumeral 10 t →
      (strtoull 10 s).toUInt32 = (strtoull 10 t).toUInt32 := by
    intro s t hst
    rw [strtoull, strtoull, hst]
  have hnumber : ∀ s t, readNumeral 10 s = readNumeral 10 t →
      (atoi s).toUInt32.toUInt16 = (atoi t).toUInt32.toUInt16 := by
    intro s t hst
    rw [atoi, atoi, strtol, strtol, hst]
  have hcreatedAt := after_number (x := h.createdAt) hobject "created_at" "\"created_at\":"
    (by decide) (by decide) htime 0
  have hkind := after_number (x := h.kind) hobject "kind" "\"kind\":" (by decide) (by decide)
    hnumber 0
  have hcreated : ∀ o : Option CStr, ((o.map (strtoull 10)).getD 0).toUInt32 =
      (o.map fun t => (strtoull 10 t).toUInt32).getD 0 := by
    rintro (_ | t) <;> rfl
  have hkinds : ∀ o : Option CStr, ((o.map atoi).getD 0).toUInt32.toUInt16 =
      (o.map fun t => (atoi t).toUInt32.toUInt16).getD 0 := by
    rintro (_ | t) <;> rfl
  refine ⟨fun hentry => ⟨hid.mp hentry.eventId, hpubkey.mp hentry.pubkeyPrefix, ?_, ?_⟩,
    fun hread => ⟨hid.mpr hread.id, hpubkey.mpr hread.pubkey, ?_, ?_⟩⟩
  · exact hcreatedAt.mp ((hcreated _).symm.trans hentry.createdAt)
  · exact hkind.mp ((hkinds _).symm.trans hentry.kind)
  · exact (hcreated _).trans (hcreatedAt.mpr hread.createdAt)
  · exact (hkinds _).trans (hkind.mpr hread.kind)

/-- An event that is saved has the new entry. -/
theorem eq_newEntry {s : Engine} {heap : CStr → List UInt8} {now : UInt32} {opened : Bool}
    {text : CStr} (hsaved : (s.saveEventJson heap now opened text).2 = .ok) {e : IndexEntry} :
    (s.saveEventJson heap now opened text).1.index = s.index ++ [e] ↔
      e = s.newEntry heap now text := by
  obtain ⟨-, hnot⟩ | ⟨-, -, -, -, hindex, -⟩ := saveEventJson_cases s heap now opened text
  · exact absurd hsaved hnot
  · rw [hindex, List.append_cancel_left_eq, List.singleton_inj, eq_comm]

/-- **Exactly when the index has the fields of the event.** For every text that is an event,
every store and clock. -/
theorem saved_entry_iff (s : Engine) (heap : CStr → List UInt8) (now : UInt32) (opened : Bool)
    {text : CStr} {ms : List Member} {h : EventHead} (hevent : EventText text ms h)
    (hsaved : (s.saveEventJson heap now opened text).2 = .ok) :
    (∃ e, (s.saveEventJson heap now opened text).1.index = s.index ++ [e] ∧ Indexes e h) ↔
      ReadFirst ms h := by
  rw [← newEntry_indexes_iff s heap now hevent]
  refine ⟨?_, fun hentry => ⟨_, (eq_newEntry hsaved).mpr rfl, hentry⟩⟩
  rintro ⟨e, he, hentry⟩
  exact (eq_newEntry hsaved).mp he ▸ hentry

/-! ### Two events -/

/-- The digits of a field are read back. -/
theorem quotedBytes_hexText (v : Vector UInt8 32) :
    quotedBytes (34 :: (hexText v.toList ++ [34])) = v := by
  have hloop := hexLoop_hexText v.toList [34]
  rw [Vector.length_toList] at hloop
  rw [quotedBytes, List.drop_one, List.tail_cons, hloop, zeroField_toList]

/-- The members of the event `reaction`. -/
def reactionMembers : List Member :=
  [plainMember "id" [.str (plainString (hexText reaction.id.toList))],
    plainMember "pubkey" [.str (plainString (hexText reaction.pubkey.toList))],
    plainMember "created_at" [.other (plainNumeral 5).text],
    plainMember "kind" [.other (plainNumeral 7).text],
    plainMember "tags" [.other [91], .other [], .other [93]],
    plainMember "content" [.str []],
    plainMember "sig" [.str (plainString (hexText reaction.sig.toList))]]

/-- The fields that the index should know. -/
def reactionHead : EventHead := ⟨reaction.id, reaction.pubkey, 5, 7⟩

/-- Another member in front of them, an object. -/
def noteMember : Member :=
  plainMember "x" (.other [123] :: (compact [plainMember "kind" [.other (plainNumeral 1).text]] ++
    [.other [125]]))

theorem derives_reactionMembers {m : Member} (h : m ∈ reactionMembers) :
    Blank m.before ∧ Blank m.gap ∧ Derives .value m.value [] := by
  simp only [reactionMembers, List.mem_cons, List.not_mem_nil, or_false] at h
  obtain rfl | rfl | rfl | rfl | rfl | rfl | rfl := h
  · exact ⟨blank_nil, blank_nil, .string _⟩
  · exact ⟨blank_nil, blank_nil, .string _⟩
  · exact ⟨blank_nil, blank_nil, .number _⟩
  · exact ⟨blank_nil, blank_nil, .number _⟩
  · exact ⟨blank_nil, blank_nil, .emptyArray blank_nil⟩
  · exact ⟨blank_nil, blank_nil, .string _⟩
  · exact ⟨blank_nil, blank_nil, .string _⟩

theorem isObject_reaction :
    IsObject (compactText reactionMembers) reactionMembers reactionMembers :=
  ⟨_, isDocument_flat (List.cons_ne_nil _ _) fun _ hm => derives_reactionMembers hm, rfl⟩

/-- The fields stand in the members, and another one in front of them does not matter. -/
theorem eventText_reaction (front : List Member) {ms : List Member} {text : CStr}
    (hobject : IsObject text (front ++ reactionMembers) ms)
    (hfront : ∀ name ∈ ["id", "pubkey", "created_at", "kind"], named front name = []) :
    EventText text ms reactionHead := by
  have hnamed : ∀ name ∈ ["id", "pubkey", "created_at", "kind"],
      named (front ++ reactionMembers) name = named reactionMembers name := by
    intro name hname
    unfold named
    rw [List.filter_append]
    exact (congrArg (· ++ _) (hfront name hname)).trans (List.nil_append _)
  refine ⟨front ++ reactionMembers, hobject, ⟨_, _, (hnamed "id" (by decide)).trans rfl, rfl, ?_⟩,
    ⟨_, _, (hnamed "pubkey" (by decide)).trans rfl, rfl, ?_⟩,
    ⟨_, _, (hnamed "created_at" (by decide)).trans rfl, rfl, ?_⟩,
    ⟨_, _, (hnamed "kind" (by decide)).trans rfl, rfl, ?_⟩⟩
  · exact decode_plainString (by decide)
  · exact decode_plainString (by decide)
  · exact value_plainNumeral 5
  · exact value_plainNumeral 7

theorem isPlain_hexText (bytes : List UInt8) : IsPlain (hexText bytes) := by
  refine isPlain_of_digits fun b hb => ?_
  obtain ⟨byte, -, hmem⟩ := List.mem_flatMap.mp hb
  exact isDigit_hexPadded hmem

theorem quotedBytes_plainString (v : Vector UInt8 32) :
    quotedBytes (print [.str (plainString (hexText v.toList))]) = v := by
  have hprint : print [.str (plainString (hexText v.toList))] =
      34 :: (hexText v.toList ++ [34]) := by
    rw [print_cons, Lexeme.text, rawText_plainString (isPlain_hexText _)]
    exact List.append_nil _
  rw [hprint, quotedBytes_hexText]

theorem find_reaction_id : reactionMembers.find? (·.found (cstr "id") [34]) =
    some (plainMember "id" [.str (plainString (hexText reaction.id.toList))]) := rfl

theorem find_reaction_pubkey : reactionMembers.find? (·.found (cstr "pubkey") [34]) =
    some (plainMember "pubkey" [.str (plainString (hexText reaction.pubkey.toList))]) := rfl

theorem find_reaction_createdAt : reactionMembers.find? (·.found (cstr "created_at") []) =
    some (plainMember "created_at" [.other (plainNumeral 5).text]) := rfl

theorem find_reaction_kind : reactionMembers.find? (·.found (cstr "kind") []) =
    some (plainMember "kind" [.other (plainNumeral 7).text]) := rfl

theorem readFirst_reaction : ReadFirst reactionMembers reactionHead where
  id := (firstReads_of_some find_reaction_id).mpr (quotedBytes_plainString _)
  pubkey := (firstReads_of_some find_reaction_pubkey).mpr
    (congrArg (fun v : Vector UInt8 32 => zeroField 4 v.toList) (quotedBytes_plainString _))
  createdAt := (firstReads_of_some find_reaction_createdAt).mpr (by decide)
  kind := (firstReads_of_some find_reaction_kind).mpr (by decide)

/-- The event is indexed as it is. -/
theorem reaction_indexed :
    ((Engine.empty 5000 3600).saveEventJson (fun _ => []) 10 true
        (compactText reactionMembers)).2 = .ok ∧
      ∃ e, ((Engine.empty 5000 3600).saveEventJson (fun _ => []) 10 true
          (compactText reactionMembers)).1.index = (Engine.empty 5000 3600).index ++ [e] ∧
        Indexes e reactionHead := by
  have hsaved : ((Engine.empty 5000 3600).saveEventJson (fun _ => []) 10 true
      (compactText reactionMembers)).2 = .ok := rfl
  have hevent : EventText (compactText reactionMembers) reactionMembers reactionHead := by
    refine eventText_reaction [] isObject_reaction ?_
    intro name _
    rfl
  exact ⟨hsaved, (saved_entry_iff (Engine.empty 5000 3600) (fun _ => []) 10 true hevent hsaved).mpr
    readFirst_reaction⟩

/-- All members of the text with the note. -/
def notedMembers : List Member :=
  noteMember :: plainMember "kind" [.other (plainNumeral 1).text] :: reactionMembers

theorem isObject_noted :
    IsObject (compactText (noteMember :: reactionMembers)) (noteMember :: reactionMembers)
      notedMembers := by
  have h := @isDocument_compactObject ((noteMember,
    [plainMember "kind" [.other (plainNumeral 1).text]]) :: reactionMembers.map fun m => (m, []))
    (List.cons_ne_nil _ _) ?_
  · refine ⟨_, ?_, rfl⟩
    simpa [Function.comp_def, List.flatMap_map, notedMembers] using h
  · intro p hp
    obtain rfl | hp := List.mem_cons.mp hp
    · exact ⟨blank_nil, blank_nil, .object (.member blank_nil blank_nil blank_nil blank_nil
        (.number _))⟩
    · obtain ⟨m, hm, rfl⟩ := List.mem_map.mp hp
      exact derives_reactionMembers hm

/-- The kind of the note is taken for that of the event. -/
theorem note_kind_indexed :
    EventText (compactText (noteMember :: reactionMembers)) notedMembers reactionHead ∧
      ((Engine.empty 5000 3600).saveEventJson (fun _ => []) 10 true
        (compactText (noteMember :: reactionMembers))).2 = .ok ∧
      ¬ ∃ e, ((Engine.empty 5000 3600).saveEventJson (fun _ => []) 10 true
          (compactText (noteMember :: reactionMembers))).1.index =
            (Engine.empty 5000 3600).index ++ [e] ∧ Indexes e reactionHead := by
  have hevent : EventText (compactText (noteMember :: reactionMembers)) notedMembers
      reactionHead := by
    refine eventText_reaction [noteMember] isObject_noted ?_
    decide
  have hsaved : ((Engine.empty 5000 3600).saveEventJson (fun _ => []) 10 true
      (compactText (noteMember :: reactionMembers))).2 = .ok := rfl
  refine ⟨hevent, hsaved, ?_⟩
  rintro ⟨e, he, hentry⟩
  rw [(eq_newEntry hsaved).mp he, newEntry_indexes_iff _ _ _ hevent] at hentry
  have hfind : notedMembers.find? (·.found (cstr "kind") []) =
      some (plainMember "kind" [.other (plainNumeral 1).text]) := rfl
  have hkind := (firstReads_of_some hfind).mp hentry.kind
  exact absurd hkind (by decide)

end Relay

end TollGate
