import TollGate.Lib.JsonPrinter
import TollGate.Relay.SyncFrames
import TollGate.Relay.Writers

/-!
# What a fallback sync imports

`sync_manager_do_reqdiff_sync` asks another relay for its events and publishes what it is sent. A
relay sends an event as `["EVENT", subscription, event]`. The loop takes the second item for the
event, so what it prints and saves is the subscription, as a string of JSON. Such a text has no id;
the store files the first one under the id of zeros, and each later one is a duplicate.

`Imports` says what the store should have after the session. The session imports what it should
exactly if there was nothing to be imported (`reqdiffSync_imports_iff`).
-/

namespace TollGate

namespace Relay

open CStr CJson TombstoneLog StepRun WebSocket

/-! ### The session -/

/-- `sync_manager_do_reqdiff_sync`, from the request on, over the messages up to the close of the
connection. Each comes with its surroundings. -/
def reqdiffSync (p : Platform) (now : UInt32) (s : Engine) (messages : List (Env × CStr)) : Node :=
  run (Node.step p) ⟨s, none, none⟩
    (.syncStart now :: (messages.map (fun m => .syncMessage m.1 m.2) ++ [.syncEnd]))

/-- The messages that the session reads from a connection, at most `n`. -/
def sessionMessages (size : Cvm.SizeT) (mem : ℕ → Memory) (n : ℕ) (w : Wire) (env : ℕ → Env) :
    List (Env × CStr) :=
  (readTexts size mem 8192 n w).mapIdx fun i r => (env i, r.text)

/-- They are the payloads of the frames before a close frame. -/
theorem sessionMessages_of_complete (size : Cvm.SizeT) (mem : ℕ → Memory) (n : ℕ) (env : ℕ → Env)
    {frames : List Frame} {short : List ℕ} (hcomplete : Complete 8192 frames short) :
    sessionMessages size mem n ⟨frames.flatMap Frame.bytes, short⟩ env =
      ((frames.takeWhile fun f => !closes f).take n).mapIdx fun i f => (env i, f.payload) := by
  unfold sessionMessages
  rw [readTexts_of_complete size mem (by decide) hcomplete]
  refine List.ext_getElem (by simp) fun i hi hi' => ?_
  simp [readingOf]

/-! ### What it should do -/

/-- The first item of a message, if it is a string. -/
def commandOf (p : Platform) (text : CStr) : Option CStr :=
  (p.parse text).bind fun arr => (arr.getArrayItem 0).bind Json.asString

/-- An EVENT of a relay is an array with the subscription in the second place. -/
def IsRelayMessage (p : Platform) (text : CStr) : Prop :=
  commandOf p text = some (cstr "EVENT") → ∃ sub rest,
    p.parse text = some (.array (.string (cstr "EVENT") :: .string sub :: rest))

/-- The message carries the event, in this object. -/
def Carries (p : Platform) (text : CStr) (obj : Json) (e : Event) : Prop :=
  e.Written obj ∧ ∃ sub rest,
    p.parse text = some (.array (.string (cstr "EVENT") :: .string sub :: obj :: rest))

/-- The messages up to EOSE. -/
def received (p : Platform) (messages : List (Env × CStr)) : List CStr :=
  (messages.map Prod.snd).takeWhile fun text => commandOf p text ≠ some (cstr "EOSE")

/-- An event with this id, which the store `s` did not have, was received, and this is its text. -/
def CameWith (p : Platform) (texts : List CStr) (s : Engine) (id : Vector UInt8 32)
    (file : Option CStr) : Prop :=
  s.eventExists id = false ∧
    ∃ text ∈ texts, ∃ obj e, Carries p text obj e ∧ e.id = id ∧ file = some (p.print obj)

/-- The store `s'` has what `s` had and the events of the messages that it did not have. -/
structure Imports (p : Platform) (texts : List CStr) (s s' : Engine) : Prop where
  kept : ∀ entry ∈ live IndexEntry.deleted s.index,
    entry ∈ live IndexEntry.deleted s'.index ∧ s'.files entry.path = s.files entry.path
  imported : ∀ text ∈ texts, ∀ obj e, Carries p text obj e → s.eventExists e.id = false →
    ∃ entry ∈ live IndexEntry.deleted s'.index,
      entry.eventId = e.id ∧ CameWith p texts s e.id (s'.files entry.path)
  nothingElse : ∀ entry ∈ live IndexEntry.deleted s'.index,
    entry ∈ live IndexEntry.deleted s.index ∨
      CameWith p texts s entry.eventId (s'.files entry.path)

/-- The store has room for all messages, and files can be opened. -/
def HasRoom (s : Engine) (messages : List (Env × CStr)) : Prop :=
  s.index.length + messages.length ≤ s.maxIndexEntries ∧ ∀ m ∈ messages, m.1.opened = true

/-- The session ends, and the store has what it should have. -/
def SyncImports (p : Platform) (now : UInt32) (s : Engine) (messages : List (Env × CStr)) : Prop :=
  let n := reqdiffSync p now s messages
  n.fault = none ∧ Imports p (received p messages) s n.engine

/-! ### What it does -/

/-- The id under which a text without one is filed. -/
def noId : Vector UInt8 32 := Vector.replicate 32 0

section Session

variable {p : Platform} {s : Engine}

/-- A string has no id. -/
theorem newEntry_string (hprint : JsonText.Unformatted p.print) (now : UInt32) (sub : CStr) :
    (s.newEntry p.heap now (p.print (.string sub))).eventId = noId := by
  obtain ⟨raw, -, hraw⟩ := hprint.string sub
  -- behind the only string of the text stands no colon
  have hspaced : JsonText.Spaced [.str raw] := ⟨nofun, trivial⟩
  have hsearch : after "\"id\":\"" (p.print (.string sub)) = none := by
    have hneedle : cstr "\"id\":\"" = 34 :: (cstr "id" ++ 34 :: [58, 34]) := by decide
    rw [after, hraw, hneedle, JsonText.strstr_quoted (by decide) hspaced, JsonText.behind]
    simp [JsonText.print, JsonText.behind]
  show hexField p.heap "\"id\":\"" (p.print (.string sub)) = noId
  rw [hexField, hsearch]
  show zeroField 32 [] = noId
  decide

/-- A turn of the loop. -/
theorem reqdiffTurn_cases {text : CStr} (h : IsRelayMessage p text) (localIds : List CStr) :
    (commandOf p text = some (cstr "EVENT") ∧
        ∃ sub, reqdiffTurn p localIds text = .ok (.store (p.print (.string sub)))) ∨
      (commandOf p text = some (cstr "EOSE") ∧ reqdiffTurn p localIds text = .ok .eose) ∨
      (commandOf p text ≠ some (cstr "EVENT") ∧ commandOf p text ≠ some (cstr "EOSE") ∧
        reqdiffTurn p localIds text = .ok .skip) := by
  by_cases hevent : commandOf p text = some (cstr "EVENT")
  · obtain ⟨sub, rest, hparse⟩ := h hevent
    refine .inl ⟨hevent, sub, ?_⟩
    unfold reqdiffTurn
    rw [hparse]
    -- the second item is the subscription, a string, which has no member `id`
    rfl
  · unfold reqdiffTurn
    unfold commandOf at hevent ⊢
    cases hparse : p.parse text with
    | none => exact .inr (.inr ⟨nofun, nofun, rfl⟩)
    | some arr =>
      rw [hparse, Option.bind_some] at hevent
      rw [Option.bind_some]
      dsimp only
      cases hcommand : (arr.getArrayItem 0).bind Json.asString with
      | none => exact .inr (.inr ⟨nofun, nofun, rfl⟩)
      | some cmd =>
        rw [hcommand, Option.some.injEq] at hevent
        dsimp only
        rw [if_neg hevent]
        by_cases heose : cmd = cstr "EOSE"
        · exact .inr (.inl ⟨congrArg some heose, if_pos heose⟩)
        · exact .inr (.inr ⟨fun h => hevent (Option.some.inj h),
            fun h => heose (Option.some.inj h), if_neg heose⟩)

/-- A message stores a string, ends the session or is passed over. -/
theorem syncMessage_cases {m : Env × CStr} (h : IsRelayMessage p m.2) (localIds : List CStr) :
    (commandOf p m.2 = some (cstr "EVENT") ∧ ∃ sub,
        Node.step p ⟨s, some localIds, none⟩ (.syncMessage m.1 m.2) =
          ⟨(localRelayPublish p m.1 s (p.print (.string sub))).1, some localIds, none⟩) ∨
      (commandOf p m.2 = some (cstr "EOSE") ∧
        Node.step p ⟨s, some localIds, none⟩ (.syncMessage m.1 m.2) = ⟨s, none, none⟩) ∨
      (commandOf p m.2 ≠ some (cstr "EVENT") ∧ commandOf p m.2 ≠ some (cstr "EOSE") ∧
        Node.step p ⟨s, some localIds, none⟩ (.syncMessage m.1 m.2) =
          ⟨s, some localIds, none⟩) := by
  rcases reqdiffTurn_cases h localIds with ⟨hcommand, sub, hturn⟩ | ⟨hcommand, hturn⟩ |
    ⟨hevent, heose, hturn⟩
  · refine .inl ⟨hcommand, sub, ?_⟩
    simp [Node.step, hturn]
  · refine .inr (.inl ⟨hcommand, ?_⟩)
    simp [Node.step, hturn]
  · refine .inr (.inr ⟨hevent, heose, ?_⟩)
    simp [Node.step, hturn]

/-- The steps of the session. -/
abbrev syncActions (messages : List (Env × CStr)) : List Action :=
  messages.map fun m => .syncMessage m.1 m.2

theorem run_syncActions_cons (n : Node) (m : Env × CStr) (messages : List (Env × CStr)) :
    run (Node.step p) n (syncActions (m :: messages)) =
      run (Node.step p) (n.step p (.syncMessage m.1 m.2)) (syncActions messages) := rfl

theorem received_cons (m : Env × CStr) (messages : List (Env × CStr)) :
    received p (m :: messages) =
      if commandOf p m.2 = some (cstr "EOSE") then [] else m.2 :: received p messages := by
  unfold received
  rw [List.map_cons, List.takeWhile_cons]
  by_cases h : commandOf p m.2 = some (cstr "EOSE") <;> simp [h]

/-- Behind EOSE nothing is done. -/
theorem run_closed (messages : List (Env × CStr)) :
    run (Node.step p) ⟨s, none, none⟩ (syncActions messages) = ⟨s, none, none⟩ := by
  induction messages with
  | nil => rfl
  | cons m messages ih => exact ih

/-- Once there is an entry without an id, and as long as there is no EVENT, the store stays as it
is. -/
theorem run_unchanged (hprint : JsonText.Unformatted p.print) {messages : List (Env × CStr)}
    (hrelay : ∀ m ∈ messages, IsRelayMessage p m.2)
    (hevent : ∀ text ∈ received p messages, commandOf p text = some (cstr "EVENT") →
      s.eventExists noId = true) (localIds : List CStr) :
    ∃ session, run (Node.step p) ⟨s, some localIds, none⟩ (syncActions messages) =
      ⟨s, session, none⟩ := by
  induction messages with
  | nil => exact ⟨some localIds, rfl⟩
  | cons m messages ih =>
    obtain ⟨hm, hmessages⟩ := List.forall_mem_cons.mp hrelay
    rw [received_cons] at hevent
    rw [run_syncActions_cons]
    rcases syncMessage_cases hm localIds with ⟨hcommand, sub, hstep⟩ | ⟨-, hstep⟩ |
      ⟨-, hopen, hstep⟩
    · -- the text is a duplicate
      have hne : commandOf p m.2 ≠ some (cstr "EOSE") := by
        rw [hcommand]
        decide
      rw [if_neg hne] at hevent
      obtain ⟨hfirst, hrest⟩ := List.forall_mem_cons.mp hevent
      have hsave : (localRelayPublish p m.1 s (p.print (.string sub))).1 = s := by
        unfold localRelayPublish Engine.saveEventJson
        dsimp only
        rw [newEntry_string hprint, if_pos (hfirst hcommand)]
      rw [hstep, hsave]
      exact ih hmessages hrest
    · rw [hstep]
      exact ⟨none, run_closed messages⟩
    · rw [if_neg hopen] at hevent
      rw [hstep]
      exact ih hmessages (List.forall_mem_cons.mp hevent).2

/-- The entry that the first EVENT leaves behind. -/
def HoldsString (p : Platform) (s : Engine) : Prop :=
  ∃ entry ∈ live IndexEntry.deleted s.index, entry.eventId = noId ∧
    ∃ sub, s.files entry.path = some (p.print (.string sub))

theorem saveEventJson_string (hprint : JsonText.Unformatted p.print) {env : Env}
    (hopened : env.opened = true) (hnew : s.eventExists noId = false)
    (hroom : s.index.length < s.maxIndexEntries) (sub : CStr) :
    HoldsString p (localRelayPublish p env s (p.print (.string sub))).1 := by
  have hid := newEntry_string (s := s) hprint env.now sub
  rcases saveEventJson_cases s p.heap env.now env.opened (p.print (.string sub)) with
    ⟨-, hnot⟩ | ⟨-, -, -, -, hindex, -, -, hfiles⟩
  · refine absurd ?_ hnot
    unfold Engine.saveEventJson
    dsimp only
    rw [hid, hnew, if_neg Bool.false_ne_true, if_neg (by omega), hopened]
    rfl
  · refine ⟨_, mem_live.mpr ⟨?_, deleted_newEntry s _ _ _⟩, hid, sub, ?_⟩
    · unfold localRelayPublish
      rw [hindex]
      exact List.mem_append_right _ List.mem_cons_self
    · unfold localRelayPublish
      rw [hfiles]
      exact Function.update_self _ _ _

/-- The first EVENT that is received leaves its subscription in the store. -/
theorem run_holdsString (hprint : JsonText.Unformatted p.print) {messages : List (Env × CStr)}
    (hroom : s.index.length < s.maxIndexEntries) (hopened : ∀ m ∈ messages, m.1.opened = true)
    (hrelay : ∀ m ∈ messages, IsRelayMessage p m.2) (hnew : s.eventExists noId = false)
    (hevent : ∃ text ∈ received p messages, commandOf p text = some (cstr "EVENT"))
    (localIds : List CStr) :
    HoldsString p (run (Node.step p) ⟨s, some localIds, none⟩ (syncActions messages)).engine := by
  induction messages with
  | nil =>
    obtain ⟨text, htext, -⟩ := hevent
    exact absurd htext List.not_mem_nil
  | cons m messages ih =>
    obtain ⟨hm, hmessages⟩ := List.forall_mem_cons.mp hrelay
    obtain ⟨hmopened, hmsopened⟩ := List.forall_mem_cons.mp hopened
    rw [received_cons] at hevent
    rw [run_syncActions_cons]
    rcases syncMessage_cases hm localIds with ⟨-, sub, hstep⟩ | ⟨heose, -⟩ | ⟨hnot, hopen, hstep⟩
    · have hholds := saveEventJson_string hprint hmopened hnew hroom sub
      -- what comes behind it changes nothing
      obtain ⟨entry, hentry, hid, -⟩ := id hholds
      obtain ⟨session, hrun⟩ := run_unchanged hprint hmessages
        (fun _ _ _ => hid ▸ eventExists_of_mem_live hentry) localIds
      rw [hstep, hrun]
      exact hholds
    · rw [if_pos heose] at hevent
      obtain ⟨text, htext, -⟩ := hevent
      exact absurd htext List.not_mem_nil
    · rw [if_neg hopen] at hevent
      obtain ⟨text, htext, hcommand⟩ := hevent
      rw [hstep]
      refine ih hmsopened hmessages ⟨text, ?_, hcommand⟩
      exact (List.mem_cons.mp htext).resolve_left fun heq => hnot (heq ▸ hcommand)

end Session

/-! ### Exactly when the session imports -/

section Imports

variable {p : Platform} {s : Engine} {messages : List (Env × CStr)}

/-- The end of the session changes neither the store nor how it went. -/
theorem reqdiffSync_fields (p : Platform) (now : UInt32) (s : Engine)
    (messages : List (Env × CStr)) :
    let n := run (Node.step p) ⟨s, some (getEventIdsFromStorage p now s), none⟩
      (syncActions messages)
    (reqdiffSync p now s messages).engine = n.engine ∧
      (reqdiffSync p now s messages).fault = n.fault := by
  intro n
  have hrun : reqdiffSync p now s messages = n.step p .syncEnd := run_concat (Node.step p) _ _ _
  rw [hrun]
  unfold Node.step
  split <;> exact ⟨rfl, rfl⟩

theorem Carries.command {text : CStr} {obj : Json} {e : Event} (h : Carries p text obj e) :
    commandOf p text = some (cstr "EVENT") := by
  obtain ⟨-, sub, rest, hparse⟩ := h
  unfold commandOf
  rw [hparse]
  rfl

/-- An event is printed as an object, which no string is. -/
theorem print_string_ne (hprint : JsonText.Unformatted p.print) (sub : CStr) {obj : Json}
    {e : Event} (he : e.Written obj) : p.print (.string sub) ≠ p.print obj := by
  intro heq
  have hid := he.id
  cases obj with
  | object members =>
    obtain ⟨raw, -, hraw⟩ := hprint.string sub
    rw [hraw, hprint.object] at heq
    -- a quote on the left, a brace on the right
    exact absurd (List.cons.inj heq).1 (by decide)
  | null => exact absurd hid nofun
  | bool b => exact absurd hid nofun
  | number n => exact absurd hid nofun
  | string t => exact absurd hid nofun
  | array items => exact absurd hid nofun

/-- A store that holds a string and did not before has what it should not have. -/
theorem not_imports_of_holdsString (hprint : JsonText.Unformatted p.print) {s' : Engine}
    {texts : List CStr} (hnew : s.eventExists noId = false) (hholds : HoldsString p s') :
    ¬ Imports p texts s s' := by
  intro himports
  obtain ⟨entry, hentry, hid, sub, hfile⟩ := hholds
  rcases himports.nothingElse entry hentry with hold | ⟨-, text, -, obj, e, hcarries, -, htext⟩
  · have hexists := eventExists_of_mem_live hold
    rw [hid, hnew] at hexists
    exact Bool.false_ne_true hexists
  · rw [hfile, Option.some.injEq] at htext
    exact print_string_ne hprint sub hcarries.1 htext

/-- **Sessions that import what they should.** For every store with room and every list of messages
of a relay: the session ends, and the store has what it had and the events that were received and
not yet stored, exactly if no event was received, or every one that was is stored already and so
is one with the id of zeros. -/
theorem reqdiffSync_imports_iff (hprint : JsonText.Unformatted p.print) (now : UInt32)
    (hroom : HasRoom s messages) (hrelay : ∀ m ∈ messages, IsRelayMessage p m.2) :
    SyncImports p now s messages ↔
      (∀ text ∈ received p messages, commandOf p text ≠ some (cstr "EVENT")) ∨
        s.eventExists noId = true ∧ ∀ text ∈ received p messages, ∀ obj e,
          Carries p text obj e → s.eventExists e.id = true := by
  obtain ⟨hlength, hopened⟩ := hroom
  obtain ⟨hengine, hfault⟩ := reqdiffSync_fields p now s messages
  unfold SyncImports
  dsimp only
  rw [hengine, hfault]
  refine ⟨?_, ?_⟩
  · rintro ⟨-, himports⟩
    by_cases hevent : ∃ text ∈ received p messages, commandOf p text = some (cstr "EVENT")
    · refine .inr ?_
      cases hnew : s.eventExists noId with
      | false =>
        -- the first subscription is in the store
        have hne : 0 < messages.length := by
          obtain ⟨text, htext, -⟩ := hevent
          obtain ⟨m, hm, -⟩ := List.mem_map.mp ((List.takeWhile_sublist _).subset htext)
          exact List.length_pos_of_mem hm
        exact absurd himports (not_imports_of_holdsString hprint hnew
          (run_holdsString hprint (by omega) hopened hrelay hnew hevent _))
      | true =>
        refine ⟨rfl, fun text htext obj e hcarries => ?_⟩
        obtain ⟨session, hrun⟩ := run_unchanged hprint hrelay (fun _ _ _ => hnew)
          (getEventIdsFromStorage p now s)
        rw [hrun] at himports
        by_contra hexists
        -- the event should have been imported, and the store is as it was
        obtain ⟨entry, hentry, hid, -⟩ :=
          himports.imported text htext obj e hcarries (Bool.eq_false_of_not_eq_true hexists)
        exact hexists (hid ▸ eventExists_of_mem_live hentry)
    · push Not at hevent
      exact .inl hevent
  · intro hcondition
    have hzero : ∀ text ∈ received p messages, commandOf p text = some (cstr "EVENT") →
        s.eventExists noId = true := by
      intro text htext hcommand
      rcases hcondition with hnone | ⟨hzero, -⟩
      · exact absurd hcommand (hnone text htext)
      · exact hzero
    obtain ⟨session, hrun⟩ := run_unchanged hprint hrelay hzero (getEventIdsFromStorage p now s)
    rw [hrun]
    refine ⟨rfl, ⟨fun entry hentry => ⟨hentry, rfl⟩, ?_, fun entry hentry => .inl hentry⟩⟩
    intro text htext obj e hcarries hnew
    rcases hcondition with hnone | ⟨-, hstored⟩
    · exact absurd hcarries.command (hnone text htext)
    · rw [hstored text htext obj e hcarries] at hnew
      exact absurd hnew.symm Bool.false_ne_true

end Imports

/-! ### Two sessions -/

/-- The event `reaction` as another relay sends it. -/
def eventMessage : CStr := cstr "[\"EVENT\",\"sync_fallback\"," ++ reactionText ++ cstr "]"

/-- The end of what is stored there. -/
def eoseMessage : CStr := cstr "[\"EOSE\",\"sync_fallback\"]"

/-- `cJSON` on these messages. -/
def syncPlatform : Platform :=
  { textPlatform [(eventMessage, .array [.string (cstr "EVENT"), .string (cstr "sync_fallback"),
      reaction.tree]), (eoseMessage, .array [.string (cstr "EOSE"),
      .string (cstr "sync_fallback")])] with
    print := JsonText.unformatted }

theorem parse_eventMessage : syncPlatform.parse eventMessage =
    some (.array [.string (cstr "EVENT"), .string (cstr "sync_fallback"), reaction.tree]) := by
  simp [syncPlatform, textPlatform]

theorem parse_eoseMessage : syncPlatform.parse eoseMessage =
    some (.array [.string (cstr "EOSE"), .string (cstr "sync_fallback")]) := by
  have hne : eventMessage ≠ eoseMessage := by decide
  simp [syncPlatform, textPlatform, hne]

theorem commandOf_eventMessage : commandOf syncPlatform eventMessage = some (cstr "EVENT") := by
  unfold commandOf
  rw [parse_eventMessage]
  rfl

theorem commandOf_eoseMessage : commandOf syncPlatform eoseMessage = some (cstr "EOSE") := by
  unfold commandOf
  rw [parse_eoseMessage]
  rfl

theorem isRelayMessage_eventMessage : IsRelayMessage syncPlatform eventMessage :=
  fun _ => ⟨_, _, parse_eventMessage⟩

theorem isRelayMessage_eoseMessage : IsRelayMessage syncPlatform eoseMessage := by
  intro hcommand
  rw [commandOf_eoseMessage] at hcommand
  exact absurd hcommand (by decide)

/-- The event and the end, as the session reads them. -/
abbrev twoMessages : List (Env × CStr) := [(calmEnv, eventMessage), (calmEnv, eoseMessage)]

theorem hasRoom_twoMessages {s : Engine} (h : s.index.length + 2 ≤ s.maxIndexEntries) :
    HasRoom s twoMessages :=
  ⟨h, by simp [twoMessages, calmEnv]⟩

theorem isRelayMessage_twoMessages : ∀ m ∈ twoMessages, IsRelayMessage syncPlatform m.2 := by
  simp [twoMessages, isRelayMessage_eventMessage, isRelayMessage_eoseMessage]

theorem received_twoMessages : received syncPlatform twoMessages = [eventMessage] := by
  rw [received_cons, commandOf_eventMessage, if_neg (by decide), received_cons,
    if_pos commandOf_eoseMessage]

/-- The store with the event, after a session that left its subscription there. -/
def syncedStore : Engine :=
  (reactionStore.saveEventJson (fun _ => []) 10 true
    (JsonText.unformatted (.string (cstr "sync_fallback")))).1

/-- A relay that has only what is stored already: the subscription is a duplicate. -/
theorem reqdiffSync_imports_nothing :
    HasRoom syncedStore twoMessages ∧ (∃ obj e, Carries syncPlatform eventMessage obj e) ∧
      SyncImports syncPlatform 10 syncedStore twoMessages := by
  have hroom : HasRoom syncedStore twoMessages := hasRoom_twoMessages (by decide)
  have hcarries : Carries syncPlatform eventMessage reaction.tree reaction :=
    ⟨reaction.written_tree, _, _, parse_eventMessage⟩
  refine ⟨hroom, ⟨_, _, hcarries⟩, (reqdiffSync_imports_iff JsonText.unformatted_unformatted 10
    hroom isRelayMessage_twoMessages).mpr (.inr ⟨by decide, ?_⟩)⟩
  rw [received_twoMessages]
  intro text htext obj e he
  obtain rfl := List.mem_singleton.mp htext
  -- the message carries no other event than the one that is stored
  obtain ⟨hwritten, sub, rest, hparse⟩ := he
  rw [parse_eventMessage] at hparse
  obtain ⟨-, rfl, -⟩ : _ ∧ reaction.tree = obj ∧ _ := by simpa using hparse
  have hid := hwritten.id
  rw [reaction.written_tree.id, Option.some.injEq, Json.string.injEq] at hid
  rw [← hexText_injective 32 hid]
  decide

/-- A relay that has the event: what is stored is the subscription. -/
theorem event_not_imported :
    HasRoom (Engine.empty 5000 3600) [(calmEnv, eventMessage), (calmEnv, eoseMessage)] ∧
      (∀ m ∈ [(calmEnv, eventMessage), (calmEnv, eoseMessage)],
        IsRelayMessage syncPlatform m.2) ∧
      ¬ SyncImports syncPlatform 10 (Engine.empty 5000 3600)
        [(calmEnv, eventMessage), (calmEnv, eoseMessage)] := by
  have hroom : HasRoom (Engine.empty 5000 3600) twoMessages := hasRoom_twoMessages (by decide)
  refine ⟨hroom, isRelayMessage_twoMessages, ?_⟩
  rintro ⟨-, himports⟩
  have hevent : ∃ text ∈ received syncPlatform twoMessages,
      commandOf syncPlatform text = some (cstr "EVENT") := by
    rw [received_twoMessages]
    exact ⟨eventMessage, List.mem_cons_self, commandOf_eventMessage⟩
  rw [(reqdiffSync_fields _ _ _ _).1] at himports
  exact not_imports_of_holdsString JsonText.unformatted_unformatted rfl
    (run_holdsString JsonText.unformatted_unformatted (by decide) hroom.2
      isRelayMessage_twoMessages rfl hevent _)
    himports

end Relay

end TollGate
