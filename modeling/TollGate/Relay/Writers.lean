import TollGate.Relay.Deletion

/-!
# The writers of the store

Events come into the store from clients (`router_dispatch` and `handle_event`), from the
firmware itself (`local_relay_publish`) and from other relays (`sync_manager_do_reqdiff_sync`,
which publishes what it is sent). The cleanup task takes events away. `Node` is the relay with a
sync session that may be open, and `Node.step` one step of any of these parties; the steps
of a session may be interleaved with all others.

A run of the C code that follows a null pointer ends there (`fault`).

`stored_events_authentic` says when every stored event is authentic: clients' events pass
the validator, so they only need to be events at all; what is published and what a remote
relay sends is saved without a check.
-/

namespace TollGate

namespace Relay

open CStr CJson TombstoneLog StepRun

/-! ### Messages of clients -/

/-- What surrounds a message: the clock, the seconds since the start, the answers of the rate
limiter and of `fopen`, and what stands in freed memory. -/
structure Env where
  now : UInt32
  seconds : Int64
  allowed : Bool
  opened : Bool
  freed : CStr

/-- The handler a message of a client goes to. -/
inductive Call where
  | event (json : CStr)
  | req (subId filters : CStr)
  | close (subId : CStr)
  | notice (message : String)
  | nothing

/-- `router_dispatch`, up to the call of the handler. -/
def routerDispatch (p : Platform) (data : CStr) : Call :=
  match (p.parse data).bind Json.asArray with
  | none => .notice "invalid JSON"
  | some items =>
    match items with
    | cmd :: second :: rest =>
      match cmd.asString with
      | none => .notice "invalid command"
      | some cmd =>
        if cmd = cstr "EVENT" then .event (p.print second)
        else if cmd = cstr "REQ" ∧ rest ≠ [] then
          match second.asString, rest.head? with
          | some subId, some filter => .req subId (p.print filter)
          | _, _ => .nothing
        else if cmd = cstr "CLOSE" then
          match second.asString with
          | some subId => .close subId
          | none => .nothing
        else .notice "unknown command"
    | _ => .notice "array too short"

/-- The answer to an event: the id, if it is not a null pointer, whether the event is accepted,
and the message. -/
structure OkReply where
  id : Option CStr
  accepted : Bool
  message : String
deriving DecidableEq

/-- The message for a result of the storage. -/
def saveMessage : StorageResult → String
  | .full => "relay full"
  | .duplicate => "duplicate"
  | _ => "storage error"

/-- `config.max_future_sec`, as `local_relay_init` sets it. -/
abbrev maxFutureSec : Int64 := 600

/-- The string of an item, once `cJSON_Delete` has freed the tree it belongs to: the pointer is
what it was, and behind it stands what freed memory holds. -/
def Env.freedString (env : Env) (item : Json) : Option CStr := item.asString.map fun _ => env.freed

/-- The rest of `handle_event` for an event that passed the validator. The tree is freed before the
event is saved, and the answer is given with the id that was in it. -/
def storeEvent (p : Platform) (env : Env) (s : Engine) (json : CStr) (idItem : Json)
    (kind : Int32) : Engine × OkReply :=
  let r := s.saveEventJson p.heap env.now env.opened json
  let idHex := env.freedString idItem
  -- the deletion event itself stays in the store
  if r.2 ≠ .ok then (r.1, ⟨idHex, false, saveMessage r.2⟩)
  else if kind = 5 then ((deletionProcessJson p env.now env.freed r.1 json).1, ⟨idHex, true, ""⟩)
  else (r.1, ⟨idHex, true, ""⟩)

/-- `handle_event`, up to the broadcast. An answer that names the event is given after
`cJSON_Delete(obj)`. -/
def handleEvent (p : Platform) (env : Env) (s : Engine) (json : CStr) :
    Except Fault (Engine × OkReply) :=
  if !env.allowed then .ok (s, ⟨some [], false, "rate limited"⟩)
  else match p.parse json with
    | none => .ok (s, ⟨some [], false, "invalid JSON"⟩)
    | some obj =>
      match obj.getObjectItem "id", obj.getObjectItem "pubkey", obj.getObjectItem "kind",
        obj.getObjectItem "created_at" with
      | some idItem, some _, some kindItem, some createdAt =>
        if createdAt.toNumber.valueUInt64.toInt64 > env.seconds + maxFutureSec then
          .ok (s, ⟨env.freedString idItem, false, "created_at too far in future"⟩)
        else do
          let idHex ← deref idItem.asString
          match hexBytes 32 p.heap idHex with
          | none => return (s, ⟨some [], false, "invalid event id"⟩)
          | some eventId =>
            if s.eventExists eventId then
              return (s, ⟨env.freedString idItem, true, "duplicate"⟩)
            else
              let valid ← relayValidatorVerifyEvent p json
              if !valid then return (s, ⟨env.freedString idItem, false, "invalid signature"⟩)
              else return storeEvent p env s json idItem kindItem.valueint
      | _, _, _, _ => .ok (s, ⟨some [], false, "missing required fields"⟩)

/-! ### The firmware and other relays -/

/-- `local_relay_publish`: the engine, and whether the result is `ESP_OK`. -/
def localRelayPublish (p : Platform) (env : Env) (s : Engine) (json : CStr) : Engine × Bool :=
  let r := s.saveEventJson p.heap env.now env.opened json
  (r.1, r.2 = .ok || r.2 = .duplicate)

/-- `get_event_ids_from_storage`. -/
def getEventIdsFromStorage (p : Platform) (now : UInt32) (s : Engine) : List CStr :=
  (s.queryEventsJson p.heap now (-1) none 5000).filterMap fun json =>
    ((p.parse json).bind fun obj => obj.getObjectItem "id").bind Json.asString

/-- What the loop of `sync_manager_do_reqdiff_sync` does with a message. -/
inductive SyncStep where
  | skip
  | store (json : CStr)
  | eose

/-- A turn of that loop. The second item of the array is taken for the event. -/
def reqdiffTurn (p : Platform) (localIds : List CStr) (resp : CStr) : Except Fault SyncStep :=
  match p.parse resp with
  | none => .ok .skip
  | some arr =>
    match (arr.getArrayItem 0).bind Json.asString with
    | none => .ok .skip
    | some cmd =>
      if cmd = cstr "EVENT" then
        match arr.getArrayItem 1 with
        | none => .ok .skip
        | some eventObj =>
          match eventObj.getObjectItem "id" with
          | none => .ok (.store (p.print eventObj))
          | some idItem =>
            -- what came over the wire is stored as it is printed again, and nothing verifies it
            if localIds = [] then .ok (.store (p.print eventObj))
            else (deref idItem.asString).map fun id =>
              if id ∈ localIds then .skip else .store (p.print eventObj)
      else if cmd = cstr "EOSE" then .ok .eose
      else .ok .skip

/-! ### The relay -/

/-- The relay: its store, the ids of an open sync session, and the fault that ended it. -/
structure Node where
  engine : Engine
  session : Option (List CStr)
  fault : Option Fault

/-- The relay on an empty store. -/
def Node.empty (maxIndexEntries : ℕ) (defaultTtlSec : UInt32) : Node :=
  ⟨Engine.empty maxIndexEntries defaultTtlSec, none, none⟩

/-- A step of one of the parties. -/
inductive Action where
  | client (env : Env) (data : CStr)
  | publish (env : Env) (json : CStr)
  | syncStart (now : UInt32)
  | syncMessage (env : Env) (resp : CStr)
  | syncEnd
  | purge (now : UInt32)
  | compact

/-- One step. -/
def Node.step (p : Platform) (n : Node) (a : Action) : Node :=
  if n.fault.isSome then n
  else match a with
    | .client env data =>
      match routerDispatch p data with
      | .event json =>
        match handleEvent p env n.engine json with
        | .error f => { n with fault := some f }
        | .ok r => { n with engine := r.1 }
      | _ => n
    | .publish env json => { n with engine := (localRelayPublish p env n.engine json).1 }
    | .syncStart now => { n with session := some (getEventIdsFromStorage p now n.engine) }
    | .syncMessage env resp =>
      match n.session with
      | none => n
      | some localIds =>
        match reqdiffTurn p localIds resp with
        | .error f => { n with fault := some f }
        | .ok .skip => n
        | .ok .eose => { n with session := none }
        | .ok (.store json) => { n with engine := (localRelayPublish p env n.engine json).1 }
    | .syncEnd => { n with session := none }
    | .purge now => { n with engine := (n.engine.purgeExpired now).1 }
    | .compact => { n with engine := n.engine.compactIndex.1 }

/-! ### What is in the files -/

/-- Every file holds a text with the property. -/
def FilesAll (P : CStr → Prop) (s : Engine) : Prop := ∀ path text, s.files path = some text → P text

section FilesAll

variable {P : CStr → Prop} {s : Engine}

theorem FilesAll.unlink {files : CStr → Option CStr}
    (h : ∀ path text, files path = some text → P text) (e : IndexEntry) {path text : CStr}
    (htext : Engine.unlink files e path = some text) : P text := by
  unfold Engine.unlink Function.update at htext
  split at htext
  · exact absurd htext (by simp)
  · exact h path text htext

theorem FilesAll.deleteEvent (h : FilesAll P s) (id : Vector UInt8 32) :
    FilesAll P (s.deleteEvent id).1 := by
  unfold Engine.deleteEvent
  split
  · exact h
  · -- a deletion only takes a file away
    intro path text htext
    rw [files_saveIndexToNvs] at htext
    dsimp only at htext
    split at htext
    · exact FilesAll.unlink h _ htext
    · exact h path text htext

theorem FilesAll.deletionProcessJson (h : FilesAll P s) (p : Platform) (now : UInt32)
    (freed json : CStr) : FilesAll P (deletionProcessJson p now freed s json).1 := by
  cases hparse : p.parse json with
  | none =>
    unfold Relay.deletionProcessJson
    rw [hparse]
    exact h
  | some obj =>
    cases hkind : isDeletion obj with
    | false =>
      unfold Relay.deletionProcessJson
      simp only [hparse, hkind]
      exact h
    | true =>
      -- a run over the tags, and for each tag one over its ids
      rw [deletionProcessJson_fst hparse hkind]
      refine run_induction ?_ h (routes obj)
      intro s r hs
      exact run_induction (fun s id (hs : FilesAll P s) => hs.deleteEvent id) hs _

theorem FilesAll.purgeExpired (h : FilesAll P s) (now : UInt32) :
    FilesAll P (s.purgeExpired now).1 := by
  have hfold : ∀ (entries : List IndexEntry) (files : CStr → Option CStr),
      (∀ path text, files path = some text → P text) →
        ∀ path text, entries.foldl Engine.unlink files path = some text → P text := by
    intro entries
    induction entries with
    | nil => exact fun _ hfiles => hfiles
    | cons e entries ih =>
      intro files hfiles
      exact ih _ fun path text => FilesAll.unlink hfiles e
  intro path text htext
  refine hfold (s.index.filter (Engine.purges now)) s.files h path text ?_
  rw [← htext]
  unfold Engine.purgeExpired
  dsimp only
  split <;> rfl

theorem FilesAll.compactIndex (h : FilesAll P s) : FilesAll P s.compactIndex.1 := by
  unfold Engine.compactIndex
  dsimp only
  split <;> exact h

/-- The store takes the text: its id is new, there is room, and the file can be opened. -/
def Engine.takes (s : Engine) (p : Platform) (env : Env) (json : CStr) : Prop :=
  s.eventExists (s.newEntry p.heap env.now json).eventId = false ∧
    s.index.length < s.maxIndexEntries ∧ env.opened = true

theorem FilesAll.saveEventJson (h : FilesAll P s) {p : Platform} {env : Env} {json : CStr}
    (hjson : s.takes p env json → P json) :
    FilesAll P (s.saveEventJson p.heap env.now env.opened json).1 := by
  rcases saveEventJson_cases s p.heap env.now env.opened json with
    ⟨hsame, -⟩ | ⟨-, hopened, hnew, hroom, -, -, -, hfiles⟩
  · rw [hsame]
    exact h
  · intro path text htext
    rw [hfiles] at htext
    unfold Function.update at htext
    -- the new file has the text, the others are as before
    split at htext
    · obtain rfl : json = text := by simpa using htext
      exact hjson ⟨hnew, hroom, hopened⟩
    · exact h path text htext

/-- An event of a client is saved once the validator has said yes, or the store is as it
was. -/
theorem handleEvent_cases {p : Platform} {env : Env} {json : CStr} {r : Engine × OkReply}
    (h : handleEvent p env s json = .ok r) :
    r.1 = s ∨
      relayValidatorVerifyEvent p json = .ok true ∧
        ∃ idItem kind, r = storeEvent p env s json idItem kind := by
  unfold handleEvent at h
  split at h
  · exact .inl (by cases h; rfl)
  · split at h
    · exact .inl (by cases h; rfl)
    · split at h
      case h_2 => exact .inl (by cases h; rfl)
      next idItem _ kindItem createdAt _ _ _ _ =>
        split at h
        · exact .inl (by cases h; rfl)
        · cases hid : idItem.asString with
          | none =>
            rw [hid] at h
            exact absurd h (by simp [deref, bind, Except.bind])
          | some idHex =>
            simp only [hid, deref, bind, Except.bind] at h
            split at h
            · exact .inl (by cases h; rfl)
            · split at h
              · exact .inl (by cases h; rfl)
              · split at h
                · exact absurd h (by simp)
                -- the validator has answered, and only its yes leads to a save
                next valid hverify =>
                  split at h
                  · exact .inl (by cases h; rfl)
                  next hvalid =>
                    refine .inr ⟨?_, idItem, kindItem.valueint, ?_⟩
                    · rw [hverify]
                      simpa using hvalid
                    · cases h
                      rfl

theorem FilesAll.storeEvent (h : FilesAll P s) {p : Platform} {env : Env} {json : CStr}
    (hjson : s.takes p env json → P json) (idItem : Json) (kind : Int32) :
    FilesAll P (storeEvent p env s json idItem kind).1 := by
  have hsave := h.saveEventJson hjson
  unfold Relay.storeEvent
  dsimp only
  split
  · exact hsave
  · split
    · exact hsave.deletionProcessJson p _ _ _
    · exact hsave

end FilesAll

/-! ### Authentic stores -/

/-- The text is that of an event. -/
def IsEvent (p : Platform) (json : CStr) : Prop :=
  ∃ obj, p.parse json = some obj ∧ ∃ e : Event, e.Written obj

/-- The text is that of an authentic event. -/
def AuthenticText (p : Platform) (json : CStr) : Prop :=
  ∃ obj, p.parse json = some obj ∧ Authentic p obj

theorem IsEvent.authenticText {p : Platform} {json : CStr} (h : IsEvent p json)
    (hvalid : relayValidatorVerifyEvent p json = .ok true) : AuthenticText p json := by
  obtain ⟨obj, hparse, e, he⟩ := h
  exact ⟨obj, hparse, (relayValidatorVerifyEvent_iff hparse he).mp hvalid⟩

/-- What a step may bring into the store. From a client, whose text has passed the validator:
an event. From the firmware and from another relay: an authentic event. -/
def Trusted (p : Platform) (n : Node) : Action → Prop
  | .client env data => ∀ json, routerDispatch p data = .event json →
      relayValidatorVerifyEvent p json = .ok true → n.engine.takes p env json → IsEvent p json
  | .publish env json => n.engine.takes p env json → AuthenticText p json
  | .syncMessage env resp => ∀ localIds json, n.session = some localIds →
      reqdiffTurn p localIds resp = .ok (.store json) → n.engine.takes p env json →
        AuthenticText p json
  | _ => True

theorem filesAll_step {p : Platform} {n : Node} {a : Action}
    (h : FilesAll (AuthenticText p) n.engine) (ha : Trusted p n a) :
    FilesAll (AuthenticText p) (n.step p a).engine := by
  unfold Node.step
  split
  · exact h
  · cases a with
    | client env data =>
      dsimp only
      split
      next json hcall =>
        split
        · exact h
        next r hr =>
          -- a client's text: what the validator accepts of events is authentic
          rcases handleEvent_cases hr with hsame | ⟨hvalid, idItem, kind, rfl⟩
          · rw [hsame]
            exact h
          · exact h.storeEvent
              (fun htakes => (ha json hcall hvalid htakes).authenticText hvalid) idItem kind
      · exact h
    | publish env json => exact h.saveEventJson ha
    | syncStart now => exact h
    | syncMessage env resp =>
      dsimp only
      split
      · exact h
      next localIds hsession =>
        split
        · exact h
        · exact h
        · exact h
        -- a text of another relay, which the step has to vouch for
        next json hturn => exact h.saveEventJson (ha localIds json hsession hturn)
    | syncEnd => exact h
    | purge now => exact h.purgeExpired now
    | compact => exact h.compactIndex

/-- The event `reaction` as a message. -/
def reactionMessage : CStr := cstr "[\"EVENT\"," ++ reactionText ++ cstr "]"

/-- `cJSON` on the event `reaction`, as a text, as a message and in its serialisation. -/
def reactionPlatform : Platform :=
  { textPlatform [(reactionText, reaction.tree),
      (reactionMessage, .array [.string (cstr "EVENT"), reaction.tree])] with
    print := fun j => match j with
      | .object _ => reactionText
      | _ => cstr "[0,\"" ++ hexText reaction.pubkey.toList ++ cstr "\",5,7,[],\"\"]" }

/-- Everything goes well at the tenth second. -/
def calmEnv : Env := ⟨10, 10, true, true, []⟩

theorem parse_reactionText : reactionPlatform.parse reactionText = some reaction.tree := by
  simp [reactionPlatform, textPlatform]

/-- The same event with its hash for an id and a signature. -/
def signedPlatform : Platform :=
  { reactionPlatform with
    sha256 := fun _ => reaction.id
    schnorrVerify := fun _ _ _ => true }

end Relay

end TollGate
