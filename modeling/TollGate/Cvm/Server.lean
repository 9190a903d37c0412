import TollGate.Lib.ByteOrder
import TollGate.Lib.Run
import TollGate.Relay.Event

/-!
# The remote control channel

`cvm_server.c` listens to a relay for events of kind 25910 and runs the MCP tool that the
content of such an event calls. What comes in is bytes: a read is taken for one WebSocket
frame (`parse_ws_text_frame`), its text for a message of the relay (`process_relay_message`)
and the content of an event for an MCP message (`handle_mcp_message`).

The only thing known of the sender is the key that the event carries. Neither its id nor its
signature is looked at (`calls_authentic_iff`), and nothing is remembered of the events that
were served, so that an event is served as often as it is delivered
(`executions_le_deliveries`).
-/

namespace TollGate

namespace Cvm

open CStr CJson StepRun TollGate.Relay

/-! ### Frames -/

/-- The length of the payload and where the length field ends. -/
def payloadLength (buf : List UInt8) : Option (ℕ × ℕ) :=
  let short := (buf.getD 1 0 &&& 0x7F).toNat
  if short = 126 then
    if buf.length < 4 then none else some (beNat ((buf.drop 2).take 2), 4)
  else if short = 127 then
    if buf.length < 10 then none else some (beNat ((buf.drop 2).take 8), 10)
  else some (short, 2)

/-- `parse_ws_text_frame`, as a C string. A length over which the sum of the length test wraps
is one that `malloc` refuses. -/
def parseWsTextFrame (buf : List UInt8) : Option CStr :=
  if buf.length < 2 then none
  else match payloadLength buf with
    | none => none
    | some (length, offset) =>
      let masked := buf.getD 1 0 &&& 0x80 ≠ 0
      let offset := if masked then offset + 4 else offset
      -- a frame that is not all there is thrown away
      if offset + length > buf.length then none
      else
        let payload := (buf.drop offset).take length
        let text := if masked then payload.mapIdx fun i b => b ^^^ buf.getD (offset - 4 + i % 4) 0
          else payload
        some (text.takeWhile (· ≠ 0))

/-! ### MCP messages -/

/-- `mcp_tool_t`. -/
inductive Tool where
  | getConfig
  | setConfig
  | getBalance
  | walletSend
  | getSessions
  | getUsage
  | setPayout
  | setMetric
  | setPrice
  | walletMelt
  | unknown
deriving DecidableEq

/-- `mcp_parse_tool`. -/
def mcpParseTool (method : CStr) : Tool :=
  if method = cstr "get_config" then .getConfig
  else if method = cstr "set_config" then .setConfig
  else if method = cstr "get_balance" then .getBalance
  else if method = cstr "wallet_send" then .walletSend
  else if method = cstr "get_sessions" then .getSessions
  else if method = cstr "get_usage" then .getUsage
  else if method = cstr "set_payout" then .setPayout
  else if method = cstr "set_metric" then .setMetric
  else if method = cstr "set_price" then .setPrice
  else if method = cstr "wallet_melt" then .walletMelt
  else .unknown

/-- `mcp_request_t`. -/
structure McpRequest where
  tool : Tool
  method : CStr
  paramsJson : CStr
deriving DecidableEq

/-- What is done with an MCP message. An answer goes with the id of the message. -/
inductive McpAction where
  | nothing
  | initializeRequest (id : CStr)
  | initialized
  | toolsList (id : CStr)
  | call (id : CStr) (request : McpRequest)
  | ping (id : CStr)

/-- The request of a `tools/call`, if it names a tool. -/
def callRequest (p : Platform) (msg : Json) : Option McpRequest :=
  let params := msg.getObjectItem "params"
  match (params.bind fun j => j.getObjectItem "name").bind Json.asString with
  | none => none
  | some name => some
    { tool := mcpParseTool name
      method := strncpy 64 name
      paramsJson := match params.bind fun j => j.getObjectItem "arguments" with
        | none => []
        | some arguments => strncpy 1024 (p.print arguments) }

/-- `handle_mcp_message`. A content that is no string parses to nothing. -/
def handleMcpMessage (p : Platform) (content : Option CStr) : McpAction :=
  match content.bind p.parse with
  | none => .nothing
  | some msg =>
    let id := match (msg.getObjectItem "id").filter fun j => j.asNumber.isSome with
      | some n => p.print n
      | none => cstr "0"
    match (msg.getObjectItem "method").bind Json.asString with
    | none => .nothing
    | some m =>
      if m = cstr "initialize" then .initializeRequest id
      else if m = cstr "notifications/initialized" then .initialized
      else if m = cstr "tools/list" then .toolsList id
      else if m = cstr "tools/call" then
        match callRequest p msg with
        | some request => .call id request
        | none => .nothing
      else if m = cstr "ping" then .ping id
      else .nothing

/-! ### Messages of the relay -/

/-- An event that is handed on, with the id that answers refer to. -/
structure Handled where
  event : Json
  eventId : Option CStr
  action : McpAction

/-- The string of a member. -/
def stringMember (event : Json) (name : String) : Option CStr :=
  (event.getObjectItem name).bind Json.asString

/-- `process_relay_message`, where `owner` is the key of the device. -/
def processRelayMessage (p : Platform) (owner text : CStr) : Option Handled :=
  match (p.parse text).bind Json.asArray with
  | none => none
  | some items =>
    if (items[0]?.bind Json.asString) ≠ some (cstr "EVENT") then none
    else match items[2]? with
      | none => none
      | some event =>
        match event.getObjectItem "kind", event.getObjectItem "pubkey", event.getObjectItem "id",
          event.getObjectItem "content" with
        | some kind, some pubkey, some id, some content =>
          if kind.valueint ≠ 25910 then none
          else if pubkey.asString ≠ some owner then none
          else some ⟨event, id.asString, handleMcpMessage p content.asString⟩
        | _, _, _, _ => none

/-- A tool that is run, and the event that asked for it. -/
structure Execution where
  event : Json
  eventId : Option CStr
  request : McpRequest

/-- The tool that a message of the relay makes the server run. -/
def execution (p : Platform) (owner text : CStr) : Option Execution :=
  match processRelayMessage p owner text with
  | some ⟨event, eventId, .call _ request⟩ => some ⟨event, eventId, request⟩
  | _ => none

/-! ### The server -/

/-- The server: whether it listens on a connection, and the tools that were run. -/
structure Server where
  connected : Bool
  executed : List Execution

/-- What happens to the server: an attempt to connect and subscribe, a read of some bytes, a read
that finds the connection closed, a read that fails. -/
inductive Input where
  | connect (ok subscribed : Bool)
  | received (buf : List UInt8)
  | closed
  | readError

/-- A turn of `cvm_relay_task`. -/
def Server.step (p : Platform) (owner : CStr) (s : Server) : Input → Server
  | .connect ok subscribed => if s.connected then s else { s with connected := ok && subscribed }
  | .received buf =>
    if !s.connected then s
    else if buf.getD 0 0 &&& 0x0F = 0x01 then
      match parseWsTextFrame buf with
      | none => s
      | some text =>
        if text.length > 0 then
          { s with executed := s.executed ++ (execution p owner text).toList }
        else s
    else if buf.getD 0 0 &&& 0x0F = 0x08 then { s with connected := false }
    else s
  | .closed => { s with connected := false }
  | .readError => s

/-- The server before its first connection. -/
def Server.start : Server := ⟨false, []⟩

/-! ### What a run executes -/

/-- Whether the server is connected after an input. -/
def nextConnected (connected : Bool) : Input → Bool
  | .connect ok subscribed => connected || (ok && subscribed)
  | .received buf => connected && buf.getD 0 0 &&& 0x0F ≠ 0x08
  | .closed => false
  | .readError => connected

/-- The text that an input hands to `process_relay_message`. -/
def textOf (connected : Bool) : Input → Option CStr
  | .received buf =>
    if connected && buf.getD 0 0 &&& 0x0F = 0x01 then
      (parseWsTextFrame buf).filter fun text => text.length > 0
    else none
  | _ => none

/-- The texts that are delivered in a run. -/
def deliveries : Bool → List Input → List CStr
  | _, [] => []
  | connected, input :: inputs =>
    (textOf connected input).toList ++ deliveries (nextConnected connected input) inputs

section Runs

variable (p : Platform) (owner : CStr)

theorem connected_step (s : Server) (input : Input) :
    (s.step p owner input).connected = nextConnected s.connected input := by
  cases input with
  | connect ok subscribed => cases h : s.connected <;> simp [Server.step, nextConnected, h]
  | received buf =>
    cases h : s.connected with
    | false => simp [Server.step, nextConnected, h]
    | true =>
      -- a text frame keeps the connection, a close frame ends it
      simp only [Server.step, nextConnected, h, Bool.not_true, Bool.false_eq_true, if_false]
      by_cases htext : buf.getD 0 0 &&& 0x0F = 0x01
      · have hclose : buf.getD 0 0 &&& 0x0F ≠ 0x08 := by
          rw [htext]
          decide
        rw [if_pos htext, Bool.true_and, decide_eq_true hclose]
        split
        · exact h
        · split
          · rfl
          · exact h
      · rw [if_neg htext]
        split
        next hclose => rw [Bool.true_and, decide_eq_false (not_not.mpr hclose)]
        next hclose => rw [h, Bool.true_and, decide_eq_true hclose]
  | closed => rfl
  | readError => rfl

theorem executed_step (s : Server) (input : Input) :
    (s.step p owner input).executed =
      s.executed ++ ((textOf s.connected input).bind (execution p owner)).toList := by
  cases input with
  | connect ok subscribed =>
    simp only [Server.step, textOf]
    split <;> simp
  | received buf =>
    cases h : s.connected with
    | false => simp [Server.step, textOf, h]
    | true =>
      simp only [Server.step, textOf, h, Bool.not_true, Bool.false_eq_true, if_false, Bool.true_and,
        decide_eq_true_eq]
      split
      · cases parseWsTextFrame buf with
        | none => simp
        | some text =>
          by_cases htext : text.length > 0
          · simp [Option.filter, htext]
          · simp [Option.filter, htext]
      · split <;> simp
  | closed => simp [Server.step, textOf]
  | readError => simp [Server.step, textOf]

/-- A run executes what the delivered texts ask for, one after the other. -/
theorem executed_run (s : Server) (inputs : List Input) :
    (run (Server.step p owner) s inputs).executed =
      s.executed ++ (deliveries s.connected inputs).filterMap (execution p owner) := by
  induction inputs generalizing s with
  | nil => simp [deliveries]
  | cons input inputs ih =>
    -- the first input, and what is delivered after it
    rw [run_cons, ih, executed_step, connected_step, deliveries, List.filterMap_append,
      List.append_assoc]
    congr 2
    cases textOf s.connected input with
    | none => rfl
    | some text =>
      rw [Option.bind_some, Option.toList_some, List.filterMap_cons, List.filterMap_nil]
      cases execution p owner text <;> rfl

end Runs

/-! ### Messages that carry a call -/

/-- The message is an event of kind 25910 with the owner's key, an id and a content that calls a
tool. -/
structure CarriesCall (p : Platform) (owner text : CStr) (event : Json) : Prop where
  message : ∃ items, p.parse text = some (.array items) ∧
    items[0]? = some (.string (cstr "EVENT")) ∧ items[2]? = some event
  kind : ∃ kind, event.getObjectItem "kind" = some kind ∧ kind.valueint = 25910
  pubkey : event.getObjectItem "pubkey" = some (.string owner)
  id : ∃ id, event.getObjectItem "id" = some id
  content : ∃ content msg params name, event.getObjectItem "content" = some (.string content) ∧
    p.parse content = some msg ∧ msg.getObjectItem "method" = some (.string (cstr "tools/call")) ∧
    msg.getObjectItem "params" = some params ∧ params.getObjectItem "name" = some (.string name)

theorem callRequest_isSome_iff (p : Platform) (msg : Json) :
    (∃ request, callRequest p msg = some request) ↔ ∃ params name,
      msg.getObjectItem "params" = some params ∧
        params.getObjectItem "name" = some (.string name) := by
  unfold callRequest
  dsimp only
  cases hparams : msg.getObjectItem "params" with
  | none => simp
  | some params =>
    simp only [Option.bind_some, Option.some.injEq, ↓existsAndEq, true_and,
      ← Json.bind_asString_eq_some]
    cases (params.getObjectItem "name").bind Json.asString <;> simp

/-- A message calls a tool exactly if it is a `tools/call` with a name. -/
theorem handleMcpMessage_call_iff {p : Platform} {text : CStr} {msg : Json}
    (hmsg : p.parse text = some msg) :
    (∃ id request, handleMcpMessage p (some text) = .call id request) ↔
      msg.getObjectItem "method" = some (.string (cstr "tools/call")) ∧ ∃ params name,
        msg.getObjectItem "params" = some params ∧
          params.getObjectItem "name" = some (.string name) := by
  rw [← callRequest_isSome_iff p, ← Json.bind_asString_eq_some]
  unfold handleMcpMessage
  rw [Option.bind_some, hmsg]
  dsimp only
  cases (msg.getObjectItem "method").bind Json.asString with
  | none => simp
  | some m =>
    rw [Option.some.injEq]
    by_cases hcall : m = cstr "tools/call"
    · subst hcall
      have hinit : cstr "tools/call" ≠ cstr "initialize" := by decide
      have hnote : cstr "tools/call" ≠ cstr "notifications/initialized" := by decide
      have hlist : cstr "tools/call" ≠ cstr "tools/list" := by decide
      simp only [hinit, hnote, hlist, if_false, if_true, true_and]
      cases callRequest p msg <;> simp
    · simp only [hcall, if_false, false_and, iff_false]
      rintro ⟨id, request, h⟩
      split_ifs at h

/-- A message is handed on if it is an event of kind 25910 with the owner's key, an id and a
content. -/
theorem processRelayMessage_eq_some {p : Platform} {owner text : CStr} {r : Handled}
    (h : processRelayMessage p owner text = some r) :
    ∃ items kind idItem content, p.parse text = some (.array items) ∧
      items[0]? = some (.string (cstr "EVENT")) ∧ items[2]? = some r.event ∧
      r.event.getObjectItem "kind" = some kind ∧ kind.valueint = 25910 ∧
      r.event.getObjectItem "pubkey" = some (.string owner) ∧
      r.event.getObjectItem "id" = some idItem ∧ r.eventId = idItem.asString ∧
      r.event.getObjectItem "content" = some content ∧
      r.action = handleMcpMessage p content.asString := by
  unfold processRelayMessage at h
  split at h
  · exact absurd h (by simp)
  next items hitems =>
    obtain ⟨arr, hparse, harr⟩ := Option.bind_eq_some_iff.mp hitems
    rw [Json.asArray_eq_some.mp harr] at hparse
    split at h
    · exact absurd h (by simp)
    next hcmd =>
      rw [not_not, Json.bind_asString_eq_some] at hcmd
      split at h
      · exact absurd h (by simp)
      next event hevent =>
        split at h
        case h_2 => exact absurd h (by simp)
        next kind pubkey idItem content hkind hpubkey hid hcontent =>
          -- the kind and the key are all that is tested
          split_ifs at h with hkind' howner
          obtain rfl := (Option.some.inj h).symm
          rw [not_not] at hkind' howner
          rw [Json.asString_eq_some.mp howner] at hpubkey
          exact ⟨items, kind, idItem, content, hparse, hcmd, hevent, hkind, hkind', hpubkey, hid,
            rfl, hcontent, rfl⟩

/-- The tool that is run is the one the message carries. -/
theorem execution_carries {p : Platform} {owner text : CStr} {x : Execution}
    (h : execution p owner text = some x) :
    CarriesCall p owner text x.event ∧ x.eventId = stringMember x.event "id" := by
  unfold execution at h
  split at h
  case h_2 => exact absurd h (by simp)
  next event eventId id request hprocess =>
    obtain rfl := (Option.some.inj h).symm
    obtain ⟨items, kind, idItem, content, hparse, hcmd, hevent, hkind, hkind', hpubkey, hid,
      hidString, hcontent, hmcp⟩ := processRelayMessage_eq_some hprocess
    -- only a string with a message in it can be a call
    cases htext : content.asString with
    | none => simp [htext, handleMcpMessage] at hmcp
    | some contentText =>
      cases hmsg : p.parse contentText with
      | none => simp [htext, handleMcpMessage, hmsg] at hmcp
      | some msg =>
        rw [htext] at hmcp
        obtain ⟨hmethod, params, name, hparams, hname⟩ :=
          (handleMcpMessage_call_iff hmsg).mp ⟨id, request, hmcp.symm⟩
        rw [Json.asString_eq_some.mp htext] at hcontent
        refine ⟨⟨⟨items, hparse, hcmd, hevent⟩, ⟨kind, hkind, hkind'⟩, hpubkey, ⟨idItem, hid⟩,
          contentText, msg, params, name, hcontent, hmsg, hmethod, hparams, hname⟩, ?_⟩
        rw [stringMember, hid, Option.bind_some]
        exact hidString

/-- Every message that carries a call has its tool run. -/
theorem CarriesCall.execution {p : Platform} {owner text : CStr} {event : Json}
    (h : CarriesCall p owner text event) :
    ∃ x, execution p owner text = some x ∧ x.event = event := by
  obtain ⟨items, hparse, hcmd, hevent⟩ := h.message
  obtain ⟨kind, hkind, hkind'⟩ := h.kind
  obtain ⟨idItem, hid⟩ := h.id
  obtain ⟨contentText, msg, params, name, hcontent, hmsg, hmethod, hparams, hname⟩ := h.content
  obtain ⟨id, request, hmcp⟩ :=
    (handleMcpMessage_call_iff hmsg).mpr ⟨hmethod, params, name, hparams, hname⟩
  refine ⟨⟨event, idItem.asString, request⟩, ?_, rfl⟩
  simp [Cvm.execution, processRelayMessage, hparse, Json.asArray, hcmd, Json.asString, hevent,
    hkind, h.pubkey, hid, hcontent, hkind', hmcp]

/-! ### Authority -/

theorem mem_executed_iff {p : Platform} {owner : CStr} {inputs : List Input} {x : Execution} :
    x ∈ (run (Server.step p owner) Server.start inputs).executed ↔
      ∃ text ∈ deliveries false inputs, execution p owner text = some x := by
  rw [executed_run]
  simp [Server.start, List.mem_filterMap]

/-- **Exactly when only authentic events of the owner have their tools run.** For every stream of
connections and bytes: every delivered message that is of kind 25910, carries the owner's key and
calls a tool is an authentic event. The key is always the owner's. -/
theorem calls_authentic_iff (p : Platform) (owner : CStr) (inputs : List Input) :
    (∀ x ∈ (run (Server.step p owner) Server.start inputs).executed,
      stringMember x.event "pubkey" = some owner ∧ Authentic p x.event) ↔
      ∀ text ∈ deliveries false inputs, ∀ event, CarriesCall p owner text event →
        Authentic p event := by
  refine ⟨?_, ?_⟩
  · intro h text htext event hcarries
    obtain ⟨x, hx, rfl⟩ := hcarries.execution
    exact (h x (mem_executed_iff.mpr ⟨text, htext, hx⟩)).2
  · intro h x hx
    obtain ⟨text, htext, hx⟩ := mem_executed_iff.mp hx
    have hcarries := (execution_carries hx).1
    refine ⟨?_, h text htext x.event hcarries⟩
    rw [stringMember, Json.bind_asString_eq_some]
    exact hcarries.pubkey

/-- The owner's request to send 21 sats. -/
def command : Event :=
  ⟨Vector.replicate 32 4, Vector.replicate 32 2, .ofInt 5, 25910, [],
    cstr "\x7b\"method\":\"tools/call\",\"params\":" ++
      cstr "\x7b\"name\":\"wallet_send\",\"arguments\":\x7b\"amount\":21\x7d\x7d\x7d",
    Vector.replicate 64 3⟩

/-- The arguments of the call. -/
def commandArguments : Json := .object [(cstr "amount", .number (.ofInt 21))]

/-- The content of the request. -/
def commandContent : Json :=
  .object [(cstr "method", .string (cstr "tools/call")),
    (cstr "params", .object [(cstr "name", .string (cstr "wallet_send")),
      (cstr "arguments", commandArguments)])]

/-- The request as a message of a relay. -/
def commandMessage : CStr :=
  cstr "[\"EVENT\",\"cvm_sub\"," ++ sampleText command (cstr "[]")
    (command.content.flatMap fun b => if b = 34 then [92, 34] else [b]) ++ cstr "]"

/-- `cJSON` on the request. Its signature does not verify. -/
def commandPlatform : Platform :=
  { textPlatform [(commandMessage,
        .array [.string (cstr "EVENT"), .string (cstr "cvm_sub"), command.tree]),
      (command.content, commandContent)] with
    print := fun _ => cstr "\x7b\"amount\":21\x7d" }

/-- The key of the owner. -/
def ownerKey : CStr := hexText command.pubkey.toList

/-- A text frame with a 16-bit length. -/
def textFrame (text : CStr) : List UInt8 :=
  [0x81, 126, UInt8.ofNat (text.length / 256), UInt8.ofNat text.length] ++ text

theorem command_carries : CarriesCall commandPlatform ownerKey commandMessage command.tree := by
  have hne : commandMessage ≠ command.content := by decide
  refine ⟨⟨[.string (cstr "EVENT"), .string (cstr "cvm_sub"), command.tree], ?_, rfl, rfl⟩,
    ⟨_, rfl, rfl⟩, rfl, ⟨_, rfl⟩, command.content, commandContent, _, _, rfl, ?_, rfl, rfl, rfl⟩
  · simp [commandPlatform, textPlatform]
  · simp [commandPlatform, textPlatform, hne]

/-- A request that only carries the owner's key is obeyed. -/
theorem unsigned_call_executed :
    ¬ ∀ x ∈ (run (Server.step commandPlatform ownerKey) Server.start
        [.connect true true, .received (textFrame commandMessage)]).executed,
      stringMember x.event "pubkey" = some ownerKey ∧ Authentic commandPlatform x.event := by
  intro h
  have hdelivered : deliveries false [.connect true true, .received (textFrame commandMessage)] =
      [commandMessage] := by
    decide +kernel
  obtain ⟨x, hx, -⟩ := command_carries.execution
  have hmem := mem_executed_iff.mpr ⟨commandMessage, by rw [hdelivered]; simp, hx⟩
  obtain ⟨-, e, -, -, hsig⟩ := h x hmem
  exact Bool.noConfusion hsig

/-! ### Repetition -/

/-- The id of the event in a message. -/
def deliveredId (p : Platform) (text : CStr) : Option CStr :=
  (((p.parse text).bind Json.asArray).bind fun items => items[2]?).bind fun event =>
    stringMember event "id"

theorem execution_eventId {p : Platform} {owner text : CStr} {x : Execution}
    (h : execution p owner text = some x) : x.eventId = deliveredId p text := by
  obtain ⟨hcarries, hid⟩ := execution_carries h
  obtain ⟨items, hparse, -, hevent⟩ := hcarries.message
  simp [hid, deliveredId, hparse, Json.asArray, hevent]

theorem length_filter_filterMap_le {α β : Type} (f : α → Option β) (t : β → Bool) (u : α → Bool)
    (h : ∀ a b, f a = some b → t b = true → u a = true) (l : List α) :
    ((l.filterMap f).filter t).length ≤ (l.filter u).length := by
  induction l with
  | nil => exact Nat.zero_le _
  | cons a l ih =>
    have hgrow : (l.filter u).length ≤ ((a :: l).filter u).length :=
      ((List.sublist_cons_self a l).filter u).length_le
    cases hf : f a with
    | none =>
      -- no execution, and perhaps a delivery
      rw [List.filterMap_cons_none hf]
      exact ih.trans hgrow
    | some b =>
      rw [List.filterMap_cons_some hf]
      cases ht : t b with
      | false =>
        rw [List.filter_cons_of_neg (by simp [ht])]
        exact ih.trans hgrow
      | true =>
        rw [List.filter_cons_of_pos ht, List.filter_cons_of_pos (h a b hf ht), List.length_cons,
          List.length_cons]
        exact Nat.succ_le_succ ih

/-- **A tool runs at most once for each delivery.** Over every run, an event id has at most as many
executions as there were deliveries of an event with this id. -/
theorem executions_le_deliveries (p : Platform) (owner : CStr) (inputs : List Input) (id : CStr) :
    ((run (Server.step p owner) Server.start inputs).executed.filter fun x =>
      x.eventId = some id).length ≤
      ((deliveries false inputs).filter fun text => deliveredId p text = some id).length := by
  rw [executed_run]
  refine length_filter_filterMap_le _ _ _ ?_ _
  intro text x hx hid
  rw [← execution_eventId hx]
  exact hid

/-- A request that comes again after a new connection is executed again. -/
theorem redelivered_call_executed :
    ¬ ∀ id, ((run (Server.step commandPlatform ownerKey) Server.start
        [.connect true true, .received (textFrame commandMessage), .closed, .connect true true,
          .received (textFrame commandMessage)]).executed.filter fun x =>
            x.eventId = some id).length ≤ 1 := by
  intro h
  have hdelivered : deliveries false [.connect true true, .received (textFrame commandMessage),
      .closed, .connect true true, .received (textFrame commandMessage)] =
      [commandMessage, commandMessage] := by
    decide +kernel
  obtain ⟨x, hx, hevent⟩ := command_carries.execution
  have hid : x.eventId = some (hexText command.id.toList) := by
    rw [(execution_carries hx).2, hevent]
    rfl
  have htwice := h (hexText command.id.toList)
  rw [executed_run] at htwice
  simp [Server.start, hdelivered, hx, hid] at htwice

end Cvm

end TollGate
