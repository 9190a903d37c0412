import TollGate.Lib.Run
import TollGate.Lib.Slots
import TollGate.Relay.Filter

/-!
# Subscriptions and connections

The relay keeps its WebSocket connections in a table of `ws_server.c` and the
subscriptions that clients made on them in a table of `sub_manager.c`. What links the two
is the number of the socket: when a connection closes, `on_close` has the disconnect
callback remove the subscriptions of that number.

`RelayRun` is the relay together with the sockets that the HTTP server has open. The
sockets are numbered in the order in which they were opened, since the network stack gives
a descriptor out again once it is closed, and each subscription slot remembers the number
of the connection that filled it.

A subscription outlives its connection exactly if the connection closes while `on_close`
cannot do its work: `ws_server_stop` takes the server pointer and the callback away before
it closes the connections, and `local_relay_start` sets the callback only once the server
accepts them. `noOrphans_iff` says that apart from these two every subscription belongs to
the open connection that created it. After a stop and a start a client with a used
descriptor finds the subscription of another one under it (`inherited_subscription`).
-/

namespace TollGate

namespace Relay

open CStr StepRun

/-! ### The subscription table -/

/-- `SUB_MAX_TOTAL`. -/
abbrev subMaxTotal : ℕ := 64

/-- `SUB_MAX_PER_CONN`. -/
abbrev subMaxPerConn : ℕ := 8

/-- `SUB_MAX_FILTERS`. -/
abbrev subMaxFilters : ℕ := 4

/-- `SUB_MAX_ID_LEN`. -/
abbrev subMaxIdLen : ℕ := 64

/-- `subscription_t` of an active slot. -/
structure Subscription where
  subId : CStr
  connFd : Int32
  filters : List SubFilter
deriving DecidableEq

/-- `sub_error_t`, as far as it is returned. -/
inductive SubError where
  | ok
  | tooManyFilters
  | memory
  | notFound
deriving DecidableEq

/-- `sub_manager_t`. -/
structure SubManager where
  subs : Slots Subscription subMaxTotal
  activeCount : UInt16

/-- `strdup` of each of the strings on a heap that can take `room` more: what is left of
the room. -/
def dupStrings : ℕ → List CStr → Option ℕ
  | room, [] => some room
  | 0, _ :: _ => none
  | room + 1, _ :: strings => dupStrings room strings

/-- `filter_copy`: the copy, and the room that is left. -/
def filterCopy (room : ℕ) (src : SubFilter) : Option (SubFilter × ℕ) := do
  let room ← dupStrings room (src.ids.take subMaxFilter)
  let room ← dupStrings room (src.authors.take subMaxFilter)
  let room ← dupStrings room (src.eTags.take subMaxFilter)
  let room ← dupStrings room (src.pTags.take subMaxFilter)
  let copy : SubFilter :=
    { ids := src.ids.take subMaxFilter
      authors := src.authors.take subMaxFilter
      kinds := src.kinds.take subMaxFilter
      eTags := src.eTags.take subMaxFilter
      pTags := src.pTags.take subMaxFilter
      since := src.since
      until_ := src.until_
      limit := src.limit }
  return (copy, room)

/-- The copies of the filters up to the first that fails, and whether none did. -/
def copyFilters : ℕ → List SubFilter → List SubFilter × Bool
  | _, [] => ([], true)
  | room, f :: filters =>
    match filterCopy room f with
    | none => ([], false)
    | some (copy, room) =>
      let (copies, complete) := copyFilters room filters
      (copy :: copies, complete)

namespace SubManager

/-- `sub_manager_init`. -/
def init : SubManager := ⟨.empty, 0⟩

/-- `find_sub`. -/
def findSub (m : SubManager) (connFd : Int32) (subId : CStr) : Option (Fin subMaxTotal) :=
  m.subs.find fun sub => sub.connFd = connFd && sub.subId = subId

/-- `sub_manager_count`. -/
def count (m : SubManager) (connFd : Int32) : ℕ :=
  (List.finRange subMaxTotal).countP fun i => (m.subs i).any (·.connFd = connFd)

/-- `sub_manager_add`, on a heap that can take `room` more strings. -/
def add (m : SubManager) (connFd : Int32) (subId : CStr) (filters : List SubFilter) (room : ℕ) :
    SubManager × SubError :=
  let (copies, complete) := copyFilters room (filters.take subMaxFilters)
  match m.findSub connFd subId with
  | some i =>
    -- the old filters are gone by the time a copy fails
    let subs := Function.update m.subs i ((m.subs i).map ({ · with filters := copies }))
    ({ m with subs }, if complete then .ok else .memory)
  | none =>
    if subMaxPerConn ≤ m.count connFd then (m, .tooManyFilters)
    else match m.subs.firstFree with
      | none => (m, .memory)
      | some i =>
        if complete then
          let sub : Subscription := ⟨subId.take subMaxIdLen, connFd, copies⟩
          ({ subs := m.subs.put i sub, activeCount := m.activeCount + 1 }, .ok)
        else (m, .memory)

/-- `sub_manager_remove`. -/
def remove (m : SubManager) (connFd : Int32) (subId : CStr) : SubManager × SubError :=
  match m.findSub connFd subId with
  | none => (m, .notFound)
  | some i => ({ subs := m.subs.clear i, activeCount := m.activeCount - 1 }, .ok)

/-- One turn of the loop of `sub_manager_remove_all`. -/
def removeTurn (connFd : Int32) (m : SubManager) (i : Fin subMaxTotal) : SubManager :=
  if (m.subs i).any (·.connFd = connFd) then
    { subs := m.subs.clear i, activeCount := m.activeCount - 1 }
  else m

/-- `sub_manager_remove_all`. -/
def removeAll (m : SubManager) (connFd : Int32) : SubManager := sweep (removeTurn connFd) m

end SubManager

/-! ### The connection table -/

/-- `WS_MAX_CONNECTIONS`. -/
abbrev wsMaxConnections : ℕ := 8

/-- `ws_server_t`. -/
structure WsServer where
  /-- `server` is not `NULL`: the HTTP server runs. -/
  running : Bool
  /-- The descriptors of the active connections. -/
  connections : Slots Int32 wsMaxConnections
  connectionCount : UInt8

/-- The counter shows the number of active connection slots. -/
def WsServer.CountExact (w : WsServer) : Prop := w.connectionCount.toNat = w.connections.used

/-- The critical section of `on_close`: the slot of the descriptor is freed. -/
def WsServer.dropConnection (w : WsServer) (sockfd : Int32) : WsServer :=
  match w.connections.find (· = sockfd) with
  | none => w
  | some i =>
    { w with connections := w.connections.clear i, connectionCount := w.connectionCount - 1 }

/-- What `ws_server.c` and `local_relay.c` keep in static memory for the connections. -/
structure LocalRelay where
  wsServer : WsServer
  /-- `g_server` is not `NULL`. -/
  gServer : Bool
  /-- `g_message_callback` is not `NULL`. -/
  messageCallback : Bool
  /-- `g_disconnect_callback` is not `NULL`. -/
  disconnectCallback : Bool
  subManager : SubManager

namespace LocalRelay

/-- After `local_relay_init`. -/
def init : LocalRelay := ⟨⟨false, .empty, 0⟩, false, false, false, .init⟩

/-- `on_open`, and whether it returns `ESP_OK`. -/
def onOpen (r : LocalRelay) (sockfd : Int32) : LocalRelay × Bool :=
  if !r.gServer then (r, false)
  else if (wsMaxConnections : ℕ) ≤ r.wsServer.connectionCount.toNat then (r, false)
  else match r.wsServer.connections.firstFree with
    | none => (r, false)
    | some i =>
      let server := { r.wsServer with
        connections := r.wsServer.connections.put i sockfd
        connectionCount := r.wsServer.connectionCount + 1 }
      ({ r with wsServer := server }, true)

/-- `on_ws_disconnect`. -/
def onWsDisconnect (r : LocalRelay) (fd : Int32) : LocalRelay :=
  { r with subManager := r.subManager.removeAll fd }

/-- `on_close`. -/
def onClose (r : LocalRelay) (sockfd : Int32) : LocalRelay :=
  if !r.gServer then r
  else
    let r := if r.disconnectCallback then r.onWsDisconnect sockfd else r
    { r with wsServer := r.wsServer.dropConnection sockfd }

/-- `ws_server_init`; `started` says whether the HTTP server comes up with its handlers. -/
def wsServerInit (r : LocalRelay) (started : Bool) : LocalRelay :=
  if r.wsServer.running then r
  else { r with
    wsServer := ⟨started, .empty, 0⟩
    gServer := started
    messageCallback := started }

/-- `ws_server_set_disconnect_cb(on_ws_disconnect)`. -/
def setDisconnectCb (r : LocalRelay) : LocalRelay := { r with disconnectCallback := true }

/-- `ws_server_stop`; `httpd_stop` closes the sessions on `fds`. -/
def wsServerStop (r : LocalRelay) (fds : List Int32) : LocalRelay :=
  let r := { r with gServer := false, messageCallback := false, disconnectCallback := false }
  let r := if r.wsServer.running then fds.foldl onClose r else r
  { r with wsServer := ⟨false, .empty, 0⟩ }

/-- `handle_req` after the stored events; `allowed` is the answer of the rate limiter,
`filter` what `parse_filter_json` read. -/
def handleReq (r : LocalRelay) (allowed : Bool) (connFd : Int32) (subId : CStr)
    (filter : SubFilter) (room : ℕ) : LocalRelay :=
  if allowed then { r with subManager := (r.subManager.add connFd subId [filter] room).1 } else r

/-- `handle_close`. -/
def handleClose (r : LocalRelay) (connFd : Int32) (subId : CStr) : LocalRelay :=
  { r with subManager := (r.subManager.remove connFd subId).1 }

end LocalRelay

/-! ### Runs -/

/-- The relay with the sockets of its HTTP server. -/
structure RelayRun where
  relay : LocalRelay
  /-- The open sockets: the descriptor of each, and the number of its connection. -/
  sockets : List (Int32 × ℕ)
  /-- So many connections there were. -/
  opened : ℕ
  /-- The connection whose request filled the slot. -/
  creator : Fin subMaxTotal → ℕ

/-- What happens to the relay. -/
inductive RelayEvent where
  /-- The first half of `local_relay_start`. -/
  | serverInit (started : Bool)
  /-- The second half. -/
  | setDisconnectCb
  /-- `local_relay_stop`. -/
  | serverStop
  /-- The HTTP server accepts a connection on a descriptor. -/
  | openConn (fd : Int32)
  /-- It closes one: the client left, was silent for too long or had to make room. -/
  | closeConn (fd : Int32)
  /-- A `REQ` on a connection. -/
  | req (fd : Int32) (allowed : Bool) (subId : CStr) (filter : SubFilter) (room : ℕ)
  /-- A `CLOSE` on a connection. -/
  | close (fd : Int32) (subId : CStr)

namespace RelayRun

/-- After `local_relay_init`. -/
def init : RelayRun := ⟨.init, [], 0, fun _ => 0⟩

/-- The descriptors in use. -/
def fds (s : RelayRun) : List Int32 := s.sockets.map Prod.fst

/-- A connection is accepted. -/
def open_ (s : RelayRun) (fd : Int32) : RelayRun :=
  let (relay, accepted) := s.relay.onOpen fd
  if accepted then
    { s with relay, sockets := (fd, s.opened) :: s.sockets, opened := s.opened + 1 }
  -- the HTTP server deletes a session that is refused like any other
  else { s with relay := relay.onClose fd }

/-- A connection is closed. -/
def close (s : RelayRun) (fd : Int32) : RelayRun :=
  { s with relay := s.relay.onClose fd, sockets := s.sockets.filter (·.1 ≠ fd) }

/-- The server is stopped. -/
def stop (s : RelayRun) : RelayRun :=
  { s with
    relay := s.relay.wsServerStop s.fds
    sockets := if s.relay.wsServer.running then [] else s.sockets }

/-- The connection `k` on `fd` requests a subscription. -/
def request (s : RelayRun) (fd : Int32) (k : ℕ) (allowed : Bool) (subId : CStr)
    (filter : SubFilter) (room : ℕ) : RelayRun :=
  { s with
    relay := s.relay.handleReq allowed fd subId filter room
    creator := fun i => if (s.relay.subManager.subs i).isSome then s.creator i else k }

/-- One step. Messages come on open sockets only, and descriptors are not given out
twice at a time. -/
def step (s : RelayRun) : RelayEvent → RelayRun
  | .serverInit started => { s with relay := s.relay.wsServerInit started }
  | .setDisconnectCb => { s with relay := s.relay.setDisconnectCb }
  | .serverStop => s.stop
  | .openConn fd => if s.relay.wsServer.running && !s.fds.contains fd then s.open_ fd else s
  | .closeConn fd => if s.fds.contains fd then s.close fd else s
  | .req fd allowed subId filter room =>
    match s.sockets.find? (·.1 = fd) with
    | none => s
    | some (_, k) =>
      if s.relay.messageCallback then s.request fd k allowed subId filter room else s
  | .close fd subId =>
    if s.fds.contains fd && s.relay.messageCallback then
      { s with relay := s.relay.handleClose fd subId }
    else s

/-- The state after a run. -/
def reach (evs : List RelayEvent) : RelayRun := run step init evs

/-- The active subscriptions with their slots. -/
def Subscribed (s : RelayRun) (i : Fin subMaxTotal) (sub : Subscription) : Prop :=
  s.relay.subManager.subs i = some sub

/-- Every active subscription belongs to an open connection, the one that created it. -/
def NoOrphans (s : RelayRun) : Prop :=
  ∀ i sub, s.Subscribed i sub → (sub.connFd, s.creator i) ∈ s.sockets

/-- A connection that the event opens has no subscription. -/
def StartsEmpty (s : RelayRun) (ev : RelayEvent) : Prop :=
  ∀ fd, ev = .openConn fd → fd ∉ s.fds → fd ∈ (s.step ev).fds →
    ∀ i sub, (s.step ev).Subscribed i sub → sub.connFd ≠ fd

/-- No connection with a subscription is closed while `on_close` does not remove it: before
the callback is set, or by `ws_server_stop`. -/
def Releases (s : RelayRun) : RelayEvent → Prop
  | .serverStop => s.relay.wsServer.running = true → ∀ i sub, ¬ s.Subscribed i sub
  | .closeConn fd =>
    fd ∈ s.fds → ¬ (s.relay.gServer = true ∧ s.relay.disconnectCallback = true) →
      ∀ i sub, s.Subscribed i sub → sub.connFd ≠ fd
  | _ => True

end RelayRun

/-! ### The subscription table under each operation -/

namespace SubManager

variable {m : SubManager} {connFd : Int32} {subId : CStr} {i : Fin subMaxTotal}
  {sub : Subscription}

/-- An addition replaces the filters of a subscription, fills a free slot, or does nothing. -/
theorem add_cases (m : SubManager) (connFd : Int32) (subId : CStr) (filters : List SubFilter)
    (room : ℕ) :
    (∃ i old copies, m.subs i = some old ∧ (m.add connFd subId filters room).1
        = { m with subs := Function.update m.subs i (some { old with filters := copies }) }) ∨
      (∃ i copies, m.subs i = none ∧ (m.add connFd subId filters room).1
        = ⟨m.subs.put i ⟨subId.take subMaxIdLen, connFd, copies⟩, m.activeCount + 1⟩) ∨
      (m.add connFd subId filters room).1 = m := by
  unfold add
  cases hfind : m.findSub connFd subId with
  | some i =>
    obtain ⟨old, hold, -⟩ := Slots.find_eq_some hfind
    refine Or.inl ⟨i, old, (copyFilters room (filters.take subMaxFilters)).1, hold, ?_⟩
    simp only [hold, Option.map_some]
  | none =>
    by_cases hfull : subMaxPerConn ≤ m.count connFd
    · exact Or.inr (Or.inr (by simp only [if_pos hfull]))
    · simp only [if_neg hfull]
      cases hfree : m.subs.firstFree with
      | none => exact Or.inr (Or.inr rfl)
      | some i =>
        by_cases hcomplete : (copyFilters room (filters.take subMaxFilters)).2 = true
        · refine Or.inr (Or.inl ⟨i, (copyFilters room (filters.take subMaxFilters)).1,
            Slots.firstFree_eq_some hfree, ?_⟩)
          simp only [if_pos hcomplete]
        · exact Or.inr (Or.inr (by simp only [if_neg hcomplete]))

/-- What is in the table after an addition was in its slot before, under the same id, or is the new
one. -/
theorem subs_add {filters : List SubFilter} {room : ℕ}
    (h : (m.add connFd subId filters room).1.subs i = some sub) :
    (∃ old, m.subs i = some old ∧ old.connFd = sub.connFd ∧ old.subId = sub.subId) ∨
      (m.subs i = none ∧ sub.connFd = connFd ∧ sub.subId = subId.take subMaxIdLen) := by
  obtain ⟨j, old, copies, hold, hadd⟩ | ⟨j, copies, hfree, hadd⟩ | hadd :=
    m.add_cases connFd subId filters room
  · rw [hadd] at h
    obtain ⟨rfl, rfl⟩ | ⟨-, hi⟩ := Slots.put_eq_some.mp h
    · exact Or.inl ⟨old, hold, rfl, rfl⟩
    · exact Or.inl ⟨sub, hi, rfl, rfl⟩
  · rw [hadd] at h
    obtain ⟨rfl, rfl⟩ | ⟨-, hi⟩ := Slots.put_eq_some.mp h
    · exact Or.inr ⟨hfree, rfl, rfl⟩
    · exact Or.inl ⟨sub, hi, rfl, rfl⟩
  · exact Or.inl ⟨sub, hadd ▸ h, rfl, rfl⟩

theorem subs_remove (h : (m.remove connFd subId).1.subs i = some sub) : m.subs i = some sub := by
  unfold remove at h
  cases hfind : m.findSub connFd subId with
  | none => simpa [hfind] using h
  | some j =>
    simp only [hfind] at h
    exact (Slots.clear_eq_some.mp h).2

theorem subs_removeTurn {j : Fin subMaxTotal} :
    (m.removeTurn connFd j).subs i = some sub ↔
      m.subs i = some sub ∧ (i = j → sub.connFd ≠ connFd) := by
  unfold removeTurn
  split_ifs with hany
  · rw [Slots.clear_eq_some, and_comm, and_congr_right_iff]
    intro hi
    refine ⟨fun hne heq => absurd heq hne, ?_⟩
    rintro hne rfl
    rw [hi, Option.any_some, decide_eq_true_eq] at hany
    exact hne rfl hany
  · refine ⟨fun hi => ⟨hi, ?_⟩, And.left⟩
    rintro rfl heq
    exact hany (by rw [hi, Option.any_some, decide_eq_true_eq, heq])

/-- All subscriptions of the descriptor go, and no other. -/
theorem subs_removeAll :
    (m.removeAll connFd).subs i = some sub ↔ m.subs i = some sub ∧ sub.connFd ≠ connFd := by
  -- after `k` turns the slots before the `k`th are done
  have hsweep := sweep_induction (f := removeTurn connFd) (s := m)
    (P := fun k (m' : SubManager) => ∀ i sub, m'.subs i = some sub ↔
      m.subs i = some sub ∧ (i.val < k → sub.connFd ≠ connFd))
    (fun j m' ih i sub => by
      rw [subs_removeTurn, ih i sub, and_assoc, ← or_imp, Nat.lt_succ_iff_lt_or_eq, Fin.ext_iff])
    (fun i sub => (and_iff_left fun hlt => absurd hlt (Nat.not_lt_zero _)).symm)
  rw [removeAll, hsweep, forall_prop_of_true i.isLt]

end SubManager

/-! ### The connection table under each operation -/

namespace LocalRelay

variable {r : LocalRelay} {fd : Int32}

/-- `on_open` takes a free slot and counts the connection, or refuses it. -/
theorem onOpen_cases (r : LocalRelay) (fd : Int32) :
    (∃ i, r.wsServer.connections i = none ∧ r.wsServer.connectionCount.toNat < wsMaxConnections ∧
        r.onOpen fd = ({ r with wsServer := { r.wsServer with
          connections := r.wsServer.connections.put i fd
          connectionCount := r.wsServer.connectionCount + 1 } }, true)) ∨
      r.onOpen fd = (r, false) := by
  unfold onOpen
  by_cases hserver : r.gServer = true
  · simp only [hserver, Bool.not_true, Bool.false_eq_true, if_false]
    by_cases hfull : wsMaxConnections ≤ r.wsServer.connectionCount.toNat
    · exact Or.inr (if_pos hfull)
    · rw [if_neg hfull]
      cases hfree : r.wsServer.connections.firstFree with
      | none => exact Or.inr rfl
      | some i => exact Or.inl ⟨i, Slots.firstFree_eq_some hfree, not_le.mp hfull, rfl⟩
  · rw [Bool.not_eq_true] at hserver
    simp only [hserver, Bool.not_false, if_true, or_true]

/-- With the server pointer gone `on_close` does nothing. -/
theorem onClose_of_stopped (h : r.gServer = false) (fd : Int32) : r.onClose fd = r := by
  unfold onClose
  rw [h, Bool.not_false, if_pos rfl]

theorem onClose_of_server (h : r.gServer = true) (fd : Int32) : r.onClose fd = { r with
    wsServer := r.wsServer.dropConnection fd
    subManager := if r.disconnectCallback then r.subManager.removeAll fd else r.subManager } := by
  unfold onClose onWsDisconnect
  rw [h, Bool.not_true, if_neg Bool.false_ne_true]
  cases hcb : r.disconnectCallback with
  | true => simp only [if_true]
  | false => simp only [Bool.false_eq_true, if_false, h, hcb]

/-- `on_close` with pointer and callback set removes the subscriptions of the descriptor. -/
theorem subManager_onClose (h : r.gServer = true ∧ r.disconnectCallback = true) (fd : Int32) :
    (r.onClose fd).subManager = r.subManager.removeAll fd := by
  rw [onClose_of_server h.1]
  exact if_pos h.2

/-- Without them it removes nothing. -/
theorem subManager_onClose_of_off (h : ¬ (r.gServer = true ∧ r.disconnectCallback = true))
    (fd : Int32) : (r.onClose fd).subManager = r.subManager := by
  cases hserver : r.gServer with
  | false => rw [onClose_of_stopped hserver]
  | true =>
    rw [onClose_of_server hserver]
    exact if_neg fun hcb => h ⟨hserver, hcb⟩

theorem subManager_wsServerInit (r : LocalRelay) (started : Bool) :
    (r.wsServerInit started).subManager = r.subManager := by
  unfold wsServerInit
  split_ifs <;> rfl

theorem wsServerStop_eq (r : LocalRelay) (fds : List Int32) :
    r.wsServerStop fds = ⟨⟨false, .empty, 0⟩, false, false, false, r.subManager⟩ := by
  have hfold : ∀ r : LocalRelay, r.gServer = false → fds.foldl onClose r = r := by
    intro r hr
    induction fds with
    | nil => rfl
    | cons fd fds ih => rw [List.foldl_cons, onClose_of_stopped hr, ih]
  unfold wsServerStop
  extract_lets r₁ r₂
  have hr₂ : r₂ = r₁ := by
    unfold r₂
    rw [hfold r₁ rfl, ite_self]
  rw [hr₂]

end LocalRelay

namespace WsServer.CountExact

variable {r : LocalRelay} (h : r.wsServer.CountExact)
include h

theorem onOpen (fd : Int32) : (r.onOpen fd).1.wsServer.CountExact := by
  obtain ⟨i, hfree, hlt, hopen⟩ | hopen := r.onOpen_cases fd
  · rw [hopen]
    change (r.wsServer.connectionCount + 1).toNat = (r.wsServer.connections.put i fd).used
    have hroom : r.wsServer.connectionCount.toNat + 1 < 2 ^ 8 :=
      (Nat.succ_le_of_lt hlt).trans_lt (by decide)
    rw [Slots.used_put hfree, ← h, UInt8.toNat_add]
    exact Nat.mod_eq_of_lt hroom
  · rwa [hopen]

theorem dropConnection (fd : Int32) : (r.wsServer.dropConnection fd).CountExact := by
  unfold WsServer.dropConnection
  cases hfind : r.wsServer.connections.find (· = fd) with
  | none => exact h
  | some i =>
    obtain ⟨fd', hused, -⟩ := Slots.find_eq_some hfind
    have hclear := Slots.used_clear hused
    have hone : 1 ≤ r.wsServer.connectionCount := by
      rw [UInt8.le_iff_toNat_le, h, ← hclear]
      exact Nat.le_add_left 1 _
    change (r.wsServer.connectionCount - 1).toNat = (r.wsServer.connections.clear i).used
    rw [UInt8.toNat_sub_of_le _ _ hone, h, ← hclear]
    rfl

theorem onClose (fd : Int32) : (r.onClose fd).wsServer.CountExact := by
  cases hserver : r.gServer with
  | true =>
    rw [LocalRelay.onClose_of_server hserver]
    exact h.dropConnection fd
  | false => rwa [LocalRelay.onClose_of_stopped hserver]

end WsServer.CountExact

/-! ### Runs under each event -/

namespace RelayRun

variable {s : RelayRun}

theorem mem_fds {fd : Int32} : fd ∈ s.fds ↔ ∃ k, (fd, k) ∈ s.sockets := by
  unfold fds
  rw [List.mem_map]
  exact ⟨fun ⟨⟨fd', k⟩, hmem, heq⟩ => ⟨k, heq ▸ hmem⟩, fun ⟨k, hmem⟩ => ⟨(fd, k), hmem, rfl⟩⟩

theorem step_openConn (fd : Int32) : s.step (.openConn fd)
    = if s.relay.wsServer.running && !s.fds.contains fd then s.open_ fd else s := rfl

theorem step_closeConn (fd : Int32) :
    s.step (.closeConn fd) = if s.fds.contains fd then s.close fd else s := rfl

theorem step_req (fd : Int32) (allowed : Bool) (subId : CStr) (filter : SubFilter) (room : ℕ) :
    s.step (.req fd allowed subId filter room) = s ∨ ∃ k, (fd, k) ∈ s.sockets ∧
      s.step (.req fd allowed subId filter room) = s.request fd k allowed subId filter room := by
  unfold step
  dsimp only
  cases hfind : s.sockets.find? (·.1 = fd) with
  | none => exact Or.inl rfl
  | some found =>
    obtain ⟨fd', k⟩ := found
    have hfd : fd' = fd := by simpa using List.find?_some hfind
    cases hcb : s.relay.messageCallback with
    | false => exact Or.inl rfl
    | true => exact Or.inr ⟨k, hfd ▸ List.mem_of_find?_eq_some hfind, rfl⟩

theorem step_close (fd : Int32) (subId : CStr) : s.step (.close fd subId) = s ∨
    s.step (.close fd subId) = { s with relay := s.relay.handleClose fd subId } := by
  unfold step
  dsimp only
  split_ifs
  · exact Or.inr rfl
  · exact Or.inl rfl

/-- A connection is opened with its socket, or refused. -/
theorem open_cases (s : RelayRun) (fd : Int32) :
    ((s.relay.onOpen fd).1.subManager = s.relay.subManager ∧ s.open_ fd =
        ⟨(s.relay.onOpen fd).1, (fd, s.opened) :: s.sockets, s.opened + 1, s.creator⟩) ∨
      s.open_ fd = { s with relay := s.relay.onClose fd } := by
  unfold open_
  obtain ⟨i, -, -, hopen⟩ | hopen := s.relay.onOpen_cases fd
  · rw [hopen]
    exact Or.inl ⟨rfl, rfl⟩
  · rw [hopen]
    exact Or.inr rfl

/-- No step leads the counter astray. -/
theorem countExact_step (h : s.relay.wsServer.CountExact) (ev : RelayEvent) :
    (s.step ev).relay.wsServer.CountExact := by
  cases ev with
  | serverInit started =>
    change (s.relay.wsServerInit started).wsServer.CountExact
    unfold LocalRelay.wsServerInit
    split_ifs
    · exact h
    · exact Slots.used_empty.symm
  | setDisconnectCb => exact h
  | serverStop =>
    change (s.relay.wsServerStop s.fds).wsServer.CountExact
    rw [LocalRelay.wsServerStop_eq]
    exact Slots.used_empty.symm
  | openConn fd =>
    rw [step_openConn]
    split_ifs
    · obtain ⟨-, hopen⟩ | hopen := s.open_cases fd
      · rw [hopen]
        exact h.onOpen fd
      · rw [hopen]
        exact h.onClose fd
    · exact h
  | closeConn fd =>
    rw [step_closeConn]
    split_ifs
    · exact h.onClose fd
    · exact h
  | req fd allowed subId filter room =>
    obtain hstep | ⟨k, -, hstep⟩ := s.step_req fd allowed subId filter room
    · rwa [hstep]
    · rw [hstep]
      change (s.relay.handleReq allowed fd subId filter room).wsServer.CountExact
      unfold LocalRelay.handleReq
      split_ifs <;> exact h
  | close fd subId =>
    obtain hstep | hstep := s.step_close fd subId
    · rwa [hstep]
    · rw [hstep]
      exact h

/-! ### Orphans -/

/-- What is left in the table when a descriptor is closed was there before. -/
theorem subscribed_onClose {r : LocalRelay} {fd : Int32} {i : Fin subMaxTotal}
    {sub : Subscription} (h : (r.onClose fd).subManager.subs i = some sub) :
    r.subManager.subs i = some sub := by
  by_cases hclean : r.gServer = true ∧ r.disconnectCallback = true
  · rw [LocalRelay.subManager_onClose hclean] at h
    exact (SubManager.subs_removeAll.mp h).1
  · rwa [LocalRelay.subManager_onClose_of_off hclean] at h

namespace NoOrphans

variable (h : s.NoOrphans)
include h

theorem connFd_mem {i : Fin subMaxTotal} {sub : Subscription} (hsub : s.Subscribed i sub) :
    sub.connFd ∈ s.fds :=
  mem_fds.mpr ⟨s.creator i, h i sub hsub⟩

theorem stop_iff : s.stop.NoOrphans ↔ s.Releases .serverStop := by
  have hsubs : ∀ i sub, s.stop.Subscribed i sub ↔ s.Subscribed i sub := by
    intro i sub
    unfold Subscribed RelayRun.stop
    rw [LocalRelay.wsServerStop_eq]
  unfold NoOrphans Releases
  simp only [hsubs]
  cases hrunning : s.relay.wsServer.running with
  | false =>
    refine iff_of_true ?_ fun hfalse => absurd hfalse Bool.false_ne_true
    intro i sub hsub
    simpa [RelayRun.stop, hrunning] using h i sub hsub
  | true => simp [RelayRun.stop, hrunning]

theorem open_ (fd : Int32) : (s.open_ fd).NoOrphans := by
  intro i sub hsub
  obtain ⟨hsubs, hopen⟩ | hopen := s.open_cases fd
  · rw [hopen] at hsub ⊢
    have hsub' : s.relay.subManager.subs i = some sub := hsubs ▸ hsub
    exact List.mem_cons_of_mem _ (h i sub hsub')
  · rw [hopen] at hsub ⊢
    exact h i sub (subscribed_onClose hsub)

theorem close_iff {fd : Int32} (hfd : fd ∈ s.fds) :
    (s.close fd).NoOrphans ↔ s.Releases (.closeConn fd) := by
  have hmem : ∀ i sub, s.Subscribed i sub →
      ((sub.connFd, (s.close fd).creator i) ∈ (s.close fd).sockets ↔ sub.connFd ≠ fd) := by
    intro i sub hsub
    change (sub.connFd, s.creator i) ∈ s.sockets.filter (·.1 ≠ fd) ↔ _
    rw [List.mem_filter, and_iff_right (h i sub hsub), decide_eq_true_eq]
  by_cases hclean : s.relay.gServer = true ∧ s.relay.disconnectCallback = true
  · refine iff_of_true ?_ fun _ hn => absurd hclean hn
    intro i sub hsub
    unfold Subscribed RelayRun.close at hsub
    rw [LocalRelay.subManager_onClose hclean] at hsub
    obtain ⟨hbefore, hne⟩ := SubManager.subs_removeAll.mp hsub
    exact (hmem i sub hbefore).mpr hne
  · -- the table is left as it is
    have hsubs : ∀ i sub, (s.close fd).Subscribed i sub ↔ s.Subscribed i sub := by
      intro i sub
      unfold Subscribed RelayRun.close
      rw [LocalRelay.subManager_onClose_of_off hclean]
    have hreleases : s.Releases (.closeConn fd) ↔
        ∀ i sub, s.Subscribed i sub → sub.connFd ≠ fd :=
      (forall_prop_of_true hfd).trans (forall_prop_of_true hclean)
    rw [hreleases]
    refine forall₂_congr fun i sub => ?_
    rw [hsubs]
    exact forall_congr' (hmem i sub)

theorem request {fd : Int32} {k : ℕ} (hk : (fd, k) ∈ s.sockets) (allowed : Bool) (subId : CStr)
    (filter : SubFilter) (room : ℕ) :
    (s.request fd k allowed subId filter room).NoOrphans := by
  intro i sub hsub
  -- the slot held a subscription of the same connection, or is filled by this one
  have hcases : (∃ old, s.Subscribed i old ∧ old.connFd = sub.connFd) ∨
      (s.relay.subManager.subs i = none ∧ sub.connFd = fd) := by
    unfold Subscribed RelayRun.request LocalRelay.handleReq at hsub
    split_ifs at hsub
    · obtain ⟨old, hold, hconn, -⟩ | ⟨hfree, hconn, -⟩ := SubManager.subs_add hsub
      · exact Or.inl ⟨old, hold, hconn⟩
      · exact Or.inr ⟨hfree, hconn⟩
    · exact Or.inl ⟨sub, hsub, rfl⟩
  unfold RelayRun.request
  obtain ⟨old, hold, hconn⟩ | ⟨hfree, rfl⟩ := hcases
  · have hslot : (s.relay.subManager.subs i).isSome = true := by rw [hold, Option.isSome_some]
    simp only [if_pos hslot]
    exact hconn ▸ h i old hold
  · have hslot : ¬ (s.relay.subManager.subs i).isSome = true := by simp [hfree]
    simp only [if_neg hslot]
    exact hk

/-- **One step**: orphans come from connections that are closed without being cleaned up
after. -/
theorem step_iff (ev : RelayEvent) : (s.step ev).NoOrphans ↔ s.Releases ev := by
  cases ev with
  | serverInit started =>
    refine iff_of_true ?_ trivial
    intro i sub hsub
    change (s.relay.wsServerInit started).subManager.subs i = some sub at hsub
    rw [LocalRelay.subManager_wsServerInit] at hsub
    exact h i sub hsub
  | setDisconnectCb => exact iff_of_true h trivial
  | serverStop => exact h.stop_iff
  | openConn fd =>
    refine iff_of_true ?_ trivial
    rw [step_openConn]
    split_ifs
    · exact h.open_ fd
    · exact h
  | closeConn fd =>
    rw [step_closeConn]
    split_ifs with hopen
    · exact h.close_iff (List.contains_iff_mem.mp hopen)
    · refine iff_of_true h fun hfd => ?_
      exact absurd (List.contains_iff_mem.mpr hfd) hopen
  | req fd allowed subId filter room =>
    refine iff_of_true ?_ trivial
    obtain hstep | ⟨k, hk, hstep⟩ := s.step_req fd allowed subId filter room
    · rwa [hstep]
    · rw [hstep]
      exact h.request hk allowed subId filter room
  | close fd subId =>
    refine iff_of_true ?_ trivial
    obtain hstep | hstep := s.step_close fd subId
    · rwa [hstep]
    · rw [hstep]
      intro i sub hsub
      exact h i sub (SubManager.subs_remove hsub)

/-- Where there are no orphans, a descriptor that is not in use has no subscription. -/
theorem startsEmpty (ev : RelayEvent) : s.StartsEmpty ev := by
  rintro fd rfl hnew hopened i sub hsub rfl
  rw [step_openConn] at hsub hopened
  split_ifs at hsub hopened
  · obtain ⟨hsubs, hopen⟩ | hopen := s.open_cases sub.connFd
    · rw [hopen] at hsub
      have hsub' : s.relay.subManager.subs i = some sub := hsubs ▸ hsub
      exact hnew (h.connFd_mem hsub')
    · rw [hopen] at hopened
      exact hnew hopened
  · exact hnew hopened

end NoOrphans

theorem noOrphans_init : init.NoOrphans :=
  fun _ _ hsub => absurd hsub (Option.some_ne_none _).symm

/-- **When there are no orphans.** In every run of the relay these come to the same: in all
its states each active subscription belongs to the open connection that created it and the
counter shows the number of active connections, and every new connection starts without a
subscription; no connection that has a subscription is closed by a stop of the server, or
while the disconnect callback is not set. -/
theorem noOrphans_iff (evs : List RelayEvent) :
    (Always step (fun s => s.NoOrphans ∧ s.relay.wsServer.CountExact) init evs ∧
        AllSteps step StartsEmpty init evs) ↔
      AllSteps step Releases init evs := by
  have halways : Always step (fun s => s.NoOrphans ∧ s.relay.wsServer.CountExact) init evs ↔
      AllSteps step Releases init evs := by
    refine always_iff ?_ ⟨noOrphans_init, Slots.used_empty.symm⟩
    rintro s ev ⟨hs, hcount⟩
    rw [and_iff_left (countExact_step hcount ev)]
    exact hs.step_iff ev
  rw [← halways, and_iff_left_iff_imp]
  intro h
  refine allSteps_iff.mpr ?_
  rintro front ev back rfl
  exact (h front (ev :: back) rfl).1.startsEmpty ev

/-- A client subscribes, the relay is stopped and started, and the next client gets the
descriptor. -/
def restartRun : List RelayEvent :=
  [.serverInit true, .setDisconnectCb, .openConn 5,
    .req 5 true (cstr "s1") ⟨[], [], [], [], [], 0, 0, 0⟩ 100,
    .serverStop, .serverInit true, .setDisconnectCb, .openConn 5]

/-- The second connection, number 1, starts with the subscription of connection 0. -/
theorem inherited_subscription :
    ((reach restartRun).sockets = [(5, 1)] ∧
      (reach restartRun).relay.subManager.subs 0
        = some ⟨cstr "s1", 5, [⟨[], [], [], [], [], 0, 0, 0⟩]⟩ ∧
      (reach restartRun).creator 0 = 0) ∧
    ¬ (Always step (fun s => s.NoOrphans ∧ s.relay.wsServer.CountExact) init restartRun ∧
      AllSteps step StartsEmpty init restartRun) := by
  have hstate : (reach restartRun).sockets = [(5, 1)] ∧
      (reach restartRun).relay.subManager.subs 0
        = some ⟨cstr "s1", 5, [⟨[], [], [], [], [], 0, 0, 0⟩]⟩ ∧
      (reach restartRun).creator 0 = 0 := by
    decide
  refine ⟨hstate, ?_⟩
  rintro ⟨halways, -⟩
  obtain ⟨hsockets, hsub, hcreator⟩ := hstate
  have hmem : ((5 : Int32), (reach restartRun).creator 0) ∈ (reach restartRun).sockets :=
    (halways restartRun [] (List.append_nil _).symm).1 0 _ hsub
  rw [hsockets, hcreator] at hmem
  exact absurd hmem (by decide)

end RelayRun

end Relay

end TollGate
