import TollGate.Lib.Run
import TollGate.Core.Firewall

/-!
# The session table

`tollgate_core_session.c`: ten session records, a counter, and the operations
that create, extend, expire and revoke sessions. Creating a session grants the
client at the firewall, revoking it takes the grant back, so the operations act
on the session table and the `Gate` together (`Core`).

A session pointer of the source is a slot index here, `NULL` is `none`. Whatever
an operation reads from outside the tables is in its `Env`: one clock reading,
the configured metric as `s_platform->get_metric()` returns it (`none` when there
is no platform or no such callback, as before `tollgate_core_init`), and the
address resolution of the access point.

`sessionCreate` is cut into the steps its source takes in order: look the client
up (`findByIp`), make room when the counter says the table is full (`makeRoom`),
take the first inactive slot (`freeSlot`) and fill it (`openSession`). Its
outcomes are listed by `sessionCreate_cases`, which every proof about it uses.
-/

namespace TollGate

/-- `TG_SESSION_MAX_CLIENTS`. -/
abbrev maxSessions : ℕ := 10

/-- A pointer into `s_sessions`. -/
abbrev Slot := Fin maxSessions

/-- `tg_payment_method_t`. -/
inductive PaymentMethod where
  | cashu
  | mining
  | bytes
deriving DecidableEq

/-- `tg_session_t`. -/
structure TgSession where
  clientIp : Ip
  mac : CStr
  allotmentMs : UInt64
  startTimeMs : Int64
  allotmentBytes : UInt64
  bytesConsumed : UInt64
  paymentMethod : PaymentMethod
  active : Bool
deriving DecidableEq

/-- A record of zeroed static memory. -/
def TgSession.zero : TgSession := ⟨0, [], 0, 0, 0, 0, .cashu, false⟩

/-- What an operation reads from outside the tables. -/
structure Env where
  /-- The reading of `get_time_ms()`. -/
  now : Int64
  /-- The result of `s_platform->get_metric()`, if there is such a callback. -/
  metric : Option CStr
  /-- `tollgate_core_fw_get_mac_for_ip`. -/
  macForIp : Ip → Option CStr

/-- The configured metric is `"bytes"`. -/
def Env.metricIsBytes (env : Env) : Bool := env.metric = some (cstr "bytes")

/-- A clock reading and a configured metric; no address is resolved. -/
def envAt (now : Int64) (metric : String) : Env := ⟨now, some (cstr metric), fun _ => none⟩

/-- The session table, its counter, and the two lists the sessions drive. -/
structure Core where
  sessions : Slot → TgSession
  sessionCount : ℤ
  gate : Gate

namespace Core

/-- Zeroed static memory. -/
def boot : Core := ⟨fun _ => .zero, 0, .boot⟩

/-- Overwrite one session record. -/
def setSession (c : Core) (i : Slot) (s : TgSession) : Core :=
  { c with sessions := Function.update c.sessions i s }

/-! ### The source operations -/

/-- `tollgate_core_session_init`. -/
def sessionInit (c : Core) : Core := { c with sessions := fun _ => .zero, sessionCount := 0 }

/-- `tollgate_core_session_find_by_ip`. -/
def findByIp (c : Core) (ip : Ip) : Option Slot :=
  Fin.find? fun i => (c.sessions i).active && (c.sessions i).clientIp == ip

/-- `tollgate_core_session_extend`. -/
def sessionExtend (c : Core) (session : Option Slot) (additionalMs : UInt64) : Core :=
  match session with
  | none => c
  | some i =>
    if (c.sessions i).active then
      c.setSession i { c.sessions i with
        allotmentMs := (c.sessions i).allotmentMs + additionalMs }
    else c

/-- The byte rule of expiry. -/
def bytesUsedUp (s : TgSession) : Bool := s.bytesConsumed ≥ s.allotmentBytes

/-- The time rule of expiry. The allotment is compared as a signed number. -/
def timeUsedUp (env : Env) (s : TgSession) : Bool :=
  env.now - s.startTimeMs ≥ s.allotmentMs.toInt64

/-- `tollgate_core_session_is_expired`. -/
def isExpired (env : Env) (s : TgSession) : Bool :=
  if !s.active then true
  -- the tag of a byte purchase outranks the configured metric
  else if s.paymentMethod = .bytes then bytesUsedUp s
  else if env.metricIsBytes then bytesUsedUp s
  else timeUsedUp env s

/-- The body of `tollgate_core_session_revoke` behind its guard. -/
def closeSession (c : Core) (i : Slot) : Core where
  sessions := Function.update c.sessions i { c.sessions i with active := false }
  sessionCount := c.sessionCount - 1
  gate := c.gate.fwRevoke (c.sessions i).clientIp

/-- `tollgate_core_session_revoke`. -/
def sessionRevoke (c : Core) (session : Option Slot) : Core :=
  match session with
  | none => c
  | some i => if (c.sessions i).active then c.closeSession i else c

/-- The slot the eviction loop of `tollgate_core_session_create` stops at: with a
full counter, the first one that is inactive or expired. -/
def evictee (env : Env) (c : Core) : Option Slot :=
  if c.sessionCount ≥ maxSessions then
    Fin.find? fun i => !(c.sessions i).active || isExpired env (c.sessions i)
  else none

/-- The eviction loop of `tollgate_core_session_create`. -/
def makeRoom (env : Env) (c : Core) : Core := c.sessionRevoke (c.evictee env)

/-- The slot `tollgate_core_session_create` fills. -/
def freeSlot (c : Core) : Option Slot := Fin.find? fun i => !(c.sessions i).active

/-- The record `tollgate_core_session_create` makes of the slot it takes. The byte
counters `allotment_bytes` and `bytes_consumed` are not written. -/
def newSession (env : Env) (old : TgSession) (ip : Ip) (allotmentMs : UInt64) : TgSession :=
  { old with
    clientIp := ip
    allotmentMs := allotmentMs
    startTimeMs := env.now
    active := true
    paymentMethod := .cashu
    mac := (env.macForIp ip).getD [] }

/-- The body of the creation loop of `tollgate_core_session_create`. -/
def openSession (env : Env) (c : Core) (i : Slot) (ip : Ip) (allotmentMs : UInt64) : Core where
  sessions := Function.update c.sessions i (newSession env (c.sessions i) ip allotmentMs)
  sessionCount := c.sessionCount + 1
  gate := c.gate.fwGrant env.macForIp ip

/-- `tollgate_core_session_create`. -/
def sessionCreate (env : Env) (c : Core) (ip : Ip) (allotmentMs : UInt64) :
    Core × Option Slot :=
  match c.findByIp ip with
  -- the client is not granted again
  | some i => (c.sessionExtend (some i) allotmentMs, some i)
  | none =>
    let c' := c.makeRoom env
    match c'.freeSlot with
    | some i => (c'.openSession env i ip allotmentMs, some i)
    | none => (c', none)

/-- `INT64_MAX`, stored in the time allotment of a byte session. -/
def int64Max : UInt64 := 0x7fffffffffffffff

/-- The record `tollgate_core_session_create_bytes` makes of the session it got. -/
def toBytesSession (s : TgSession) (allotmentBytes : UInt64) : TgSession :=
  { s with
    allotmentBytes := allotmentBytes
    bytesConsumed := 0
    allotmentMs := int64Max
    paymentMethod := .bytes }

/-- `tollgate_core_session_create_bytes`. -/
def sessionCreateBytes (env : Env) (c : Core) (ip : Ip) (allotmentBytes : UInt64) :
    Core × Option Slot :=
  match c.sessionCreate env ip 0 with
  | (c', some i) => (c'.setSession i (toBytesSession (c'.sessions i) allotmentBytes), some i)
  | (c', none) => (c', none)

/-- `tollgate_core_session_add_bytes`. -/
def sessionAddBytes (c : Core) (ip : Ip) (bytes : UInt64) : Core :=
  match c.findByIp ip with
  | some i => c.setSession i { c.sessions i with
      bytesConsumed := (c.sessions i).bytesConsumed + bytes }
  | none => c

/-- `check_expiry`, the body of `tollgate_core_session_tick`. -/
def sessionTick (env : Env) (c : Core) : Core :=
  StepRun.sweep (fun c i =>
    if (c.sessions i).active && isExpired env (c.sessions i) then c.sessionRevoke (some i)
    else c) c

/-- `tollgate_core_session_revoke_all`. -/
def sessionRevokeAll (c : Core) : Core :=
  StepRun.sweep (fun c i =>
    if (c.sessions i).active then c.sessionRevoke (some i) else c) c

/-! ### What the lookups find -/

variable {c : Core} {env : Env} {ip : Ip} {i : Slot}

@[simp] theorem sessions_setSession (c : Core) (i : Slot) (s : TgSession) :
    (c.setSession i s).sessions = Function.update c.sessions i s := rfl

@[simp] theorem gate_setSession (c : Core) (i : Slot) (s : TgSession) :
    (c.setSession i s).gate = c.gate := rfl

theorem findByIp_eq_some (h : c.findByIp ip = some i) :
    (c.sessions i).active = true ∧ (c.sessions i).clientIp = ip := by
  simpa using Fin.eq_true_of_find?_eq_some h

theorem findByIp_eq_none_iff :
    c.findByIp ip = none ↔ ∀ i, (c.sessions i).active = true → (c.sessions i).clientIp ≠ ip := by
  unfold findByIp
  rw [Fin.find?_eq_none_iff]
  -- slot by slot, the test fails when the flag is down or the address differs
  refine forall_congr' fun i => ?_
  cases (c.sessions i).active <;> simp

theorem freeSlot_eq_some (h : c.freeSlot = some i) : (c.sessions i).active = false := by
  simpa using Fin.eq_true_of_find?_eq_some h

theorem freeSlot_eq_none_iff : c.freeSlot = none ↔ ∀ i, (c.sessions i).active = true := by
  unfold freeSlot
  rw [Fin.find?_eq_none_iff]
  exact forall_congr' fun i => by simp

theorem isExpired_of_inactive {s : TgSession} (h : s.active = false) : isExpired env s = true := by
  unfold isExpired
  rw [h]
  rfl

/-- The byte rule decides the expiry of this session. -/
def byteRuled (env : Env) (s : TgSession) : Bool :=
  s.paymentMethod = .bytes || env.metricIsBytes

theorem isExpired_of_byteRuled {s : TgSession} (hact : s.active = true)
    (h : byteRuled env s = true) : isExpired env s = bytesUsedUp s := by
  unfold byteRuled at h
  unfold isExpired
  rw [hact]
  -- the tag is tested before the metric, and both lead to the byte rule
  by_cases htag : s.paymentMethod = .bytes
  · simp [htag]
  · have hm : env.metricIsBytes = true := by simpa [htag] using h
    simp [hm]

theorem isExpired_of_timeRuled {s : TgSession} (hact : s.active = true)
    (h : byteRuled env s = false) : isExpired env s = timeUsedUp env s := by
  unfold byteRuled at h
  unfold isExpired
  rw [Bool.or_eq_false_iff, decide_eq_false_iff_not] at h
  simp [hact, h.1, h.2]

/-! ### The outcomes of revocation, eviction and creation -/

@[simp] theorem sessions_closeSession (c : Core) (i : Slot) :
    (c.closeSession i).sessions =
      Function.update c.sessions i { c.sessions i with active := false } := rfl

@[simp] theorem sessionCount_closeSession (c : Core) (i : Slot) :
    (c.closeSession i).sessionCount = c.sessionCount - 1 := rfl

@[simp] theorem gate_closeSession (c : Core) (i : Slot) :
    (c.closeSession i).gate = c.gate.fwRevoke (c.sessions i).clientIp := rfl

@[simp] theorem sessions_openSession (env : Env) (c : Core) (i : Slot) (ip : Ip) (a : UInt64) :
    (c.openSession env i ip a).sessions =
      Function.update c.sessions i (newSession env (c.sessions i) ip a) := rfl

@[simp] theorem sessionCount_openSession (env : Env) (c : Core) (i : Slot) (ip : Ip)
    (a : UInt64) : (c.openSession env i ip a).sessionCount = c.sessionCount + 1 := rfl

@[simp] theorem gate_openSession (env : Env) (c : Core) (i : Slot) (ip : Ip) (a : UInt64) :
    (c.openSession env i ip a).gate = c.gate.fwGrant env.macForIp ip := rfl

theorem sessionRevoke_of_active (h : (c.sessions i).active = true) :
    c.sessionRevoke (some i) = c.closeSession i :=
  if_pos h

theorem sessionRevoke_of_inactive (h : (c.sessions i).active = false) :
    c.sessionRevoke (some i) = c :=
  if_neg (by rw [h]; exact Bool.false_ne_true)

theorem sessionExtend_of_active {a : UInt64} (h : (c.sessions i).active = true) :
    c.sessionExtend (some i) a = c.setSession i { c.sessions i with
      allotmentMs := (c.sessions i).allotmentMs + a } :=
  if_pos h

theorem sessionExtend_of_inactive {a : UInt64} (h : (c.sessions i).active = false) :
    c.sessionExtend (some i) a = c :=
  if_neg (by rw [h]; exact Bool.false_ne_true)

theorem evictee_eq_some (h : c.evictee env = some i) :
    c.sessionCount ≥ maxSessions ∧ isExpired env (c.sessions i) = true := by
  unfold evictee at h
  split at h
  · next hfull =>
    refine ⟨hfull, ?_⟩
    have hi := Fin.eq_true_of_find?_eq_some h
    rw [Bool.or_eq_true] at hi
    -- the loop also stops at an inactive slot, which `is_expired` calls expired
    exact hi.elim (fun hi => isExpired_of_inactive (by simpa using hi)) id
  · exact absurd h (by simp)

/-- The eviction loop either changes nothing or closes the active, expired session
it stops at. -/
theorem makeRoom_cases (env : Env) (c : Core) :
    c.makeRoom env = c ∨
      ∃ i, c.evictee env = some i ∧ (c.sessions i).active = true ∧
        c.makeRoom env = c.closeSession i := by
  unfold makeRoom
  cases hev : c.evictee env with
  | none => exact Or.inl rfl
  | some i =>
    cases hact : (c.sessions i).active with
    -- `session_revoke` returns early on a slot that is inactive already
    | false => exact Or.inl (sessionRevoke_of_inactive hact)
    | true => exact Or.inr ⟨i, rfl, hact, sessionRevoke_of_active hact⟩

theorem makeRoom_of_freeSlot_none (h : (c.makeRoom env).freeSlot = none) :
    c.makeRoom env = c := by
  obtain heq | ⟨i, -, -, heq⟩ := makeRoom_cases env c
  · exact heq
  · -- an evicted slot would be free
    have hi := freeSlot_eq_none_iff.mp h i
    rw [heq, sessions_closeSession, Function.update_self] at hi
    exact absurd hi Bool.false_ne_true

/-- **The outcomes of `tollgate_core_session_create`.** The client has an active
session, which is extended; or it has none and a slot is filled, perhaps after an
eviction; or there is no slot and nothing changes. -/
theorem sessionCreate_cases (env : Env) (c : Core) (ip : Ip) (a : UInt64) :
    (∃ i, c.findByIp ip = some i ∧
      c.sessionCreate env ip a = (c.sessionExtend (some i) a, some i)) ∨
    (c.findByIp ip = none ∧ ∃ i, (c.makeRoom env).freeSlot = some i ∧
      c.sessionCreate env ip a = ((c.makeRoom env).openSession env i ip a, some i)) ∨
    (c.findByIp ip = none ∧ (c.makeRoom env).freeSlot = none ∧
      c.sessionCreate env ip a = (c, none)) := by
  unfold sessionCreate
  cases hfind : c.findByIp ip with
  | some i => exact Or.inl ⟨i, rfl, rfl⟩
  | none =>
    cases hfree : (c.makeRoom env).freeSlot with
    | some i => exact Or.inr (Or.inl ⟨rfl, i, rfl, by simp only [hfree]⟩)
    | none =>
      -- the call fails: nobody was evicted for it
      refine Or.inr (Or.inr ⟨rfl, rfl, ?_⟩)
      simp only [hfree]
      rw [makeRoom_of_freeSlot_none hfree]

theorem sessionCreateBytes_of_some {c' : Core} {a : UInt64}
    (h : c.sessionCreate env ip 0 = (c', some i)) :
    c.sessionCreateBytes env ip a =
      (c'.setSession i (toBytesSession (c'.sessions i) a), some i) := by
  unfold sessionCreateBytes
  rw [h]

theorem sessionCreateBytes_of_none {c' : Core} {a : UInt64}
    (h : c.sessionCreate env ip 0 = (c', none)) :
    c.sessionCreateBytes env ip a = (c', none) := by
  unfold sessionCreateBytes
  rw [h]

/-! ### Session operations as steps -/

/-- The session operations of `tollgate_core`, each with what it reads from its
environment. -/
inductive SessionOp where
  | create (env : Env) (ip : Ip) (allotmentMs : UInt64)
  | createBytes (env : Env) (ip : Ip) (allotmentBytes : UInt64)
  | addBytes (ip : Ip) (bytes : UInt64)
  | extend (session : Option Slot) (additionalMs : UInt64)
  | revoke (session : Option Slot)
  | revokeAll
  | tick (env : Env)

/-- One session operation. -/
def step (c : Core) : SessionOp → Core
  | .create env ip a => (c.sessionCreate env ip a).1
  | .createBytes env ip a => (c.sessionCreateBytes env ip a).1
  | .addBytes ip n => c.sessionAddBytes ip n
  | .extend session a => c.sessionExtend session a
  | .revoke session => c.sessionRevoke session
  | .revokeAll => c.sessionRevokeAll
  | .tick env => c.sessionTick env

end Core

end TollGate
