import TollGate.Core.Tables

/-!
# One client's view of the table

A client meets the session table only through `tollgate_core_session_find_by_ip`:
its record is the one that call points to (`Core.clientSession`). This module says
what the operations do to the record of one client, so that results about a
client never go back to slots:

* `Core.sessionCreate_returns_of_some`, `Core.sessionCreate_returns_of_none` and
  the two for bytes: a purchase rewrites the record the client has, or makes one
  of the slot it takes, and returns it;
* `Core.WellFormed.clientSession_run`: the operations of a running session (`UsageOp`: byte
  counting, extension, ticks, of any client) act on a client's record as the
  machine `UsageOp.onClient` of a single record does. The other clients and the
  slots have disappeared.
-/

namespace TollGate

namespace Core

variable {c : Core} {env : Env} {ip : Ip} {i : Slot}

/-- The record `tollgate_core_session_find_by_ip` points to. -/
def clientSession (c : Core) (ip : Ip) : Option TgSession := (c.findByIp ip).map c.sessions

theorem clientSession_of_findByIp (h : c.findByIp ip = some i) :
    c.clientSession ip = some (c.sessions i) := by
  unfold clientSession
  rw [h, Option.map_some]

theorem clientSession_eq_none_iff : c.clientSession ip = none ↔ c.findByIp ip = none := by
  unfold clientSession
  rw [Option.map_eq_none_iff]

theorem exists_slot_of_clientSession {s : TgSession} (h : c.clientSession ip = some s) :
    ∃ i, c.findByIp ip = some i ∧ c.sessions i = s := by
  unfold clientSession at h
  exact Option.map_eq_some_iff.mp h

theorem active_of_clientSession {s : TgSession} (h : c.clientSession ip = some s) :
    s.active = true ∧ s.clientIp = ip := by
  obtain ⟨i, hi, rfl⟩ := exists_slot_of_clientSession h
  exact findByIp_eq_some hi

/-! ### Writing a record in place -/

theorem findByIp_setSession {s : TgSession} (hip : s.clientIp = (c.sessions i).clientIp)
    (hact : s.active = (c.sessions i).active) (ip : Ip) :
    (c.setSession i s).findByIp ip = c.findByIp ip := by
  unfold findByIp
  congr 1
  funext j
  rw [sessions_setSession]
  by_cases hj : j = i
  · subst hj
    rw [Function.update_self, hip, hact]
  · rw [Function.update_of_ne hj]

theorem clientSession_setSession {s : TgSession} (h : c.findByIp ip = some i)
    (hip : s.clientIp = (c.sessions i).clientIp) (hact : s.active = (c.sessions i).active) :
    (c.setSession i s).clientSession ip = some s := by
  have hi : (c.setSession i s).findByIp ip = some i := by rw [findByIp_setSession hip hact, h]
  rw [clientSession_of_findByIp hi, sessions_setSession, Function.update_self]

/-- A record rewritten in place is nobody else's. -/
theorem clientSession_setSession_of_ne {s : TgSession} {ip' : Ip} (h : c.findByIp ip' = some i)
    (hip : s.clientIp = (c.sessions i).clientIp) (hact : s.active = (c.sessions i).active)
    (hne : ip ≠ ip') : (c.setSession i s).clientSession ip = c.clientSession ip := by
  unfold clientSession
  rw [findByIp_setSession hip hact]
  refine Option.map_congr fun j hj => ?_
  -- one slot is found by one address only
  have hji : j ≠ i := by
    intro heq
    subst heq
    exact hne ((findByIp_eq_some hj).2.symm.trans (findByIp_eq_some h).2)
  rw [sessions_setSession, Function.update_of_ne hji]

/-! ### Purchases -/

/-- The slot a new client gets, perhaps after an eviction. -/
def slotForNew (env : Env) (c : Core) : Option Slot := (c.makeRoom env).freeSlot

/-- A new client is refused exactly when every slot is active and no expired one is
evicted, because there is none or because the counter says there is room. -/
def NoSlot (env : Env) (c : Core) : Prop :=
  ∀ i, (c.sessions i).active = true ∧
    (c.sessionCount ≥ maxSessions → isExpired env (c.sessions i) = false)

theorem slotForNew_eq_none_iff : c.slotForNew env = none ↔ c.NoSlot env := by
  unfold slotForNew
  refine ⟨?_, ?_⟩
  · intro hnone i
    have hact := freeSlot_eq_none_iff.mp hnone
    rw [makeRoom_of_freeSlot_none hnone] at hact
    refine ⟨hact i, fun hfull => ?_⟩
    by_contra hexp
    rw [Bool.not_eq_false] at hexp
    -- an expired session would have been evicted
    have hev : c.evictee env ≠ none := by
      unfold evictee
      rw [if_pos hfull, Ne, Fin.find?_eq_none_iff]
      intro hall
      have hi := hall i
      rw [hexp, Bool.or_true] at hi
      exact absurd hi Bool.noConfusion
    -- and the slot of the evicted session would be free
    obtain ⟨j, hj⟩ := Option.ne_none_iff_exists'.mp hev
    have hroom : c.makeRoom env = c.closeSession j := by
      unfold makeRoom
      rw [hj, sessionRevoke_of_active (hact j)]
    have hactj := freeSlot_eq_none_iff.mp hnone j
    rw [hroom, sessions_closeSession, Function.update_self] at hactj
    exact absurd hactj Bool.false_ne_true
  · intro hno
    -- nobody can be evicted, so the table is searched as it is
    have hev : c.evictee env = none := by
      unfold evictee
      split
      · next hfull =>
        rw [Fin.find?_eq_none_iff]
        intro i
        rw [(hno i).1, (hno i).2 hfull]
        rfl
      · rfl
    have hroom : c.makeRoom env = c := by
      unfold makeRoom
      rw [hev]
      rfl
    rw [hroom, freeSlot_eq_none_iff]
    exact fun i => (hno i).1

/-- The call returned the client's record, which now is `s`. -/
def Returns (r : Core × Option Slot) (ip : Ip) (s : TgSession) : Prop :=
  ∃ i, r.2 = some i ∧ r.1.findByIp ip = some i ∧ r.1.sessions i = s

theorem Returns.clientSession {r : Core × Option Slot} {s : TgSession} (h : Returns r ip s) :
    r.1.clientSession ip = some s := by
  obtain ⟨i, -, hfind, rfl⟩ := h
  exact clientSession_of_findByIp hfind

theorem Returns.ne_none {r : Core × Option Slot} {s : TgSession} (h : Returns r ip s) :
    r.2 ≠ none := by
  obtain ⟨i, hi, -⟩ := h
  rw [hi]
  exact Option.some_ne_none i

/-- The caller writes the record it was returned. -/
theorem Returns.write {r : Core × Option Slot} {s : TgSession} (h : Returns r ip s)
    (s' : TgSession) (hip : s'.clientIp = s.clientIp) (hact : s'.active = s.active) :
    ∃ i, r.2 = some i ∧ r.1.sessions i = s ∧ Returns (r.1.setSession i s', some i) ip s' := by
  obtain ⟨i, hi, hfind, rfl⟩ := h
  refine ⟨i, hi, rfl, i, rfl, ?_, ?_⟩
  · rw [findByIp_setSession hip hact, hfind]
  · rw [sessions_setSession, Function.update_self]

/-- A client with a session buys time: the record is extended. -/
theorem sessionCreate_returns_of_some {s : TgSession} (h : c.clientSession ip = some s)
    (env : Env) (a : UInt64) :
    Returns (c.sessionCreate env ip a) ip { s with allotmentMs := s.allotmentMs + a } := by
  obtain ⟨i, hi, rfl⟩ := exists_slot_of_clientSession h
  have hcreate : c.sessionCreate env ip a = (c.sessionExtend (some i) a, some i) := by
    unfold sessionCreate
    rw [hi]
  -- the extension rewrites the record in place
  rw [hcreate, sessionExtend_of_active (findByIp_eq_some hi).1]
  refine ⟨i, rfl, ?_, ?_⟩
  · rw [findByIp_setSession (by rfl) (by rfl), hi]
  · rw [sessions_setSession, Function.update_self]

/-- The eviction loop writes no field but an active flag, so the record a new
client gets does not show whether its slot was evicted. -/
theorem newSession_makeRoom (env : Env) (c : Core) (i : Slot) (ip : Ip) (a : UInt64) :
    newSession env ((c.makeRoom env).sessions i) ip a = newSession env (c.sessions i) ip a := by
  obtain heq | ⟨j, -, -, heq⟩ := makeRoom_cases env c
  · rw [heq]
  · rw [heq, sessions_closeSession]
    by_cases hij : i = j
    · subst hij
      rw [Function.update_self]
      rfl
    · rw [Function.update_of_ne hij]

theorem findByIp_openSession (h : c.findByIp ip = none) (env : Env) (i : Slot) (a : UInt64) :
    (c.openSession env i ip a).findByIp ip = some i := by
  cases hfind : (c.openSession env i ip a).findByIp ip with
  | none =>
    -- the new record itself would be found
    have hi := findByIp_eq_none_iff.mp hfind i
    rw [sessions_openSession, Function.update_self] at hi
    exact absurd rfl (hi rfl)
  | some j =>
    obtain ⟨hact, hip⟩ := findByIp_eq_some hfind
    by_cases hji : j = i
    · rw [hji]
    · -- any other slot held the client before
      rw [sessions_openSession, Function.update_of_ne hji] at hact hip
      exact absurd hip (findByIp_eq_none_iff.mp h j hact)

/-- A new client buys time: the record is made of what the slot held. -/
theorem sessionCreate_returns_of_none (h : c.clientSession ip = none)
    (hslot : c.slotForNew env = some i) (a : UInt64) :
    Returns (c.sessionCreate env ip a) ip (newSession env (c.sessions i) ip a) := by
  have hnone := clientSession_eq_none_iff.mp h
  have hcreate : c.sessionCreate env ip a = ((c.makeRoom env).openSession env i ip a, some i) := by
    unfold sessionCreate
    unfold slotForNew at hslot
    simp only [hnone, hslot]
  rw [hcreate, ← newSession_makeRoom]
  refine ⟨i, rfl, findByIp_openSession (findByIp_makeRoom hnone) env i a, ?_⟩
  rw [sessions_openSession, Function.update_self]

theorem sessionCreate_eq_of_refused (h : c.clientSession ip = none)
    (hslot : c.slotForNew env = none) (a : UInt64) : c.sessionCreate env ip a = (c, none) := by
  have hnone := clientSession_eq_none_iff.mp h
  unfold slotForNew at hslot
  obtain ⟨i, hi, -⟩ | ⟨-, i, hi, -⟩ | ⟨-, -, heq⟩ := sessionCreate_cases env c ip a
  · rw [hnone] at hi
    exact absurd hi (Option.some_ne_none i).symm
  · rw [hslot] at hi
    exact absurd hi (Option.some_ne_none i).symm
  · exact heq

theorem Returns.sessionCreateBytes {s : TgSession} (h : Returns (c.sessionCreate env ip 0) ip s)
    (a : UInt64) : Returns (c.sessionCreateBytes env ip a) ip (toBytesSession s a) := by
  obtain ⟨i, hi, hs, hret⟩ := h.write (toBytesSession s a) rfl rfl
  rw [sessionCreateBytes_of_some (Prod.ext rfl hi), hs]
  exact hret

/-- A client with a session buys bytes: both allotments are overwritten. -/
theorem sessionCreateBytes_returns_of_some {s : TgSession} (h : c.clientSession ip = some s)
    (env : Env) (a : UInt64) :
    Returns (c.sessionCreateBytes env ip a) ip (toBytesSession s a) :=
  (sessionCreate_returns_of_some h env 0).sessionCreateBytes a

/-- A new client buys bytes: nothing the slot held before is left. -/
theorem sessionCreateBytes_returns_of_none (h : c.clientSession ip = none)
    (hslot : c.slotForNew env = some i) (a : UInt64) :
    Returns (c.sessionCreateBytes env ip a) ip
      (toBytesSession (newSession env (c.sessions i) ip 0) a) :=
  (sessionCreate_returns_of_none h hslot 0).sessionCreateBytes a

/-- A sale: `session_create_bytes` or `session_create`, as the caller's reading of the
metric selects. -/
def sell (bytes : Bool) (env : Env) (c : Core) (ip : Ip) (allotment : UInt64) :
    Core × Option Slot :=
  if bytes then c.sessionCreateBytes env ip allotment else c.sessionCreate env ip allotment

theorem sell_returns_of_some {s : TgSession} (h : c.clientSession ip = some s) (bytes : Bool)
    (env : Env) (a : UInt64) :
    Returns (c.sell bytes env ip a) ip
      (if bytes then toBytesSession s a else { s with allotmentMs := s.allotmentMs + a }) := by
  cases bytes with
  | true => exact sessionCreateBytes_returns_of_some h env a
  | false => exact sessionCreate_returns_of_some h env a

/-- The record a sale makes of a slot that held `old`. -/
def recordFor (bytes : Bool) (env : Env) (old : TgSession) (ip : Ip) (a : UInt64) : TgSession :=
  if bytes then toBytesSession (newSession env old ip 0) a else newSession env old ip a

theorem sell_returns_of_none (h : c.clientSession ip = none) (hslot : c.slotForNew env = some i)
    (bytes : Bool) (a : UInt64) :
    Returns (c.sell bytes env ip a) ip (recordFor bytes env (c.sessions i) ip a) := by
  cases bytes with
  | true => exact sessionCreateBytes_returns_of_none h hslot a
  | false => exact sessionCreate_returns_of_none h hslot a

theorem sell_eq_of_refused (h : c.clientSession ip = none) (hslot : c.slotForNew env = none)
    (bytes : Bool) (a : UInt64) : c.sell bytes env ip a = (c, none) := by
  cases bytes with
  | true => exact sessionCreateBytes_of_none (sessionCreate_eq_of_refused h hslot 0)
  | false => exact sessionCreate_eq_of_refused h hslot a

theorem sell_eq_none_iff (bytes : Bool) (env : Env) (c : Core) (ip : Ip) (a : UInt64) :
    (c.sell bytes env ip a).2 = none ↔ c.findByIp ip = none ∧ c.NoSlot env := by
  rw [← slotForNew_eq_none_iff, ← clientSession_eq_none_iff]
  refine ⟨?_, ?_⟩
  · intro hnone
    cases hs : c.clientSession ip with
    -- a client with a session is never refused
    | some s => exact absurd hnone (sell_returns_of_some hs bytes env a).ne_none
    | none =>
      cases hslot : c.slotForNew env with
      | some i => exact absurd hnone (sell_returns_of_none hs hslot bytes a).ne_none
      | none => exact ⟨rfl, rfl⟩
  · rintro ⟨hs, hslot⟩
    rw [sell_eq_of_refused hs hslot]

theorem sell_changes (bytes : Bool) (env : Env) (ip : Ip) (a : UInt64) :
    Changes c (c.sell bytes env ip a).1 := by
  cases bytes with
  | true => exact sessionCreateBytes_changes env ip a
  | false => exact sessionCreate_changes env ip a

/-! ### The operations of a running session -/

/-- What happens to running sessions: traffic is counted, time is added through
`find_by_ip`, the expiry task ticks. -/
inductive UsageOp where
  | addBytes (ip : Ip) (bytes : UInt64)
  | extend (ip : Ip) (additionalMs : UInt64)
  | tick (env : Env)

/-- The operation on the tables. -/
def usageStep (c : Core) : UsageOp → Core
  | .addBytes ip n => c.sessionAddBytes ip n
  | .extend ip a => c.sessionExtend (c.findByIp ip) a
  | .tick env => c.sessionTick env

/-- The operation on the record of the client `ip`. -/
def UsageOp.onClient (ip : Ip) (s : Option TgSession) : UsageOp → Option TgSession
  | .addBytes ip' n =>
    if ip' = ip then s.map fun s => { s with bytesConsumed := s.bytesConsumed + n } else s
  | .extend ip' a =>
    if ip' = ip then s.map fun s => { s with allotmentMs := s.allotmentMs + a } else s
  | .tick env => s.filter fun s => !isExpired env s

theorem WellFormed.after_usageStep (h : c.WellFormed) (op : UsageOp) :
    (c.usageStep op).WellFormed := by
  cases op with
  | addBytes ip n => exact h.changes (sessionAddBytes_changes ip n)
  | extend ip a => exact h.changes (sessionExtend_changes (c.findByIp ip) a)
  | tick env => exact h.changes (step_changes c (.tick env))

theorem WellFormed.findByIp_of_active (h : c.WellFormed) (hact : (c.sessions i).active = true) :
    c.findByIp (c.sessions i).clientIp = some i := by
  cases hfind : c.findByIp (c.sessions i).clientIp with
  | none => exact absurd rfl (findByIp_eq_none_iff.mp hfind i hact)
  | some j =>
    obtain ⟨hactj, hipj⟩ := findByIp_eq_some hfind
    rw [h.active_inj (mem_activeSlots.mpr hactj) (mem_activeSlots.mpr hact) hipj]

/-- Rewriting the found record of `ip'` in place, seen by the client `ip`. -/
theorem clientSession_rewrite (ip' : Ip) (f : TgSession → TgSession)
    (hip : ∀ s, (f s).clientIp = s.clientIp) (hact : ∀ s, (f s).active = s.active)
    {c' : Core} (hnone : c.findByIp ip' = none → c' = c)
    (hsome : ∀ i, c.findByIp ip' = some i → c' = c.setSession i (f (c.sessions i))) :
    c'.clientSession ip =
      if ip' = ip then (c.clientSession ip).map f else c.clientSession ip := by
  cases hfind : c.findByIp ip' with
  | none =>
    rw [hnone hfind]
    split
    · next heq =>
      subst heq
      rw [clientSession_eq_none_iff.mpr hfind, Option.map_none]
    · rfl
  | some i =>
    -- the record that was found is rewritten; only its own client sees it
    rw [hsome i hfind]
    split
    · next heq =>
      subst heq
      rw [clientSession_of_findByIp hfind, Option.map_some]
      exact clientSession_setSession hfind (hip _) (hact _)
    · next hne => exact clientSession_setSession_of_ne hfind (hip _) (hact _) (Ne.symm hne)

theorem afterExpiry_of_not_expired {s : TgSession} (h : isExpired env s = false) :
    afterExpiry env s = s := by
  unfold afterExpiry
  rw [h, Bool.and_false, if_neg Bool.false_ne_true]

/-- A record that is active after a tick is the one from before, and unexpired. -/
theorem active_sessionTick (h : ((c.sessionTick env).sessions i).active = true) :
    (c.sessionTick env).sessions i = c.sessions i ∧ isExpired env (c.sessions i) = false := by
  have hexp : isExpired env (c.sessions i) = false := by
    -- a tick leaves an expired record inactive
    by_contra hexp
    rw [Bool.not_eq_false] at hexp
    rw [sessions_sessionTick] at h
    unfold afterExpiry at h
    rw [hexp, Bool.and_true] at h
    split at h
    · exact absurd h Bool.false_ne_true
    · next hact => exact absurd h hact
  exact ⟨by rw [sessions_sessionTick, afterExpiry_of_not_expired hexp], hexp⟩

/-- A tick takes an expired record from its client and leaves the others alone. -/
theorem WellFormed.clientSession_sessionTick (h : c.WellFormed) (env : Env) (ip : Ip) :
    (c.sessionTick env).clientSession ip =
      (c.clientSession ip).filter fun s => !isExpired env s := by
  cases hrec : c.clientSession ip with
  | none =>
    -- a tick opens no session
    rw [Option.filter_none, clientSession_eq_none_iff, findByIp_eq_none_iff]
    intro i hact
    obtain ⟨hkeep, -⟩ := active_sessionTick hact
    rw [hkeep] at hact ⊢
    exact findByIp_eq_none_iff.mp (clientSession_eq_none_iff.mp hrec) i hact
  | some s =>
    obtain ⟨i, hi, rfl⟩ := exists_slot_of_clientSession hrec
    obtain ⟨hact, hip⟩ := findByIp_eq_some hi
    cases hexp : isExpired env (c.sessions i) with
    | false =>
      -- the record survives in its slot, and the slot is still the one its client is found by
      have htick : (c.sessionTick env).WellFormed := h.changes (step_changes c (.tick env))
      have hkeep : (c.sessionTick env).sessions i = c.sessions i := by
        rw [sessions_sessionTick, afterExpiry_of_not_expired hexp]
      have hfind := htick.findByIp_of_active (i := i) (by rw [hkeep, hact])
      rw [hkeep, hip] at hfind
      rw [clientSession_of_findByIp hfind, hkeep, Option.filter_some, hexp, Bool.not_false,
        if_pos rfl]
    | true =>
      rw [Option.filter_some, hexp, Bool.not_true, if_neg Bool.false_ne_true,
        clientSession_eq_none_iff, findByIp_eq_none_iff]
      intro j hactj hipj
      -- a survivor with the same address would be the slot that was just closed
      obtain ⟨hkeep, hexpj⟩ := active_sessionTick hactj
      rw [hkeep] at hactj hipj
      have hji : j = i :=
        h.active_inj (mem_activeSlots.mpr hactj) (mem_activeSlots.mpr hact) (hipj.trans hip.symm)
      rw [hji, hexp] at hexpj
      exact absurd hexpj Bool.noConfusion

/-- **One operation, seen by one client.** -/
theorem WellFormed.clientSession_usageStep (h : c.WellFormed) (op : UsageOp) (ip : Ip) :
    (c.usageStep op).clientSession ip = op.onClient ip (c.clientSession ip) := by
  cases op with
  | addBytes ip' n =>
    refine clientSession_rewrite ip' (fun s => { s with bytesConsumed := s.bytesConsumed + n })
      (fun _ => rfl) (fun _ => rfl) (fun hnone => ?_) (fun i hsome => ?_)
    · simp only [usageStep, sessionAddBytes, hnone]
    · simp only [usageStep, sessionAddBytes, hsome]
  | extend ip' a =>
    refine clientSession_rewrite ip' (fun s => { s with allotmentMs := s.allotmentMs + a })
      (fun _ => rfl) (fun _ => rfl) (fun hnone => ?_) (fun i hsome => ?_)
    · simp only [usageStep, hnone]
      rfl
    · simp only [usageStep, hsome]
      exact sessionExtend_of_active (findByIp_eq_some hsome).1
  | tick env => exact h.clientSession_sessionTick env ip

/-- **A run, seen by one client.** The record of a client after any sequence of
operations on running sessions is a function of its record before. -/
theorem WellFormed.clientSession_run (h : c.WellFormed) (ops : List UsageOp) (ip : Ip) :
    (StepRun.run usageStep c ops).clientSession ip =
      StepRun.run (UsageOp.onClient ip) (c.clientSession ip) ops := by
  -- the two machines run side by side, related by what the client sees
  have hrel := StepRun.run_rel
    (R := fun (c : Core) s => c.WellFormed ∧ c.clientSession ip = s) ops
    (fun op _ c s ⟨hwf, hs⟩ =>
      ⟨hwf.after_usageStep op, by rw [hwf.clientSession_usageStep, hs]⟩) ⟨h, rfl⟩
  exact hrel.2

end Core

end TollGate
