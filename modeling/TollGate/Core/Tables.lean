import TollGate.Core.Session

/-!
# The three tables stay in step

Sessions, firewall clients and DNS entries are stored in three arrays with
different removal disciplines. Starting from empty tables, whatever sequence of
session operations is executed, the three hold the same addresses
(`Core.tables_in_step`).

Every session operation is a chain of three elementary changes
(`Core.Change`): a record is rewritten without touching its address and its
active flag, an active session is closed, or a session is opened in an inactive
slot for a client that has none. `Core.step_changes` proves it once for all
operations, including the eviction inside `sessionCreate` and the loops of
`sessionTick` and `sessionRevokeAll`. An invariant is therefore checked on three
changes, not on seven operations:

* `Core.WellFormed`, the part that needs nothing of the gate but distinct
  entries: active sessions have distinct addresses and the counter counts them;
* `Core.InStep`, which adds that both lists of the gate hold exactly the
  addresses of the active sessions.
-/

namespace TollGate

namespace Core

variable {c c' : Core} {env : Env} {ip : Ip} {i : Slot}

/-! ### The elementary changes -/

/-- An elementary change of the tables. There are three of them, and every session operation is a
chain of such changes, so an invariant has to be checked on these three only. -/
inductive Change (c : Core) : Core → Prop where
  /-- A record is rewritten; its address and active flag stay. -/
  | touch (i : Slot) (s : TgSession) (hip : s.clientIp = (c.sessions i).clientIp)
      (hact : s.active = (c.sessions i).active) : Change c (c.setSession i s)
  /-- An active session is closed and its client revoked. -/
  | close (i : Slot) (hact : (c.sessions i).active = true) : Change c (c.closeSession i)
  /-- A session is opened in an inactive slot, for a client without one. -/
  | open (env : Env) (i : Slot) (ip : Ip) (a : UInt64)
      (hfree : (c.sessions i).active = false) (hnew : c.findByIp ip = none) :
      Change c (c.openSession env i ip a)

/-- A chain of elementary changes, of any length: a tick may close all ten sessions, and a lookup
changes nothing. -/
abbrev Changes : Core → Core → Prop := Relation.ReflTransGen Change

/-- What one elementary change preserves is preserved by a chain of them. -/
theorem Changes.induction {P : Core → Prop} (hstep : ∀ c c', Change c c' → P c → P c')
    (h : Changes c c') (hc : P c) : P c' := by
  induction h with
  | refl => exact hc
  | tail _ hch ih => exact hstep _ _ hch ih

/-- An extension rewrites one record, or nothing when there is no session to extend. -/
theorem sessionExtend_changes (session : Option Slot) (a : UInt64) :
    Changes c (c.sessionExtend session a) := by
  cases session with
  | none => exact .refl
  | some i =>
    cases hact : (c.sessions i).active with
    | true => rw [sessionExtend_of_active hact]; exact .single (.touch i _ rfl rfl)
    | false => rw [sessionExtend_of_inactive hact]

/-- A revocation closes one session, if it is an active one, and is nothing otherwise. -/
theorem sessionRevoke_changes (session : Option Slot) : Changes c (c.sessionRevoke session) := by
  cases session with
  | none => exact .refl
  | some i =>
    cases hact : (c.sessions i).active with
    | true => rw [sessionRevoke_of_active hact]; exact .single (.close i hact)
    | false => rw [sessionRevoke_of_inactive hact]

/-- The eviction that makes room for a new session closes one active session at most: the first one
that is over, when all ten slots are taken. -/
theorem makeRoom_changes (env : Env) : Changes c (c.makeRoom env) := by
  obtain heq | ⟨i, -, hact, heq⟩ := makeRoom_cases env c
  · rw [heq]
  · rw [heq]
    exact .single (.close i hact)

/-- A client without a session has none after the eviction either, since sessions are only closed
there. -/
theorem findByIp_makeRoom (h : c.findByIp ip = none) : (c.makeRoom env).findByIp ip = none := by
  obtain heq | ⟨i, -, -, heq⟩ := makeRoom_cases env c
  · rw [heq, h]
  · rw [heq, findByIp_eq_none_iff]
    -- closing one session leaves the addresses of the others
    intro j hj
    rw [sessions_closeSession] at hj ⊢
    by_cases hji : j = i
    · subst hji
      rw [Function.update_self] at hj
      exact absurd hj Bool.false_ne_true
    · rw [Function.update_of_ne hji] at hj ⊢
      exact findByIp_eq_none_iff.mp h j hj

/-- **The creation of a session** is an extension where the client has one already, and else an
eviction, where there is no room, with an opening behind it. -/
theorem sessionCreate_changes (env : Env) (ip : Ip) (a : UInt64) :
    Changes c (c.sessionCreate env ip a).1 := by
  obtain ⟨i, -, heq⟩ | ⟨hnone, i, hfree, heq⟩ | ⟨-, -, heq⟩ := sessionCreate_cases env c ip a
  · rw [heq]
    exact sessionExtend_changes (some i) a
  · rw [heq]
    -- at most one eviction, then the session is opened
    refine (makeRoom_changes env).tail ?_
    exact .open env i ip a (freeSlot_eq_some hfree) (findByIp_makeRoom hnone)
  · rw [heq]

/-- A session that is paid by bytes is created in the same way, and its record rewritten once more
with the tag and the limit. -/
theorem sessionCreateBytes_changes (env : Env) (ip : Ip) (a : UInt64) :
    Changes c (c.sessionCreateBytes env ip a).1 := by
  have hcreate : Changes c (c.sessionCreate env ip 0).1 := sessionCreate_changes env ip 0
  rcases hr : c.sessionCreate env ip 0 with ⟨c₁, _ | i⟩
  · rw [hr] at hcreate
    rw [sessionCreateBytes_of_none hr]
    exact hcreate
  · rw [hr] at hcreate
    rw [sessionCreateBytes_of_some hr]
    -- the byte fields are written into the record that was returned
    exact hcreate.tail (.touch i _ rfl rfl)

/-- Counting the bytes of a client rewrites the record of its session, if it has one. -/
theorem sessionAddBytes_changes (ip : Ip) (n : UInt64) :
    Changes c (c.sessionAddBytes ip n) := by
  unfold sessionAddBytes
  split
  · next i _ => exact .single (.touch i _ rfl rfl)
  · exact .refl

/-- A loop over the slots that revokes some of those it visits is a chain of changes, whatever it
asks of each slot, since what it asks may depend on the tables as they are by then. -/
theorem sweep_revoke_changes (p : Core → Slot → Bool) :
    Changes c (StepRun.sweep (fun c i => if p c i then c.sessionRevoke (some i) else c) c) := by
  -- the invariant of the loop is that it has made a chain of changes so far
  refine StepRun.sweep_induction (P := fun _ c' => Changes c c') ?_ .refl
  intro i c' h
  split
  · exact h.trans (sessionRevoke_changes (some i))
  · exact h

/-- **What a session operation can do**: each of the seven is a chain of elementary changes. This is
the one place where the operations are unfolded, and the invariants below do not look at them
again. -/
theorem step_changes (c : Core) (op : SessionOp) : Changes c (c.step op) := by
  cases op with
  | create env ip a => exact sessionCreate_changes env ip a
  | createBytes env ip a => exact sessionCreateBytes_changes env ip a
  | addBytes ip n => exact sessionAddBytes_changes ip n
  | extend session a => exact sessionExtend_changes session a
  | revoke session => exact sessionRevoke_changes session
  | revokeAll => exact sweep_revoke_changes fun c i => (c.sessions i).active
  | tick env =>
    exact sweep_revoke_changes fun c i => (c.sessions i).active && isExpired env (c.sessions i)

/-! ### The addresses of the active sessions -/

/-- The slots of the active sessions, at most ten. -/
def activeSlots (c : Core) : Finset Slot := {i | (c.sessions i).active = true}

/-- The addresses of the active sessions, which is what the two lists of the gate are compared
with. -/
def activeIps (c : Core) : Finset Ip := c.activeSlots.image fun i => (c.sessions i).clientIp

/-- A slot is among them if the flag of its record is set. -/
theorem mem_activeSlots : i ∈ c.activeSlots ↔ (c.sessions i).active = true := by
  simp [activeSlots]

/-- An address is among them if some active session has it. -/
theorem mem_activeIps :
    ip ∈ c.activeIps ↔ ∃ i, (c.sessions i).active = true ∧ (c.sessions i).clientIp = ip := by
  simp [activeIps, mem_activeSlots]

/-- The lookup of the source finds a session just for the addresses of active sessions, so a client
for whom it finds none may be given one. -/
theorem mem_activeIps_iff_findByIp : ip ∈ c.activeIps ↔ c.findByIp ip ≠ none := by
  rw [mem_activeIps, Ne, findByIp_eq_none_iff]
  push Not
  rfl

/-- A record that is rewritten with its flag as it was leaves the slots. -/
theorem activeSlots_touch {s : TgSession} (hact : s.active = (c.sessions i).active) :
    (c.setSession i s).activeSlots = c.activeSlots := by
  ext j
  rw [mem_activeSlots, mem_activeSlots, sessions_setSession]
  by_cases hj : j = i
  · subst hj; rw [Function.update_self, hact]
  · rw [Function.update_of_ne hj]

/-- A record that is rewritten with its address as it was leaves the addresses of all slots. -/
theorem clientIp_touch {s : TgSession} (hip : s.clientIp = (c.sessions i).clientIp) (j : Slot) :
    ((c.setSession i s).sessions j).clientIp = (c.sessions j).clientIp := by
  rw [sessions_setSession]
  by_cases hj : j = i
  · subst hj; rw [Function.update_self, hip]
  · rw [Function.update_of_ne hj]

/-- A record that is rewritten with its flag and its address as they were leaves the addresses of
the active sessions. -/
theorem activeIps_touch {s : TgSession} (hip : s.clientIp = (c.sessions i).clientIp)
    (hact : s.active = (c.sessions i).active) :
    (c.setSession i s).activeIps = c.activeIps := by
  unfold activeIps
  rw [activeSlots_touch hact]
  exact Finset.image_congr fun j _ => clientIp_touch hip j

/-- Closing a session takes its slot away, whether it was active or not. -/
theorem activeSlots_closeSession (c : Core) (i : Slot) :
    (c.closeSession i).activeSlots = c.activeSlots.erase i := by
  ext j
  rw [Finset.mem_erase, mem_activeSlots, mem_activeSlots, sessions_closeSession]
  by_cases hj : j = i
  · subst hj; rw [Function.update_self]; simp
  · rw [Function.update_of_ne hj]; simp [hj]

/-- Opening a session adds its slot. -/
theorem activeSlots_openSession (env : Env) (c : Core) (i : Slot) (ip : Ip) (a : UInt64) :
    (c.openSession env i ip a).activeSlots = insert i c.activeSlots := by
  ext j
  rw [Finset.mem_insert, mem_activeSlots, mem_activeSlots, sessions_openSession]
  by_cases hj : j = i
  · subst hj; rw [Function.update_self]; simp [newSession]
  · rw [Function.update_of_ne hj]; simp [hj]

/-- Opening a session in an inactive slot adds the address of its client and takes none away: the
record that is overwritten was not an active one. -/
theorem activeIps_openSession {a : UInt64} (hfree : (c.sessions i).active = false) :
    (c.openSession env i ip a).activeIps = insert ip c.activeIps := by
  have hi : i ∉ c.activeSlots := by rw [mem_activeSlots, hfree]; exact Bool.false_ne_true
  unfold activeIps
  rw [activeSlots_openSession, Finset.image_insert, sessions_openSession, Function.update_self]
  congr 1
  -- the other active slots keep their records
  refine Finset.image_congr fun j hj => ?_
  have hji : j ≠ i := fun h => hi (h ▸ hj)
  change (Function.update c.sessions i _ j).clientIp = _
  rw [Function.update_of_ne hji]

/-! ### The table on its own -/

/-- What every run keeps, whatever is admitted at the gate besides: of its two lists it only says
that no address is in one of them twice. -/
structure WellFormed (c : Core) : Prop where
  /-- Active sessions have distinct addresses. -/
  active_inj : Set.InjOn (fun i => (c.sessions i).clientIp) c.activeSlots
  /-- The counter counts the active sessions. -/
  count_eq : c.sessionCount = c.activeSlots.card
  distinct : c.gate.Distinct

/-- The tables are empty at first. -/
theorem WellFormed.boot : WellFormed boot where
  active_inj i hi := by
    rw [Finset.mem_coe, mem_activeSlots] at hi
    exact absurd hi Bool.false_ne_true
  count_eq := by decide
  distinct := Gate.Distinct.boot

/-- There are as many addresses as sessions, since no two active sessions have the same one. -/
theorem WellFormed.card_activeIps (h : c.WellFormed) : c.activeIps.card = c.activeSlots.card :=
  Finset.card_image_of_injOn h.active_inj

/-- Closing an active session takes its address away, because no other session has it. -/
theorem WellFormed.activeIps_closeSession (h : c.WellFormed)
    (hact : (c.sessions i).active = true) :
    (c.closeSession i).activeIps = c.activeIps.erase (c.sessions i).clientIp := by
  unfold activeIps
  rw [activeSlots_closeSession]
  have hcongr : ∀ j ∈ c.activeSlots.erase i,
      ((c.closeSession i).sessions j).clientIp = (c.sessions j).clientIp := by
    intro j hj
    rw [sessions_closeSession, Function.update_of_ne (Finset.ne_of_mem_erase hj)]
  rw [Finset.image_congr hcongr]
  -- the address is gone because no other active session has it
  ext ip
  simp only [Finset.mem_erase, Finset.mem_image]
  refine ⟨?_, ?_⟩
  · rintro ⟨j, ⟨hji, hj⟩, rfl⟩
    exact ⟨fun heq => hji (h.active_inj hj (mem_activeSlots.mpr hact) heq), j, hj, rfl⟩
  · rintro ⟨hne, j, hj, rfl⟩
    exact ⟨j, ⟨fun heq => hne (heq ▸ rfl), hj⟩, rfl⟩

/-- **An elementary change keeps the tables well formed.** A rewritten record counts as before; a
closed session is one less; an opened one has an address that was not there, and is one more. -/
theorem WellFormed.change (h : c.WellFormed) (hch : Change c c') : c'.WellFormed := by
  cases hch with
  | touch i s hip hact =>
    -- neither the active slots nor their addresses change
    refine ⟨?_, ?_, h.distinct⟩
    · rw [activeSlots_touch hact]
      intro j hj k hk heq
      simp only [clientIp_touch hip] at heq
      exact h.active_inj hj hk heq
    · rw [activeSlots_touch hact]
      exact h.count_eq
  | close i hact =>
    -- a subset of the active slots is left, one fewer
    refine ⟨?_, ?_, h.distinct.fwRevoke _⟩
    · rw [activeSlots_closeSession]
      intro j hj k hk heq
      obtain ⟨hji, hj⟩ := Finset.mem_erase.mp hj
      obtain ⟨hki, hk⟩ := Finset.mem_erase.mp hk
      simp only [sessions_closeSession, Function.update_of_ne hji, Function.update_of_ne hki] at heq
      exact h.active_inj hj hk heq
    · have hi : i ∈ c.activeSlots := mem_activeSlots.mpr hact
      have hpos : 0 < c.activeSlots.card := Finset.card_pos.mpr ⟨i, hi⟩
      rw [activeSlots_closeSession, Finset.card_erase_of_mem hi, sessionCount_closeSession,
        h.count_eq]
      omega
  | «open» env i ip a hfree hnew =>
    have hi : i ∉ c.activeSlots := by rw [mem_activeSlots, hfree]; exact Bool.false_ne_true
    -- the new address differs from every active one
    have hne : ∀ j ∈ c.activeSlots, (c.sessions j).clientIp ≠ ip := fun j hj =>
      findByIp_eq_none_iff.mp hnew j (mem_activeSlots.mp hj)
    refine ⟨?_, ?_, h.distinct.fwGrant _ _⟩
    · rw [activeSlots_openSession, Finset.coe_insert, Set.injOn_insert hi]
      refine ⟨fun j hj k hk heq => ?_, ?_⟩
      · have hji : j ≠ i := fun e => hi (e ▸ hj)
        have hki : k ≠ i := fun e => hi (e ▸ hk)
        simp only [sessions_openSession, Function.update_of_ne hji,
          Function.update_of_ne hki] at heq
        exact h.active_inj hj hk heq
      · rintro ⟨j, hj, heq⟩
        have hji : j ≠ i := fun e => hi (e ▸ hj)
        simp only [sessions_openSession, Function.update_of_ne hji, Function.update_self] at heq
        exact hne j hj heq
    · rw [activeSlots_openSession, Finset.card_insert_of_notMem hi, sessionCount_openSession,
        h.count_eq]
      omega

/-- A chain of changes keeps the tables well formed. -/
theorem WellFormed.changes (h : c.WellFormed) (hch : Changes c c') : c'.WellFormed :=
  Changes.induction (fun _ _ hch h => h.change hch) hch h

/-- When the counter has reached its limit then all slots are active: it counts them, and there are
no more than ten. -/
theorem WellFormed.active_of_full (h : c.WellFormed) (hfull : c.sessionCount ≥ maxSessions)
    (i : Slot) : (c.sessions i).active = true := by
  rw [← mem_activeSlots]
  -- the counter counts a set of slots, and there are only ten
  have hcard : c.activeSlots.card = Fintype.card Slot := by
    have hle := c.activeSlots.card_le_univ
    have hge := h.count_eq ▸ hfull
    rw [Fintype.card_fin] at hle ⊢
    omega
  rw [Finset.eq_univ_of_card _ hcard]
  exact Finset.mem_univ i

/-- When all slots are active then the counter has reached its limit, so a new session has to wait
for one that is over. -/
theorem WellFormed.full_of_active (h : c.WellFormed)
    (hact : ∀ i, (c.sessions i).active = true) : c.sessionCount ≥ maxSessions := by
  have huniv : c.activeSlots = Finset.univ :=
    Finset.eq_univ_of_forall fun i => mem_activeSlots.mpr (hact i)
  rw [h.count_eq, huniv, Finset.card_univ, Fintype.card_fin]

/-! ### After a tick nobody is expired -/

/-- What a tick leaves of one record: the flag is cleared if the session is over, and nothing else
is changed. -/
def afterExpiry (env : Env) (s : TgSession) : TgSession :=
  if s.active && isExpired env s then { s with active := false } else s

/-- One turn of the expiry loop applies `afterExpiry` to its own slot and leaves the others, because
revoking a session does not look at them. -/
theorem sessions_checkExpiry (env : Env) (c : Core) (i : Slot) :
    (if (c.sessions i).active && isExpired env (c.sessions i) then c.sessionRevoke (some i)
      else c).sessions = Function.update c.sessions i (afterExpiry env (c.sessions i)) := by
  unfold afterExpiry
  split
  · next hexp =>
    have hact : (c.sessions i).active = true := (Bool.and_eq_true_iff.mp hexp).1
    rw [sessionRevoke_of_active hact, sessions_closeSession]
  · rw [Function.update_eq_self]

/-- **The records after a tick**: each is what `afterExpiry` leaves of it, whatever the other nine
are. -/
theorem sessions_sessionTick (env : Env) (c : Core) (i : Slot) :
    (c.sessionTick env).sessions i = afterExpiry env (c.sessions i) := by
  -- the loop has treated the slots it visited and not touched the others
  have h := StepRun.sweep_induction
    (P := fun k (c' : Core) => ∀ j : Slot, c'.sessions j =
      if j.val < k then afterExpiry env (c.sessions j) else c.sessions j)
    (f := fun c i => if (c.sessions i).active && isExpired env (c.sessions i) then
      c.sessionRevoke (some i) else c) (s := c) ?_ (fun j => rfl)
  · have hi := h i
    rw [if_pos i.isLt] at hi
    exact hi
  · intro i c' ih j
    rw [sessions_checkExpiry]
    by_cases hj : j = i
    · subst hj
      rw [Function.update_self, ih j, if_neg (lt_irrefl _), if_pos (Nat.lt_succ_self _)]
    · have hne : j.val ≠ i.val := fun e => hj (Fin.ext e)
      have hiff : j.val < i.val + 1 ↔ j.val < i.val := by omega
      rw [Function.update_of_ne hj, ih j]
      simp only [hiff]

/-- After a tick no active session is over, at the time of that tick. -/
theorem isExpired_sessionTick (env : Env) (c : Core) (i : Slot)
    (hact : ((c.sessionTick env).sessions i).active = true) :
    isExpired env ((c.sessionTick env).sessions i) = false := by
  rw [sessions_sessionTick] at hact ⊢
  unfold afterExpiry at hact ⊢
  split at hact
  · -- a record the loop closed is not active
    exact absurd hact Bool.false_ne_true
  · next hnot =>
    rw [if_neg hnot]
    rw [hact, Bool.true_and, Bool.not_eq_true] at hnot
    exact hnot

/-! ### The three tables together -/

/-- The gate admits exactly the clients with an active session. It holds as long as nothing but the
session operations changes the gate. -/
structure InStep (c : Core) : Prop where
  wf : c.WellFormed
  admits : c.gate.Admits c.activeIps

/-- Nobody is admitted at first, and there is no session. -/
theorem InStep.boot : InStep boot where
  wf := WellFormed.boot
  admits := by
    have hnone : Core.boot.activeIps = ∅ := by decide
    rw [hnone]
    exact Gate.Admits.boot

/-- There are ten slots, so an inactive one leaves room for one more address in each of the two
lists: an admission does not fail for want of room. -/
theorem WellFormed.card_activeIps_lt (h : c.WellFormed) (hfree : (c.sessions i).active = false) :
    c.activeIps.card < maxSessions := by
  have hi : i ∉ c.activeSlots := by rw [mem_activeSlots, hfree]; exact Bool.false_ne_true
  rw [h.card_activeIps]
  exact (Finset.card_lt_univ_of_notMem hi).trans_eq (Fintype.card_fin maxSessions)

/-- **An elementary change keeps the tables in step**: what closes a session revokes its client, and
what opens one admits it. -/
theorem InStep.change (h : c.InStep) (hch : Change c c') : c'.InStep := by
  refine ⟨h.wf.change hch, ?_⟩
  cases hch with
  | touch i s hip hact =>
    rw [activeIps_touch hip hact]
    exact h.admits
  | close i hact =>
    rw [h.wf.activeIps_closeSession hact]
    exact h.admits.fwRevoke
  | «open» env i ip a hfree hnew =>
    -- the slot was inactive, so the grant finds room in both lists
    rw [activeIps_openSession hfree]
    exact h.admits.fwGrant _ (h.wf.card_activeIps_lt hfree)

/-- A session operation keeps the tables in step, since it is a chain of such changes. -/
theorem InStep.step (h : c.InStep) (op : SessionOp) : (c.step op).InStep :=
  Changes.induction (fun _ _ hch h => h.change hch) (step_changes c op) h

/-- The tables after a run of session operations from boot, whatever they are and in whatever
order. -/
def reach (ops : List SessionOp) : Core := StepRun.run step boot ops

/-- The tables are in step after each run. -/
theorem reach_inStep (ops : List SessionOp) : (reach ops).InStep :=
  StepRun.run_induction (fun _ op h => h.step op) InStep.boot ops

/-- **The three tables stay in step.** After any run of session operations from empty tables: the
active sessions, the firewall client list and the DNS authenticated list hold the same addresses,
none of them twice, and the three counters all count that set, which has at most ten elements. -/
theorem tables_in_step (ops : List SessionOp) :
    (∀ ip, ip ∈ (reach ops).gate.clientIps ↔ ip ∈ (reach ops).activeIps) ∧
    (∀ ip, ip ∈ (reach ops).gate.authIps ↔ ip ∈ (reach ops).activeIps) ∧
    (∀ i j, ((reach ops).sessions i).active = true → ((reach ops).sessions j).active = true →
      ((reach ops).sessions i).clientIp = ((reach ops).sessions j).clientIp → i = j) ∧
    (reach ops).gate.clientIps.Nodup ∧ (reach ops).gate.authIps.Nodup ∧
    (reach ops).sessionCount = (reach ops).activeIps.card ∧
    (reach ops).gate.clients.count = (reach ops).activeIps.card ∧
    (reach ops).gate.auth.count = (reach ops).activeIps.card ∧
    (reach ops).activeIps.card ≤ 10 := by
  have h := reach_inStep ops
  refine ⟨h.admits.mem_clients, h.admits.mem_auth, ?_, h.admits.clients, h.admits.auth, ?_,
    h.admits.clients_count, h.admits.auth_count, ?_⟩
  · intro i j hi hj heq
    exact h.wf.active_inj (mem_activeSlots.mpr hi) (mem_activeSlots.mpr hj) heq
  · rw [h.wf.card_activeIps, h.wf.count_eq]
  · -- the bound is the size of the client list
    rw [← h.admits.clients_count]
    exact (reach ops).gate.clients.count_le

end Core

end TollGate
