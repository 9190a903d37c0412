import TollGate.Firmware.Services

/-!
# Expiry and admission: whose entries change

Two operations take sessions away from their clients: the expiry sweep of
`tollgate_core_session_tick`, and the eviction with which
`tollgate_core_session_create` makes room for a new client. Both go through
`tollgate_core_session_revoke`, hence through `tollgate_core_fw_revoke`, which
takes an entry out of each list by moving the last one into the hole. The results
say what they leave of everybody else, entry by entry, from every state the
firmware reaches.

**The sweep is exact when the lists are in step** (`Firmware.sweepExact_iff`). The
loop invariant is `Core.Swept`: after `k` slots the lists lack the clients of the
expired sessions among these `k`, and the records behind them are as they were.
The DNS entry of a client is dropped only together with its firewall entry, so an
expired client that is in the DNS list alone keeps it: grants by hand before
`start_services`, which zeroes the firewall list only, and a full firewall list
afterwards lead there (`Firmware.sweep_leaves_dns_entry`). Session operations alone
do not (`Core.sweepExact_reach`).

**Admission takes one expired session at most** (`Firmware.session_admission`): a
new client is refused exactly when ten unexpired sessions run, and otherwise no
session but one expired one is touched, nor any entry but those of its client and
of the new one.
-/

namespace TollGate

namespace Core

variable {c c' : Core} {env : Env} {ip : Ip} {i : Slot}

/-! ### The expiry sweep -/

/-- Slot `i` holds a session that the sweep closes. -/
def dueAt (env : Env) (c : Core) (i : Slot) : Bool :=
  (c.sessions i).active && isExpired env (c.sessions i)

/-- `ip` is the client of a session that is active and expired. -/
def Due (env : Env) (c : Core) (ip : Ip) : Prop :=
  ∃ i, c.dueAt env i = true ∧ (c.sessions i).clientIp = ip

/-- The sweep does what it is for: the expired sessions go, with the entries of
their clients in both lists, and everything else stays, also under a second sweep at
the same reading. -/
structure SweepExact (env : Env) (c : Core) : Prop where
  active : ∀ i, ((c.sessionTick env).sessions i).active = true ↔
    (c.sessions i).active = true ∧ isExpired env (c.sessions i) = false
  records : ∀ i, ((c.sessionTick env).sessions i).active = true →
    (c.sessionTick env).sessions i = c.sessions i
  clients : ∀ e, e ∈ (c.sessionTick env).gate.clients.live ↔
    e ∈ c.gate.clients.live ∧ ¬ c.Due env e.ip
  auth : ∀ e, e ∈ (c.sessionTick env).gate.auth.live ↔
    e ∈ c.gate.auth.live ∧ ¬ c.Due env e.ip
  again : (c.sessionTick env).sessionTick env = c.sessionTick env

/-- No expired session's client is in the DNS list without being in the firewall
list. -/
def DueInStep (env : Env) (c : Core) : Prop :=
  ∀ ip, c.Due env ip → ip ∈ c.gate.authIps → ip ∈ c.gate.clientIps

/-- The loop invariant of `check_expiry`: the table `c'` once the first `k` slots of
`c` were visited. -/
structure Swept (env : Env) (c : Core) (k : ℕ) (c' : Core) : Prop where
  distinct : c'.gate.Distinct
  records : ∀ j : Slot, k ≤ j.val → c'.sessions j = c.sessions j
  clients : ∀ e, e ∈ c'.gate.clients.live ↔ e ∈ c.gate.clients.live ∧
    ∀ j : Slot, j.val < k → c.dueAt env j = true → e.ip ≠ (c.sessions j).clientIp
  auth : ∀ ip, ip ∈ c'.gate.authIps ↔ ip ∈ c.gate.authIps ∧
    ∀ j : Slot, j.val < k → c.dueAt env j = true → ip ∈ c.gate.clientIps →
      ip ≠ (c.sessions j).clientIp

theorem dueAt_iff :
    c.dueAt env i = true ↔ (c.sessions i).active = true ∧ isExpired env (c.sessions i) = true :=
  Bool.and_eq_true_iff

theorem forall_lt_succ_slot {p : Slot → Prop} :
    (∀ j : Slot, j.val < i.val + 1 → p j) ↔ (∀ j : Slot, j.val < i.val → p j) ∧ p i := by
  refine ⟨fun h => ⟨fun j hj => h j (by omega), h i (Nat.lt_succ_self _)⟩, ?_⟩
  rintro ⟨hlt, hi⟩ j hj
  rcases Nat.lt_succ_iff_lt_or_eq.mp hj with hj | hj
  · exact hlt j hj
  · exact Fin.ext hj ▸ hi

theorem Swept.start (h : c.WellFormed) : Swept env c 0 c where
  distinct := h.distinct
  records _ _ := rfl
  clients _ := ⟨fun he => ⟨he, fun _ hj => absurd hj (Nat.not_lt_zero _)⟩, And.left⟩
  auth _ := ⟨fun hip => ⟨hip, fun _ hj => absurd hj (Nat.not_lt_zero _)⟩, And.left⟩

/-- The client of slot `i` is not among those whose entries were taken out before. -/
theorem Swept.mem_clientIps (hc : c.WellFormed) (h : Swept env c i c')
    (hact : (c.sessions i).active = true) :
    (c.sessions i).clientIp ∈ c'.gate.clientIps ↔
      (c.sessions i).clientIp ∈ c.gate.clientIps := by
  unfold Gate.clientIps BoundedTable.keys
  rw [List.mem_map, List.mem_map]
  refine exists_congr fun e => ?_
  rw [h.clients, and_assoc]
  refine and_congr_right fun _ => ⟨And.right, fun heq => ⟨fun j hj hdue hej => ?_, heq⟩⟩
  -- two active sessions do not share an address
  have hji : j = i := hc.active_inj (mem_activeSlots.mpr (dueAt_iff.mp hdue).1)
    (mem_activeSlots.mpr hact) (hej.symm.trans heq)
  exact absurd (congrArg Fin.val hji) (Nat.ne_of_lt hj)

/-- One turn of the loop. -/
theorem Swept.turn (hc : c.WellFormed) (h : Swept env c i c') :
    Swept env c (i + 1)
      (if (c'.sessions i).active && isExpired env (c'.sessions i) then c'.sessionRevoke (some i)
        else c') := by
  have hrec : c'.sessions i = c.sessions i := h.records i le_rfl
  have hcond : ((c'.sessions i).active && isExpired env (c'.sessions i)) = c.dueAt env i := by
    rw [hrec, dueAt]
  rw [hcond]
  split
  · next hdue =>
    have hact : (c.sessions i).active = true := (dueAt_iff.mp hdue).1
    rw [sessionRevoke_of_active (hrec ▸ hact)]
    refine ⟨h.distinct.fwRevoke _, fun j hj => ?_, fun e => ?_, fun ip => ?_⟩
    · rw [sessions_closeSession, Function.update_of_ne (Fin.ne_of_val_ne (by omega))]
      exact h.records j (by omega)
    · rw [gate_closeSession, h.distinct.mem_clients_fwRevoke, h.clients, hrec, and_assoc,
        forall_lt_succ_slot]
      simp only [hdue, true_implies]
    · rw [gate_closeSession, h.distinct.mem_authIps_fwRevoke, h.auth, hrec,
        h.mem_clientIps hc hact, and_assoc, forall_lt_succ_slot]
      refine and_congr_right fun _ => and_congr_right fun _ => ⟨?_, ?_⟩
      · rintro hnot - hmem rfl
        exact hnot ⟨rfl, hmem⟩
      · rintro hne ⟨rfl, hmem⟩
        exact hne hdue hmem rfl
  · next hdue =>
    refine ⟨h.distinct, fun j hj => h.records j (by omega), fun e => ?_, fun ip => ?_⟩
    · rw [h.clients, forall_lt_succ_slot]
      simp only [hdue, Bool.false_eq_true, false_implies, and_true]
    · rw [h.auth, forall_lt_succ_slot]
      simp only [hdue, Bool.false_eq_true, false_implies, and_true]

/-- **The lists after a tick.** -/
theorem swept_sessionTick (env : Env) (hc : c.WellFormed) :
    Swept env c maxSessions (c.sessionTick env) :=
  StepRun.sweep_induction (P := fun k c' => Swept env c k c') (fun _ _ h => h.turn hc)
    (Swept.start hc)

theorem mem_clients_sessionTick (env : Env) (hc : c.WellFormed) (e : FwClient) :
    e ∈ (c.sessionTick env).gate.clients.live ↔
      e ∈ c.gate.clients.live ∧ ¬ c.Due env e.ip := by
  rw [(swept_sessionTick env hc).clients]
  refine and_congr_right fun _ => ⟨?_, ?_⟩
  · rintro h ⟨j, hdue, heq⟩
    exact h j j.isLt hdue heq.symm
  · rintro h j - hdue heq
    exact h ⟨j, hdue, heq.symm⟩

theorem mem_authIps_sessionTick (env : Env) (hc : c.WellFormed) (ip : Ip) :
    ip ∈ (c.sessionTick env).gate.authIps ↔
      ip ∈ c.gate.authIps ∧ ¬ (c.Due env ip ∧ ip ∈ c.gate.clientIps) := by
  rw [(swept_sessionTick env hc).auth]
  refine and_congr_right fun _ => ⟨?_, ?_⟩
  · rintro h ⟨⟨j, hdue, heq⟩, hmem⟩
    exact h j j.isLt hdue hmem heq.symm
  · rintro h j - hdue hmem heq
    exact h ⟨⟨j, hdue, heq.symm⟩, hmem⟩

theorem active_sessionTick_iff (env : Env) (c : Core) (i : Slot) :
    ((c.sessionTick env).sessions i).active = true ↔
      (c.sessions i).active = true ∧ isExpired env (c.sessions i) = false := by
  refine ⟨fun h => ?_, ?_⟩
  · obtain ⟨hrec, hexp⟩ := active_sessionTick h
    exact ⟨hrec ▸ h, hexp⟩
  · rintro ⟨hact, hexp⟩
    rw [sessions_sessionTick, afterExpiry_of_not_expired hexp]
    exact hact

/-- A second sweep at the same reading finds nothing to close. -/
theorem sessionTick_sessionTick (env : Env) (c : Core) :
    (c.sessionTick env).sessionTick env = c.sessionTick env := by
  refine StepRun.sweep_induction (P := fun _ c' => c' = c.sessionTick env) ?_ rfl
  rintro i c' rfl
  refine if_neg fun hdue => ?_
  obtain ⟨hact, hexp⟩ := Bool.and_eq_true_iff.mp hdue
  rw [isExpired_sessionTick env c i hact] at hexp
  exact Bool.false_ne_true hexp

/-- **When the sweep is exact**, from any well-formed tables. -/
theorem WellFormed.sweepExact_iff_inStep (hc : c.WellFormed) (env : Env) :
    c.SweepExact env ↔ c.DueInStep env := by
  refine ⟨?_, ?_⟩
  · intro h ip hdue hauth
    -- an entry that stays behind would contradict the exactness of the DNS list
    by_contra hnot
    have hstays : ip ∈ (c.sessionTick env).gate.authIps :=
      (mem_authIps_sessionTick env hc ip).mpr ⟨hauth, fun hb => hnot hb.2⟩
    have hmem : (⟨ip⟩ : AuthEntry) ∈ (c.sessionTick env).gate.auth.live :=
      Gate.mem_auth_iff.mpr hstays
    exact ((h.auth ⟨ip⟩).mp hmem).2 hdue
  · intro h
    refine ⟨active_sessionTick_iff env c, fun i hi => (active_sessionTick hi).1,
      mem_clients_sessionTick env hc, fun e => ?_, sessionTick_sessionTick env c⟩
    rw [Gate.mem_auth_iff, Gate.mem_auth_iff, mem_authIps_sessionTick env hc]
    refine and_congr_right fun hauth => not_congr ⟨And.left, fun hdue => ⟨hdue, ?_⟩⟩
    exact h e.ip hdue hauth

/-- Session operations alone keep the lists in step, so every sweep is exact. -/
theorem sweepExact_reach (ops : List SessionOp) (env : Env) : (reach ops).SweepExact env := by
  have h := reach_inStep ops
  refine (h.wf.sweepExact_iff_inStep env).mpr fun ip _ hauth => ?_
  exact (h.admits.mem_clients ip).mpr ((h.admits.mem_auth ip).mp hauth)

/-! ### Admission -/

/-- What a call for the client `ip` that took `c` to `c'` leaves of the other
clients, if it closed the session in slot `gone` (or none). -/
structure LeavesOthers (env : Env) (c c' : Core) (ip : Ip) (gone : Option Slot) : Prop where
  /-- The session that was closed was another client's, and expired. -/
  revoked : ∀ j, gone = some j → (c.sessions j).active = true ∧ (c.sessions j).clientIp ≠ ip ∧
    isExpired env (c.sessions j) = true ∧ (c.sessions j).clientIp ∉ c'.activeIps
  sessions : ∀ k, (c.sessions k).active = true → (c.sessions k).clientIp ≠ ip → gone ≠ some k →
    c'.sessions k = c.sessions k
  clients : ∀ e : FwClient, e.ip ≠ ip → (∀ j, gone = some j → e.ip ≠ (c.sessions j).clientIp) →
    (e ∈ c'.gate.clients.live ↔ e ∈ c.gate.clients.live)
  auth : ∀ e : AuthEntry, e.ip ≠ ip → (∀ j, gone = some j → e.ip ≠ (c.sessions j).clientIp) →
    (e ∈ c'.gate.auth.live ↔ e ∈ c.gate.auth.live)

theorem leavesOthers_extend {a : UInt64} (hfind : c.findByIp ip = some i) :
    LeavesOthers env c (c.sessionExtend (some i) a) ip none := by
  obtain ⟨hact, hip⟩ := findByIp_eq_some hfind
  rw [sessionExtend_of_active hact]
  refine ⟨nofun, fun k _ hne _ => ?_, fun _ _ _ => Iff.rfl, fun _ _ _ => Iff.rfl⟩
  -- the record that is rewritten is the client's own
  have hki : k ≠ i := fun heq => hne (heq ▸ hip)
  rw [sessions_setSession, Function.update_of_ne hki]

/-- A session opened in an inactive slot touches nobody else. -/
theorem leavesOthers_openSession {a : UInt64} (hfree : (c.sessions i).active = false) :
    LeavesOthers env c (c.openSession env i ip a) ip none := by
  refine ⟨nofun, fun k hact _ _ => ?_, fun e hne _ => ?_, fun e hne _ => ?_⟩
  · have hki : k ≠ i := fun heq => Bool.false_ne_true (hfree.symm.trans (heq ▸ hact))
    rw [sessions_openSession, Function.update_of_ne hki]
  · rw [gate_openSession]
    exact Gate.mem_clients_fwGrant_of_ne hne
  · rw [Gate.mem_auth_iff, Gate.mem_auth_iff, gate_openSession]
    exact Gate.mem_authIps_fwGrant_of_ne hne

/-- Closing an expired session of somebody else first costs that one session and its
client's entries. -/
theorem WellFormed.leavesOthers_closeSession (hc : c.WellFormed) {j : Slot}
    (hact : (c.sessions j).active = true) (hip : (c.sessions j).clientIp ≠ ip)
    (hexp : isExpired env (c.sessions j) = true)
    (h : LeavesOthers env (c.closeSession j) c' ip none)
    (hactive : c'.activeIps = insert ip (c.closeSession j).activeIps) :
    LeavesOthers env c c' ip (some j) := by
  refine ⟨?_, fun k hk hne hkj => ?_, fun e hne hej => ?_, fun e hne hej => ?_⟩
  · rintro _ ⟨⟩
    refine ⟨hact, hip, hexp, ?_⟩
    rw [hactive, hc.activeIps_closeSession hact, Finset.mem_insert, Finset.mem_erase]
    rintro (heq | ⟨hne, -⟩)
    · exact hip heq
    · exact hne rfl
  · have hrec : (c.closeSession j).sessions k = c.sessions k := by
      have hne : k ≠ j := fun heq => hkj (congrArg some heq.symm)
      rw [sessions_closeSession, Function.update_of_ne hne]
    rw [h.sessions k (hrec ▸ hk) (hrec ▸ hne) nofun, hrec]
  · rw [h.clients e hne nofun, gate_closeSession, hc.distinct.mem_clients_fwRevoke]
    exact and_iff_left (hej j rfl)
  · rw [h.auth e hne nofun, gate_closeSession, Gate.mem_auth_iff, Gate.mem_auth_iff,
      hc.distinct.mem_authIps_fwRevoke]
    exact and_iff_left fun hb => hej j rfl hb.1

/-- **What a successful `session_create` leaves of the others.** -/
theorem WellFormed.leavesOthers_sessionCreate (hc : c.WellFormed) (env : Env) (ip : Ip)
    (a : UInt64) (h : (c.sessionCreate env ip a).2 = some i) :
    ∃ gone, LeavesOthers env c (c.sessionCreate env ip a).1 ip gone := by
  obtain ⟨k, hfind, heq⟩ | ⟨hnone, k, hfree, heq⟩ | ⟨-, -, heq⟩ := sessionCreate_cases env c ip a
  · rw [heq]
    exact ⟨none, leavesOthers_extend hfind⟩
  · rw [heq]
    have hslot := freeSlot_eq_some hfree
    have hopen : LeavesOthers env (c.makeRoom env)
        ((c.makeRoom env).openSession env k ip a) ip none := leavesOthers_openSession hslot
    have hnew : ip ∉ c.activeIps := fun hmem => mem_activeIps_iff_findByIp.mp hmem hnone
    obtain hroom | ⟨j, hev, hact, hroom⟩ := makeRoom_cases env c
    · rw [hroom] at hopen ⊢
      exact ⟨none, hopen⟩
    · -- the evicted session is another client's, as this one has none
      have hip : (c.sessions j).clientIp ≠ ip := fun hip =>
        hnew (mem_activeIps.mpr ⟨j, hact, hip⟩)
      rw [hroom] at hopen hslot ⊢
      exact ⟨some j, hc.leavesOthers_closeSession hact hip (evictee_eq_some hev).2 hopen
        (activeIps_openSession hslot)⟩
  · rw [heq] at h
    exact absurd h nofun

end Core

namespace Firmware

/-- **The expiry sweep, exactly.** In every state the firmware reaches and at every
clock reading and metric: a tick closes exactly the expired sessions and keeps the
records of the others, takes exactly the clients of the closed ones out of both lists
and changes nothing when repeated, if and only if no client of an expired session is
in the DNS list without being in the firewall list. -/
theorem sweepExact_iff (evs : List Event) (env : Env) :
    (reach evs).core.SweepExact env ↔ (reach evs).core.DueInStep env :=
  (reach_wellFormed evs).sweepExact_iff_inStep env

/-- `10.0.0.2` is let in by hand, the uplink comes up (the firewall list is zeroed,
the DNS list is not), ten others are let in by hand, then it buys a minute that a
full firewall list does not see. -/
def strandedBuyer : List Event :=
  [.apStart, .grantAccess (fun _ => none) 0x0200000a, .startServices] ++
    (List.range 10).map (fun n => .grantAccess (fun _ => none) (UInt32.ofNat (n + 100))) ++
    [.session minutePurchase.op]

/-- The minute is over: the sweep closes the session and leaves its client in the DNS
list. -/
theorem sweep_leaves_dns_entry :
    ¬ ∀ (evs : List Event) (env : Env), (reach evs).core.SweepExact env := by
  intro h
  have hauth := (h strandedBuyer (envAt 60000 "milliseconds")).auth ⟨minutePurchase.ip⟩
  have hdue : (reach strandedBuyer).core.Due (envAt 60000 "milliseconds") minutePurchase.ip :=
    ⟨0, by decide, by decide⟩
  have hstays : (⟨minutePurchase.ip⟩ : AuthEntry) ∈
      ((reach strandedBuyer).core.sessionTick (envAt 60000 "milliseconds")).gate.auth.live := by
    decide +kernel
  exact (hauth.mp hstays).2 hdue

/-- **Admission.** In every state the firmware reaches, for every clock reading,
metric and client: `tollgate_core_session_create` returns no session exactly when the
client has none and ten sessions run unexpired; when it returns one, at most one
other session was closed, it was expired, and all other sessions keep their records
and all other clients their entries. -/
theorem session_admission (evs : List Event) (env : Env) (ip : Ip) (a : UInt64) :
    (((reach evs).core.sessionCreate env ip a).2 = none ↔
      ip ∉ (reach evs).core.activeIps ∧ NoSlot env (reach evs).core) ∧
    ∀ i, ((reach evs).core.sessionCreate env ip a).2 = some i →
      ∃ gone, Core.LeavesOthers env (reach evs).core
        ((reach evs).core.sessionCreate env ip a).1 ip gone := by
  have hc := reach_wellFormed evs
  refine ⟨?_, fun i hi => hc.leavesOthers_sessionCreate env ip a hi⟩
  obtain ⟨k, hfind, heq⟩ | ⟨hnone, k, hfree, heq⟩ | ⟨hnone, hfree, heq⟩ :=
    Core.sessionCreate_cases env (reach evs).core ip a
  · rw [heq]
    refine iff_of_false nofun fun h => h.1 ?_
    exact Core.mem_activeIps_iff_findByIp.mpr (hfind ▸ nofun)
  · rw [heq]
    refine iff_of_false nofun fun h => ?_
    rw [(freeSlot_makeRoom_eq_none_iff hc).mpr h.2] at hfree
    exact absurd hfree nofun
  · rw [heq]
    refine iff_of_true rfl ⟨fun hmem => Core.mem_activeIps_iff_findByIp.mp hmem hnone, ?_⟩
    exact (freeSlot_makeRoom_eq_none_iff hc).mp hfree

end Firmware

end TollGate
