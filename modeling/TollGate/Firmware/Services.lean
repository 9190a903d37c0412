import TollGate.Core.Client
import TollGate.Mining.Credit

/-!
# The firmware around the tables

`tollgate_main.c` and `captive_portal.c` write the tables from outside the
session operations: the Wi-Fi and IP events start and stop the services, and two
pages of the captive portal reach the firewall directly. `Firmware.step` is the
machine of all of them, one event at a time:

* `start_ap_services`, `start_services` and `stop_services` with the flags that
  guard them. Starting calls `tollgate_core_init`, which zeroes the session table
  and the firewall list but not the DNS list; stopping calls
  `tollgate_core_fw_revoke_all` and leaves the sessions alone;
* `GET /grant_access` (a bare `fwGrant`) and `GET /reset_authentication`, served
  while the portal is up;
* the mining shares of the clients, by the stratum proxy and by `POST /mining/share`, which create
  and extend sessions and write their tag;
* every session operation of `Core.SessionOp`, ticks included.

Two results describe who has access along every run of that machine.

**A buyer is let in exactly when the grant reaches both lists**
(`Firmware.purchases_admitted`). The grant is issued for new sessions only and is
dropped silently by a full list, so a purchase opens the gate if and only if the
client is already listed, or is new and both lists have room for it
(`GrantReaches`). A client whose session outlived `stop_services` pays without
being let in (`Firmware.purchase_after_stop_not_admitted`).

**Access without a session is manual** (`Firmware.access_after_tick`). After a
tick every listed client has an active, unexpired session, or was let in by
`GET /grant_access` and has been listed ever since. The second case is real
(`Firmware.manual_grant_outlives_tick`): the page grants without a session, and
no tick sweeps what has none.
-/

namespace TollGate

/-- The tables and the service flags of `tollgate_main.c`. -/
structure Firmware where
  core : Core
  /-- `s_services_running`. -/
  servicesRunning : Bool
  /-- `s_ap_services_running`. -/
  apServicesRunning : Bool
  /-- The captive portal's HTTP server is up. -/
  portalUp : Bool

namespace Firmware

/-- What the firmware reacts to. -/
inductive Event where
  /-- `WIFI_EVENT_AP_START`. -/
  | apStart
  /-- The body of `services_start_task`. -/
  | startServices
  /-- The station lost its connection or its address. -/
  | stopServices
  /-- `GET /grant_access` from a client. -/
  | grantAccess (macForIp : Ip → Option CStr) (ip : Ip)
  /-- `GET /reset_authentication`. -/
  | resetAuthentication
  /-- A share of a client was accepted: by the stratum proxy, or the client posted it itself. -/
  | share (posted : Bool) (env : Env) (ip : Ip) (sh : Mining.Share)
  | session (op : Core.SessionOp)

/-- Power-on. -/
def boot : Firmware := ⟨.boot, false, false, false⟩

/-- `start_ap_services`. -/
def startApServices (f : Firmware) : Firmware :=
  if f.apServicesRunning then f
  else { f with portalUp := true, apServicesRunning := true }

/-- The tables after `tollgate_core_init`. -/
def coreInit (c : Core) : Core :=
  let c' := c.sessionInit
  { c' with gate := c'.gate.fwInit }

/-- `start_services`. -/
def startServices (f : Firmware) : Firmware :=
  if f.servicesRunning then f
  else { f with core := coreInit f.core, portalUp := true, servicesRunning := true }

/-- `stop_services`. -/
def stopServices (f : Firmware) : Firmware :=
  if !f.servicesRunning then f
  else { f with
    -- the sessions stay as they are
    core := { f.core with gate := f.core.gate.fwRevokeAll }
    portalUp := false
    servicesRunning := false }

/-- `grant_access_handler`. -/
def grantAccessHandler (f : Firmware) (macForIp : Ip → Option CStr) (ip : Ip) : Firmware :=
  { f with core := { f.core with gate := f.core.gate.fwGrant macForIp ip } }

/-- `reset_auth_handler`. -/
def resetAuthHandler (f : Firmware) : Firmware :=
  let c := f.core.sessionRevokeAll
  { f with core := { c with gate := c.gate.fwRevokeAll } }

/-- The two places that credit a share. -/
def creditShare (f : Firmware) (posted : Bool) (env : Env) (ip : Ip) (sh : Mining.Share) :
    Firmware :=
  { f with
    core := if posted then Mining.apiPostMiningShare env f.core ip sh
      else Mining.onShareAccepted env f.core ip sh }

/-- One event. -/
def step (f : Firmware) : Event → Firmware
  | .apStart => f.startApServices
  | .startServices => f.startServices
  | .stopServices => f.stopServices
  | .grantAccess m ip => if f.portalUp then f.grantAccessHandler m ip else f
  | .resetAuthentication => if f.portalUp then f.resetAuthHandler else f
  | .share posted env ip sh => f.creditShare posted env ip sh
  | .session op => { f with core := f.core.step op }

/-- The state after a run of events from power-on. -/
def reach (evs : List Event) : Firmware := StepRun.run step boot evs

/-! ### The tables stay well formed -/

variable {f : Firmware}

theorem wellFormed_gate {c : Core} (h : c.WellFormed) {g : Gate} (hg : g.Distinct) :
    ({ c with gate := g } : Core).WellFormed :=
  ⟨h.active_inj, h.count_eq, hg⟩

theorem wellFormed_coreInit {c : Core} (h : c.WellFormed) : (coreInit c).WellFormed where
  active_inj i hi := by
    rw [Finset.mem_coe, Core.mem_activeSlots] at hi
    exact absurd hi Bool.false_ne_true
  count_eq := Core.WellFormed.boot.count_eq
  distinct := h.distinct.fwInit

/-- A share changes the tables as session operations do, whoever reports it. -/
theorem creditShare_changes (f : Firmware) (posted : Bool) (env : Env) (ip : Ip)
    (sh : Mining.Share) : Core.Changes f.core (f.creditShare posted env ip sh).core := by
  cases posted with
  | true => exact Mining.apiPostMiningShare_changes env f.core ip sh
  | false => exact Mining.onShareAccepted_changes env f.core ip sh

theorem step_wellFormed (f : Firmware) (ev : Event) (h : f.core.WellFormed) :
    (f.step ev).core.WellFormed := by
  cases ev with
  | apStart =>
    change f.startApServices.core.WellFormed
    unfold startApServices
    split <;> exact h
  | startServices =>
    change f.startServices.core.WellFormed
    unfold startServices
    split
    · exact h
    · exact wellFormed_coreInit h
  | stopServices =>
    change f.stopServices.core.WellFormed
    unfold stopServices
    split
    · exact h
    · exact wellFormed_gate h h.distinct.fwRevokeAll
  | grantAccess m ip =>
    simp only [step]
    split
    · exact wellFormed_gate h (h.distinct.fwGrant m ip)
    · exact h
  | resetAuthentication =>
    simp only [step]
    split
    · -- the sessions are revoked one by one, then whatever the lists still hold
      have h' : f.core.sessionRevokeAll.WellFormed := h.changes (Core.step_changes _ .revokeAll)
      exact wellFormed_gate h' h'.distinct.fwRevokeAll
    · exact h
  | share posted env ip sh => exact h.changes (f.creditShare_changes posted env ip sh)
  | session op => exact h.changes (Core.step_changes f.core op)

theorem reach_wellFormed (evs : List Event) : (reach evs).core.WellFormed :=
  StepRun.run_induction (P := fun f : Firmware => f.core.WellFormed) step_wellFormed
    Core.WellFormed.boot evs

/-! ### Purchases -/

/-- A purchase: `session_create_bytes` or `session_create`, as the configured
metric selects. -/
structure Purchase where
  bytes : Bool
  env : Env
  ip : Ip
  allotment : UInt64

/-- The purchase as a session operation. -/
def Purchase.op (p : Purchase) : Core.SessionOp :=
  if p.bytes then .createBytes p.env p.ip p.allotment else .create p.env p.ip p.allotment

/-- The table and the session pointer the purchase returns. -/
def Purchase.exec (p : Purchase) (c : Core) : Core × Option Slot :=
  if p.bytes then c.sessionCreateBytes p.env p.ip p.allotment
  else c.sessionCreate p.env p.ip p.allotment

theorem Purchase.step_op (p : Purchase) (c : Core) : c.step p.op = (p.exec c).1 := by
  unfold Purchase.op Purchase.exec
  split <;> rfl

/-- The purchase, if it returns a session, leaves its client in both lists. -/
def AdmitsBuyer (c : Core) (p : Purchase) : Prop :=
  (p.exec c).2 ≠ none →
    p.ip ∈ (p.exec c).1.gate.clientIps ∧ p.ip ∈ (p.exec c).1.gate.authIps

/-- The firewall list has a free entry, or holds the entry of the expired session
that a new session evicts. -/
def ClientRoom (env : Env) (c : Core) : Prop :=
  c.gate.clients.count < maxClients ∨
    ∃ j, c.evictee env = some j ∧ (c.sessions j).clientIp ∈ c.gate.clientIps

/-- The same for the DNS list, whose entry is dropped only together with the
firewall's. -/
def AuthRoom (env : Env) (c : Core) : Prop :=
  c.gate.auth.count < maxAuthIps ∨
    ∃ j, c.evictee env = some j ∧ (c.sessions j).clientIp ∈ c.gate.clientIps ∧
      (c.sessions j).clientIp ∈ c.gate.authIps

/-- Ten sessions are running: a new client is refused. -/
def NoSlot (env : Env) (c : Core) : Prop :=
  ∀ i, (c.sessions i).active = true ∧ Core.isExpired env (c.sessions i) = false

/-- What a purchase needs of the tables before it. The client is in both lists
already; or it has no session and no firewall entry, and both lists have room; or
it will be refused. -/
def GrantReaches (c : Core) (p : Purchase) : Prop :=
  (p.ip ∈ c.gate.clientIps ∧ p.ip ∈ c.gate.authIps) ∨
  (p.ip ∉ c.activeIps ∧ p.ip ∉ c.gate.clientIps ∧ ClientRoom p.env c ∧
    (p.ip ∈ c.gate.authIps ∨ AuthRoom p.env c)) ∨
  (p.ip ∉ c.activeIps ∧ NoSlot p.env c)

section Grant

variable {c : Core} {env : Env} {ip : Ip}

/-- The eviction inside a purchase by a new client: what is left of the gate. -/
theorem gate_makeRoom (env : Env) (h : c.WellFormed) :
    (c.evictee env = none ∧ (c.makeRoom env).gate = c.gate) ∨
      ∃ j, c.evictee env = some j ∧ (c.sessions j).active = true ∧
        (c.makeRoom env).gate = c.gate.fwRevoke (c.sessions j).clientIp := by
  unfold Core.makeRoom
  cases hev : c.evictee env with
  | none => exact Or.inl ⟨rfl, rfl⟩
  | some j =>
    -- the eviction loop runs with a full counter, so the slot it stops at is active
    have hact := h.active_of_full (Core.evictee_eq_some hev).1 j
    refine Or.inr ⟨j, rfl, hact, ?_⟩
    rw [Core.sessionRevoke_of_active hact, Core.gate_closeSession]

theorem clientRoom_iff (h : c.WellFormed) :
    ClientRoom env c ↔ (c.makeRoom env).gate.clients.count < maxClients := by
  unfold ClientRoom
  obtain ⟨hev, hg⟩ | ⟨j, hev, -, hg⟩ := gate_makeRoom env h
  · rw [hg, hev]
    simp
  · have hcount : (c.gate.fwRevoke (c.sessions j).clientIp).clients.count
        = (c.gate.clients.removeKey FwClient.ip (c.sessions j).clientIp).count := by
      rw [← Gate.length_clientIps, Gate.clientIps_fwRevoke, BoundedTable.length_keys]
    have hle : c.gate.clients.count ≤ maxClients := c.gate.clients.count_le
    rw [hg, hev, hcount]
    -- the eviction frees an entry when the evicted client has one
    by_cases hmem : (c.sessions j).clientIp ∈ c.gate.clientIps
    · have hrem := BoundedTable.count_removeKey hmem
      simp only [Option.some.injEq, exists_eq_left', hmem, or_true, true_iff]
      omega
    · rw [BoundedTable.removeKey_of_notMem hmem]
      simp [hmem]

theorem authRoom_iff (h : c.WellFormed) :
    AuthRoom env c ↔ (c.makeRoom env).gate.auth.count < maxAuthIps := by
  unfold AuthRoom
  obtain ⟨hev, hg⟩ | ⟨j, hev, -, hg⟩ := gate_makeRoom env h
  · rw [hg, hev]
    simp
  · have hle : c.gate.auth.count ≤ maxAuthIps := c.gate.auth.count_le
    rw [hg, hev, ← Gate.length_authIps, ← Gate.length_authIps, Gate.authIps_fwRevoke]
    simp only [Option.some.injEq, exists_eq_left']
    -- a client that is not in the firewall list keeps its DNS entry
    by_cases hmem : (c.sessions j).clientIp ∈ c.gate.clientIps
    · rw [if_pos hmem, BoundedTable.length_keys, Gate.length_authIps]
      by_cases hauth : (c.sessions j).clientIp ∈ c.gate.authIps
      · have hrem := BoundedTable.count_removeKey hauth
        simp only [hmem, hauth, and_self, or_true, true_iff]
        omega
      · rw [BoundedTable.removeKey_of_notMem hauth]
        simp [hauth]
    · rw [if_neg hmem]
      simp [hmem]

/-- The eviction takes no entry of a client that has no session. -/
theorem mem_lists_makeRoom (env : Env) (h : c.WellFormed) (hnew : ip ∉ c.activeIps) :
    (ip ∈ (c.makeRoom env).gate.clientIps ↔ ip ∈ c.gate.clientIps) ∧
      (ip ∈ (c.makeRoom env).gate.authIps ↔ ip ∈ c.gate.authIps) := by
  obtain ⟨-, hg⟩ | ⟨j, -, hact, hg⟩ := gate_makeRoom env h
  · rw [hg]
    exact ⟨Iff.rfl, Iff.rfl⟩
  · -- the evicted session is somebody else's
    have hne : ip ≠ (c.sessions j).clientIp :=
      fun heq => hnew (Core.mem_activeIps.mpr ⟨j, hact, heq.symm⟩)
    rw [hg, h.distinct.mem_clientIps_fwRevoke, h.distinct.mem_authIps_fwRevoke]
    exact ⟨⟨And.left, fun hm => ⟨hm, hne⟩⟩, ⟨And.left, fun hm => ⟨hm, fun hc => hne hc.1⟩⟩⟩

theorem freeSlot_makeRoom_eq_none_iff (h : c.WellFormed) :
    (c.makeRoom env).freeSlot = none ↔ NoSlot env c := by
  change c.slotForNew env = none ↔ NoSlot env c
  rw [Core.slotForNew_eq_none_iff]
  refine ⟨?_, ?_⟩
  · intro hno i
    exact ⟨(hno i).1, (hno i).2 (h.full_of_active fun j => (hno j).1)⟩
  · exact fun hno i => ⟨(hno i).1, fun _ => (hno i).2⟩

/-- The gate and the pointer after a purchase, by the three outcomes of
`sessionCreate`. A byte purchase differs from a time purchase in the record only. -/
theorem Purchase.exec_cases (p : Purchase) (c : Core) :
    (p.ip ∈ c.activeIps ∧ (p.exec c).2 ≠ none ∧ (p.exec c).1.gate = c.gate) ∨
    (p.ip ∉ c.activeIps ∧ (c.makeRoom p.env).freeSlot ≠ none ∧ (p.exec c).2 ≠ none ∧
      (p.exec c).1.gate = (c.makeRoom p.env).gate.fwGrant p.env.macForIp p.ip) ∨
    (p.ip ∉ c.activeIps ∧ (c.makeRoom p.env).freeSlot = none ∧ p.exec c = (c, none)) := by
  have hcreate : ∀ a, ∃ c' r, c.sessionCreate p.env p.ip a = (c', r) := fun a => ⟨_, _, rfl⟩
  obtain ⟨c', r, hr⟩ := hcreate (if p.bytes then 0 else p.allotment)
  -- both kinds of purchase return the gate and the pointer of `sessionCreate`
  have hexec : (p.exec c).2 = r ∧ (p.exec c).1.gate = c'.gate ∧
      (r = none → (p.exec c).1 = c') := by
    unfold Purchase.exec
    cases hb : p.bytes with
    | false =>
      rw [hb, if_neg Bool.false_ne_true] at hr
      rw [if_neg Bool.false_ne_true, hr]
      exact ⟨rfl, rfl, fun _ => rfl⟩
    | true =>
      rw [hb, if_pos rfl] at hr
      rw [if_pos rfl]
      cases r with
      | none => rw [Core.sessionCreateBytes_of_none hr]; exact ⟨rfl, rfl, fun _ => rfl⟩
      | some i => rw [Core.sessionCreateBytes_of_some hr]; exact ⟨rfl, rfl, nofun⟩
  -- the three outcomes of `sessionCreate`, read off the gate and the pointer
  obtain ⟨i, hfind, heq⟩ | ⟨hnone, i, hfree, heq⟩ | ⟨hnone, hfree, heq⟩ :=
    Core.sessionCreate_cases p.env c p.ip (if p.bytes then 0 else p.allotment)
  · obtain ⟨rfl, rfl⟩ := Prod.mk.inj (hr.symm.trans heq)
    refine Or.inl ⟨?_, ?_, ?_⟩
    · rw [Core.mem_activeIps_iff_findByIp, hfind]; simp
    · rw [hexec.1]; simp
    · rw [hexec.2.1, Core.sessionExtend_of_active (Core.findByIp_eq_some hfind).1,
        Core.gate_setSession]
  · obtain ⟨rfl, rfl⟩ := Prod.mk.inj (hr.symm.trans heq)
    refine Or.inr (Or.inl ⟨?_, ?_, ?_, hexec.2.1⟩)
    · rw [Core.mem_activeIps_iff_findByIp, hnone]; simp
    · rw [hfree]; simp
    · rw [hexec.1]; simp
  · obtain ⟨rfl, rfl⟩ := Prod.mk.inj (hr.symm.trans heq)
    refine Or.inr (Or.inr ⟨?_, hfree, Prod.ext (hexec.2.2 rfl) hexec.1⟩)
    rw [Core.mem_activeIps_iff_findByIp, hnone]; simp

/-- **When a purchase opens the gate**, from any well-formed tables. -/
theorem admitsBuyer_iff (h : c.WellFormed) (p : Purchase) :
    AdmitsBuyer c p ↔ GrantReaches c p := by
  unfold AdmitsBuyer GrantReaches
  obtain ⟨hact, hsome, hg⟩ | ⟨hnew, hfree, hsome, hg⟩ | ⟨hnew, hfree, heq⟩ := p.exec_cases c
  · -- a running session is extended, and the gate is not touched
    rw [hg]
    simp [hact, hsome]
  · have hslot : ¬ NoSlot p.env c := fun hno =>
      hfree ((freeSlot_makeRoom_eq_none_iff h).mpr hno)
    -- a new session: the eviction first, then the grant
    obtain ⟨hc, ha⟩ := mem_lists_makeRoom p.env h hnew
    rw [hg, Gate.mem_clientIps_fwGrant, Gate.mem_authIps_fwGrant, hc, ha, clientRoom_iff h,
      authRoom_iff h]
    simp only [hsome, ne_eq, not_false_eq_true, true_implies, true_and, hnew, hslot, and_false,
      or_false]
    tauto
  · rw [heq]
    simp [hnew, (freeSlot_makeRoom_eq_none_iff h).mp hfree]

end Grant

/-- **Buyers are let in exactly when their grant reaches both lists.** Along every
run of the firmware: every purchase that returns a session leaves its client in
the firewall list and in the DNS list if and only if every purchase is made from
tables that `GrantReaches` allows. -/
theorem purchases_admitted (evs : List Event) :
    (∀ (pre post : List Event) (p : Purchase), evs = pre ++ Event.session p.op :: post →
      AdmitsBuyer (reach pre).core p) ↔
    (∀ (pre post : List Event) (p : Purchase), evs = pre ++ Event.session p.op :: post →
      GrantReaches (reach pre).core p) := by
  refine ⟨?_, ?_⟩
  · intro h pre post p heq
    exact (admitsBuyer_iff (reach_wellFormed pre) p).mp (h pre post p heq)
  · intro h pre post p heq
    exact (admitsBuyer_iff (reach_wellFormed pre) p).mpr (h pre post p heq)

/-- A purchase of one minute by `10.0.0.2`, with the clock at zero. -/
def minutePurchase : Purchase :=
  ⟨false, ⟨0, some (cstr "milliseconds"), fun _ => none⟩, 0x0200000a, 60000⟩

/-- The client buys, the uplink drops (the firewall list is emptied, its session
stays), and the client buys again. The second purchase only extends the session:
it is accepted and lets nobody in. -/
theorem purchase_after_stop_not_admitted :
    ¬ ∀ (evs pre post : List Event) (p : Purchase),
      evs = pre ++ Event.session p.op :: post → AdmitsBuyer (reach pre).core p := by
  intro h
  have h' := h _ [.apStart, .startServices, .session minutePurchase.op, .stopServices] []
    minutePurchase rfl
  revert h'
  unfold AdmitsBuyer
  decide

/-! ### Access without a session -/

/-- `ip` was let in by `GET /grant_access` at a moment when it had no access, and
has been in the firewall list after every event since. -/
def ManualSince (evs : List Event) (ip : Ip) : Prop :=
  ∃ (pre post : List Event) (m : Ip → Option CStr), evs = pre ++ Event.grantAccess m ip :: post ∧
    ip ∉ (reach pre).core.gate.clientIps ∧
    ∀ q, q <+: post → ip ∈ (reach (pre ++ Event.grantAccess m ip :: q)).core.gate.clientIps

theorem ManualSince.snoc {evs : List Event} {ev : Event} {ip : Ip} (h : ManualSince evs ip)
    (hin : ip ∈ (reach (evs ++ [ev])).core.gate.clientIps) : ManualSince (evs ++ [ev]) ip := by
  obtain ⟨pre, post, m, rfl, hout, hsince⟩ := h
  refine ⟨pre, post ++ [ev], m, by simp, hout, fun q hq => ?_⟩
  -- the new event adds one moment at which `ip` must be listed
  rcases List.prefix_concat_iff.mp hq with rfl | hq
  · simpa using hin
  · exact hsince q hq

/-- Every listed client has an active session or is in `M`. -/
def Covered (M : Ip → Prop) (c : Core) : Prop :=
  ∀ ip, ip ∈ c.gate.clientIps → ip ∈ c.activeIps ∨ M ip

theorem Covered.change {M : Ip → Prop} {c c' : Core} (h : Covered M c) (hwf : c.WellFormed)
    (hch : Core.Change c c') : Covered M c' := by
  intro ip hip
  cases hch with
  | touch i s hs hact =>
    rw [Core.activeIps_touch hs hact]
    exact h ip hip
  | close i hact =>
    -- the client of the closed session leaves the list with it
    rw [Core.gate_closeSession, hwf.distinct.mem_clientIps_fwRevoke] at hip
    rw [hwf.activeIps_closeSession hact, Finset.mem_erase]
    exact (h ip hip.1).imp_left fun hmem => ⟨hip.2, hmem⟩
  | «open» env i ip' a hfree hnew =>
    rw [Core.gate_openSession, Gate.mem_clientIps_fwGrant] at hip
    rw [Core.activeIps_openSession hfree, Finset.mem_insert]
    -- the granted client is the one with the new session
    rcases hip with hip | ⟨rfl, -⟩
    · exact (h ip hip).imp_left Or.inr
    · exact Or.inl (Or.inl rfl)

theorem Covered.changes {M : Ip → Prop} {c c' : Core} (h : Covered M c) (hwf : c.WellFormed)
    (hch : Core.Changes c c') : Covered M c' := by
  have hboth := Core.Changes.induction (P := fun c => c.WellFormed ∧ Covered M c)
    (fun _ _ hch h => ⟨h.1.change hch, h.2.change h.1 hch⟩) hch ⟨hwf, h⟩
  exact hboth.2

theorem Covered.of_empty {M : Ip → Prop} {c : Core} (h : c.gate.clientIps = []) :
    Covered M c := by
  intro ip hip
  rw [h] at hip
  exact absurd hip List.not_mem_nil

/-- Only the grant page lists a client that has no session. -/
theorem step_covered {M : Ip → Prop} (f : Firmware) (ev : Event) (hwf : f.core.WellFormed)
    (h : Covered M f.core) :
    Covered (fun ip => M ip ∨ ∃ m, ev = .grantAccess m ip ∧ ip ∉ f.core.gate.clientIps)
      (f.step ev).core := by
  -- what the event leaves in the list was covered before
  have hweak : Covered
      (fun ip => M ip ∨ ∃ m, ev = .grantAccess m ip ∧ ip ∉ f.core.gate.clientIps) f.core :=
    fun ip hip => (h ip hip).imp_right Or.inl
  cases ev with
  | apStart =>
    change Covered _ f.startApServices.core
    unfold startApServices
    split <;> exact hweak
  | startServices =>
    change Covered _ f.startServices.core
    unfold startServices
    split
    · exact hweak
    · exact Covered.of_empty rfl
  | stopServices =>
    change Covered _ f.stopServices.core
    unfold stopServices
    split
    · exact hweak
    · exact Covered.of_empty rfl
  | grantAccess m ip =>
    simp only [step]
    split
    · intro ip' hip'
      -- the page lists whoever asks, session or not
      rcases Gate.mem_clientIps_fwGrant.mp hip' with hmem | ⟨rfl, -⟩
      · exact hweak ip' hmem
      · by_cases hold : ip' ∈ f.core.gate.clientIps
        · exact hweak ip' hold
        · exact Or.inr (Or.inr ⟨m, rfl, hold⟩)
    · exact hweak
  | resetAuthentication =>
    simp only [step]
    split
    · exact Covered.of_empty rfl
    · exact hweak
  | share posted env ip sh => exact hweak.changes hwf (f.creditShare_changes posted env ip sh)
  | session op => exact hweak.changes hwf (Core.step_changes f.core op)

theorem reach_snoc (evs : List Event) (ev : Event) :
    reach (evs ++ [ev]) = (reach evs).step ev :=
  StepRun.run_concat step boot evs ev

/-- **Whoever is listed without a session was listed by hand**, and stayed listed. -/
theorem reach_covered (evs : List Event) : Covered (ManualSince evs) (reach evs).core := by
  refine StepRun.run_history
    (P := fun evs f => Covered (ManualSince evs) (Firmware.core f)) (Covered.of_empty rfl) ?_ evs
  intro evs ev ih ip hip
  have hin : ip ∈ (reach (evs ++ [ev])).core.gate.clientIps := by rw [reach_snoc]; exact hip
  rcases step_covered _ ev (reach_wellFormed evs) ih ip hip with hact | hman | ⟨m, rfl, hold⟩
  · exact Or.inl hact
  · exact Or.inr (hman.snoc hin)
  · -- this event is the one that let `ip` in
    refine Or.inr ⟨evs, [], m, rfl, hold, fun q hq => ?_⟩
    obtain rfl := List.prefix_nil.mp hq
    exact hin

/-- The tables after a run that ends in a session tick. -/
def afterTick (evs : List Event) (env : Env) : Core :=
  (reach (evs ++ [Event.session (.tick env)])).core

/-- `ip` has an active session that is not expired at the reading of `env`. -/
def HasPaidSession (env : Env) (c : Core) (ip : Ip) : Prop :=
  ∃ i, (c.sessions i).active = true ∧ (c.sessions i).clientIp = ip ∧
    Core.isExpired env (c.sessions i) = false

/-- **Access after a tick.** After any run of the firmware that ends in a session
tick, every client in the firewall list has an active session that is not expired
at the tick's clock reading, or was let in by `GET /grant_access` and has not left
the list since. -/
theorem access_after_tick (evs : List Event) (env : Env) (ip : Ip)
    (hip : ip ∈ (afterTick evs env).gate.clientIps) :
    HasPaidSession env (afterTick evs env) ip ∨
      ManualSince (evs ++ [Event.session (.tick env)]) ip := by
  refine (reach_covered _ ip hip).imp_left fun hact => ?_
  -- the sessions that are active after a tick are unexpired at its reading
  obtain ⟨i, hi, hi'⟩ := Core.mem_activeIps.mp hact
  refine ⟨i, hi, hi', ?_⟩
  unfold afterTick
  rw [reach_snoc] at hi ⊢
  exact Core.isExpired_sessionTick env _ i hi

/-- A client that bought a minute, at the tick right after. -/
theorem access_after_tick_buyer :
    minutePurchase.ip ∈
      (afterTick [.session minutePurchase.op] minutePurchase.env).gate.clientIps ∧
    (HasPaidSession minutePurchase.env
        (afterTick [.session minutePurchase.op] minutePurchase.env) minutePurchase.ip ∨
      ManualSince ([.session minutePurchase.op] ++ [Event.session (.tick minutePurchase.env)])
        minutePurchase.ip) := by
  have hin : minutePurchase.ip ∈
      (afterTick [.session minutePurchase.op] minutePurchase.env).gate.clientIps := by
    decide
  exact ⟨hin, access_after_tick _ _ _ hin⟩

/-- `10.0.0.2` asks for `/grant_access` and never buys: it is still let through
after a tick, without a session. -/
theorem manual_grant_outlives_tick :
    ¬ ∀ (evs : List Event) (env : Env) (ip : Ip), ip ∈ (afterTick evs env).gate.clientIps →
      HasPaidSession env (afterTick evs env) ip := by
  intro h
  have h' := h [.apStart, .startServices, .grantAccess (fun _ => none) 0x0200000a]
    minutePurchase.env 0x0200000a (by decide)
  revert h'
  unfold HasPaidSession
  decide

end Firmware

end TollGate
