import TollGate.Lib.ByteOrder
import TollGate.Lib.CText
import TollGate.Lib.Run
import TollGate.Core.Session

/-!
# The owner

`tollgate_core.c` calls the first station that connects the owner, and looks for another
one among the sessions when the owner's MAC disconnects. `OwnerRun` is this record over
the session operations, together with the stations that have left and not come back.

Two things go wrong in the search. A session holds its MAC as text, `client_disconnected`
compares it with the six bytes of the event, so no session is passed over for being that
of the station that leaves. And only the address of the successor is written to the
record, not its MAC, so its own disconnect is not recognised. `follows_iff` gives the
condition under which ownership leaves with the station all the same, over every run;
`owner_stays` are the two shortest runs that violate it.
-/

namespace TollGate

open CStr StepRun

/-- The six bytes of a MAC. -/
abbrev Mac := Vector UInt8 6

/-- What `"%02x:%02x:%02x:%02x:%02x:%02x"` makes of it. -/
def Mac.text (mac : Mac) : CStr :=
  List.intercalate [58] (mac.toList.map fun b => hexPadded 2 b.toNat)

/-- `s_owner_ip`, `s_owner_mac` and `s_owner_connected`. -/
structure Owner where
  ip : Ip
  mac : Mac
  connected : Bool

/-- The owner record with the tables it is reassigned from. -/
structure OwnedCore where
  core : Core
  owner : Owner

namespace OwnedCore

/-- After `tollgate_core_init`. -/
def init : OwnedCore := ⟨.boot, ⟨0, .replicate 6 0, false⟩⟩

/-- `tollgate_core_is_owner`. -/
def isOwner (t : OwnedCore) (clientIp : Ip) : Bool :=
  t.owner.connected && t.owner.ip == clientIp

/-- `tollgate_core_client_connected`. -/
def clientConnected (t : OwnedCore) (mac : Mac) (clientIp : Ip) : OwnedCore :=
  if t.owner.connected then t else { t with owner := ⟨clientIp, mac, true⟩ }

/-- The session is one that ownership may go to when the station with this MAC leaves: its
text, as far as `memcmp` sees it, is compared with the bytes. -/
def mayInherit (mac : Mac) (session : TgSession) : Bool :=
  session.active && session.mac ≠ [] &&
    (session.mac ++ List.replicate 6 0).take 6 ≠ mac.toList

/-- `tollgate_core_client_disconnected`. -/
def clientDisconnected (t : OwnedCore) (mac : Mac) : OwnedCore :=
  if !t.owner.connected then t
  else if t.owner.mac = mac then
    let owner : Owner := { t.owner with mac := .replicate 6 0, connected := false }
    if 0 < t.core.gate.clients.count then
      match Fin.find? fun i => mayInherit mac (t.core.sessions i) with
      | some i => { t with owner := { owner with
          ip := (t.core.sessions i).clientIp, connected := true } }
      | none => { t with owner }
    else { t with owner }
  else t

/-- The first session that may inherit is in slot `i`. -/
def FirstHeir (t : OwnedCore) (mac : Mac) (i : Slot) : Prop :=
  mayInherit mac (t.core.sessions i) = true ∧
    ∀ j < i, mayInherit mac (t.core.sessions j) = false

theorem isOwner_iff {t : OwnedCore} {ip : Ip} :
    t.isOwner ip = true ↔ t.owner.connected = true ∧ t.owner.ip = ip := by
  rw [isOwner, Bool.and_eq_true, beq_iff_eq]

/-- A disconnect while there is an owner: it is not the owner's by its MAC, or nobody inherits,
or the first session that may. -/
theorem clientDisconnected_cases {t : OwnedCore} (hconn : t.owner.connected = true) (mac : Mac) :
    (t.owner.mac ≠ mac ∧ t.clientDisconnected mac = t) ∨
      (t.owner.mac = mac ∧ (t.clientDisconnected mac).owner.connected = false ∧
        (0 < t.core.gate.clients.count → ∀ i, ¬ t.FirstHeir mac i)) ∨
      (t.owner.mac = mac ∧ 0 < t.core.gate.clients.count ∧ ∃ i, t.FirstHeir mac i ∧
        (t.clientDisconnected mac).owner
          = ⟨(t.core.sessions i).clientIp, .replicate 6 0, true⟩) := by
  unfold clientDisconnected
  rw [hconn, Bool.not_true, if_neg Bool.false_ne_true]
  by_cases hmac : t.owner.mac = mac
  · simp only [if_pos hmac]
    by_cases hcount : 0 < t.core.gate.clients.count
    · simp only [if_pos hcount]
      cases hfind : Fin.find? fun i => mayInherit mac (t.core.sessions i) with
      | none =>
        refine Or.inr (Or.inl ⟨hmac, rfl, ?_⟩)
        rintro - i ⟨hi, -⟩
        exact Bool.false_ne_true ((Fin.find?_eq_none_iff.mp hfind i).symm.trans hi)
      | some i =>
        refine Or.inr (Or.inr ⟨hmac, hcount, i, ?_, rfl⟩)
        exact Fin.find?_eq_some_iff.mp hfind
    · simp only [if_neg hcount]
      exact Or.inr (Or.inl ⟨hmac, trivial, fun h => absurd h hcount⟩)
  · exact Or.inl ⟨hmac, if_neg hmac⟩

theorem FirstHeir.unique {t : OwnedCore} {mac : Mac} {i j : Slot} (hi : t.FirstHeir mac i)
    (hj : t.FirstHeir mac j) : i = j := by
  rcases lt_trichotomy i j with hlt | heq | hlt
  · exact absurd hi.1 (by rw [hj.2 i hlt]; exact Bool.false_ne_true)
  · exact heq
  · exact absurd hj.1 (by rw [hi.2 j hlt]; exact Bool.false_ne_true)

end OwnedCore

/-! ### Runs -/

/-- The owner record in a network, with the addresses of the stations that have left and
not connected again. -/
structure OwnerRun where
  tollgate : OwnedCore
  away : Ip → Bool

/-- What the stations do, each under the address it has. -/
inductive StationEvent where
  | connected (ip : Ip)
  | disconnected (ip : Ip)
  | session (op : Core.SessionOp)

namespace OwnerRun

/-- After `tollgate_core_init`. -/
def init : OwnerRun := ⟨.init, fun _ => false⟩

/-- One step in a network where the station with address `ip` has the MAC `mac ip`. -/
def step (mac : Ip → Mac) (s : OwnerRun) : StationEvent → OwnerRun
  | .connected ip => ⟨s.tollgate.clientConnected (mac ip) ip, Function.update s.away ip false⟩
  | .disconnected ip => ⟨s.tollgate.clientDisconnected (mac ip), Function.update s.away ip true⟩
  | .session op => { s with tollgate := { s.tollgate with core := s.tollgate.core.step op } }

/-- No station that is away is the owner. -/
def Follows (s : OwnerRun) : Prop := ∀ ip, s.away ip = true → s.tollgate.isOwner ip = false

/-- When the owner disconnects it is no longer the owner. -/
def Leaves (mac : Ip → Mac) (s : OwnerRun) (ev : StationEvent) : Prop :=
  ∀ ip, ev = .disconnected ip → s.tollgate.isOwner ip = true →
    (s.step mac ev).tollgate.isOwner ip = false

/-- The owner is known by its MAC when it disconnects, and the first session that may
inherit then, if any, is that of another station, which is there. -/
def HandsOver (mac : Ip → Mac) (s : OwnerRun) : StationEvent → Prop
  | .disconnected ip =>
    s.tollgate.owner.connected = true →
      if s.tollgate.owner.mac = mac ip then
        0 < s.tollgate.core.gate.clients.count →
          ∀ i, s.tollgate.FirstHeir (mac ip) i →
            (s.tollgate.core.sessions i).clientIp ≠ ip ∧
              s.away (s.tollgate.core.sessions i).clientIp = false
      else s.tollgate.owner.ip ≠ ip
  | _ => True

variable {s : OwnerRun} {mac : Ip → Mac}

theorem follows_def : s.Follows ↔
    (s.tollgate.owner.connected = true → s.away s.tollgate.owner.ip = false) := by
  unfold Follows
  refine ⟨?_, ?_⟩
  · intro h hconn
    by_contra haway
    rw [Bool.not_eq_false] at haway
    have howner : s.tollgate.isOwner s.tollgate.owner.ip = true :=
      OwnedCore.isOwner_iff.mpr ⟨hconn, rfl⟩
    exact Bool.false_ne_true ((h _ haway).symm.trans howner)
  · intro h ip haway
    rw [← Bool.not_eq_true, OwnedCore.isOwner_iff]
    rintro ⟨hconn, rfl⟩
    exact Bool.false_ne_true ((h hconn).symm.trans haway)

/-- An address other than the one that changed. -/
theorem update_true_eq_false {away : Ip → Bool} {ip ip' : Ip} :
    Function.update away ip true ip' = false ↔ ip' ≠ ip ∧ away ip' = false := by
  by_cases heq : ip' = ip
  · subst heq
    simp
  · simp [heq]

theorem Follows.connected (h : s.Follows) (ip : Ip) : (s.step mac (.connected ip)).Follows := by
  rw [follows_def] at h ⊢
  intro _
  change Function.update s.away ip false (s.tollgate.clientConnected (mac ip) ip).owner.ip = false
  unfold OwnedCore.clientConnected
  cases hconn : s.tollgate.owner.connected with
  | false => exact Function.update_self _ _ _
  | true =>
    simp only [if_true]
    by_cases heq : s.tollgate.owner.ip = ip
    · rw [heq, Function.update_self]
    · rw [Function.update_of_ne heq, h hconn]

/-- **A disconnect.** -/
theorem Follows.disconnected_iff (h : s.Follows) (ip : Ip) :
    (s.step mac (.disconnected ip)).Follows ↔ s.HandsOver mac (.disconnected ip) := by
  rw [follows_def] at h ⊢
  change ((s.tollgate.clientDisconnected (mac ip)).owner.connected = true →
    Function.update s.away ip true (s.tollgate.clientDisconnected (mac ip)).owner.ip = false) ↔ _
  rw [update_true_eq_false]
  cases hconn : s.tollgate.owner.connected with
  | false =>
    have hnone : (s.tollgate.clientDisconnected (mac ip)).owner.connected = false := by
      simp only [OwnedCore.clientDisconnected, hconn, Bool.not_false, if_true]
    simp only [HandsOver, hconn, hnone, Bool.false_eq_true, false_imp_iff]
  | true =>
    simp only [HandsOver, hconn, forall_const]
    obtain ⟨hmac, hsame⟩ | ⟨hmac, hnone, hno⟩ | ⟨hmac, hcount, i, hi, howner⟩ :=
      OwnedCore.clientDisconnected_cases hconn (mac ip)
    · -- not recognised: the owner stays
      rw [hsame, if_neg hmac, forall_prop_of_true hconn, and_iff_left (h hconn)]
    · rw [if_pos hmac, hnone]
      refine iff_of_true (fun hfalse => absurd hfalse Bool.false_ne_true) ?_
      exact fun hcount i hi => absurd hi (hno hcount i)
    · rw [if_pos hmac, howner, forall_prop_of_true rfl, forall_prop_of_true hcount]
      refine ⟨?_, fun hall => hall i hi⟩
      intro hi' j hj
      rwa [hj.unique hi]

theorem Follows.step_iff (h : s.Follows) (ev : StationEvent) :
    (s.step mac ev).Follows ↔ s.HandsOver mac ev := by
  cases ev with
  | connected ip => exact iff_of_true (h.connected ip) trivial
  | disconnected ip => exact h.disconnected_iff ip
  | session op => exact iff_of_true h trivial

theorem Follows.leaves {ev : StationEvent} (h : (s.step mac ev).Follows) : s.Leaves mac ev := by
  rintro ip rfl -
  exact h ip (Function.update_self _ _ _)

theorem follows_init : init.Follows := fun _ haway => absurd haway Bool.false_ne_true

/-- **When ownership follows the station.** Over every run in every network these come to the
same: a station that has disconnected is not the owner until it connects again, and an
owner's station that disconnects takes the ownership away from its address; at each
disconnect the station that is the owner is known by its MAC, and the first session that
may inherit belongs to another station, one that is there. -/
theorem follows_iff (mac : Ip → Mac) (evs : List StationEvent) :
    (Always (step mac) Follows init evs ∧ AllSteps (step mac) (Leaves mac) init evs) ↔
      AllSteps (step mac) (HandsOver mac) init evs := by
  have halways : Always (step mac) Follows init evs ↔
      AllSteps (step mac) (HandsOver mac) init evs :=
    always_iff (fun _ ev h => h.step_iff ev) follows_init
  rw [← halways, and_iff_left_iff_imp]
  intro h
  refine allSteps_iff.mpr ?_
  rintro front ev back rfl
  have hafter : (run (step mac) init (front ++ [ev])).Follows := h (front ++ [ev]) back (by simp)
  rw [run_concat] at hafter
  exact hafter.leaves

/-- A network in which the MAC of a station is made from its address. -/
def stationMac (ip : Ip) : Mac :=
  #v[0x02, 0x00, (ip >>> 24).toUInt8, (ip >>> 16).toUInt8, (ip >>> 8).toUInt8, ip.toUInt8]

theorem stationMac_injective : Function.Injective stationMac := by
  intro ip ip' h
  have hlist : (stationMac ip).toList = (stationMac ip').toList := congrArg Vector.toList h
  simp only [stationMac, Vector.toList_mk, List.cons.injEq, true_and, and_true] at hlist
  obtain ⟨h₃, h₂, h₁, h₀⟩ := hlist
  rw [← ofBe32_be32 ip, ← ofBe32_be32 ip', h₃, h₂, h₁, h₀]

/-- The access point knows the MAC of every address in it. -/
def stationEnv (now : Int64) : Env :=
  ⟨now, some (cstr "milliseconds"), fun ip => some (stationMac ip).text⟩

/-- The owner pays and disconnects. -/
def ownRun : List StationEvent :=
  [.connected 0xa000002, .session (.create (stationEnv 0) 0xa000002 60000),
    .disconnected 0xa000002]

/-- A second station connects and pays, and first the owner, then it disconnects. -/
def heirRun : List StationEvent :=
  [.connected 0xa000002, .connected 0xa000003,
    .session (.create (stationEnv 0) 0xa000003 60000), .disconnected 0xa000002,
    .disconnected 0xa000003]

theorem not_always_follows {evs : List StationEvent} {ip : Ip}
    (haway : (run (step mac) init evs).away ip = true)
    (howner : (run (step mac) init evs).tollgate.isOwner ip = true) :
    ¬ Always (step mac) Follows init evs := by
  intro h
  have hfollows : (run (step mac) init evs).Follows := h evs [] (List.append_nil evs).symm
  exact Bool.false_ne_true ((hfollows ip haway).symm.trans howner)

/-- In the first run the owner inherits from itself, in the second the heir stays the owner
when it is gone. -/
theorem owner_stays : Function.Injective stationMac ∧
    (run (step stationMac) init ownRun).tollgate.isOwner 0xa000002 = true ∧
    (run (step stationMac) init heirRun).tollgate.isOwner 0xa000003 = true ∧
    ¬ (Always (step stationMac) Follows init ownRun ∧
      AllSteps (step stationMac) (Leaves stationMac) init ownRun) ∧
    ¬ (Always (step stationMac) Follows init heirRun ∧
      AllSteps (step stationMac) (Leaves stationMac) init heirRun) := by
  have hown : (run (step stationMac) init ownRun).tollgate.isOwner 0xa000002 = true := by
    decide
  have hheir : (run (step stationMac) init heirRun).tollgate.isOwner 0xa000003 = true := by
    decide
  refine ⟨stationMac_injective, hown, hheir, ?_, ?_⟩
  · exact fun h => not_always_follows (by decide) hown h.1
  · exact fun h => not_always_follows (by decide) hheir h.1

end OwnerRun

end TollGate
