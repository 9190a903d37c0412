import TollGate.Lib.BoundedTable
import TollGate.Lib.CTypes

/-!
# The firewall client list and the DNS authenticated list

The two tables that decide what a client's packets may do: `s_clients`
(`tollgate_core_firewall.c`) lets a source address through the forwarding
filter, `s_auth_list` (`tollgate_core_dns.c`) makes the DNS server forward
instead of hijack. Both are arrays of ten entries with a counter and
swap-with-last removal, so both are `BoundedTable`s keyed by the address.

`fwGrant` and `fwRevoke` write the client list and then the DNS list. They do
not treat the two alike: a grant to a client that is already listed, or to a
full list, returns before the DNS list is written, and a revocation of a client
that is not listed leaves the DNS list alone. The specification lemmas below
(`mem_clientIps_fwGrant`, `mem_authIps_fwGrant` and their companions for the
revocations) therefore describe each list separately, from any pair of tables.

When the two lists hold the same set `A` of addresses without repetition
(`Gate.Admits`), the operations act on that set: `Gate.Admits.fwGrant` inserts,
`Gate.Admits.fwRevoke` erases.
-/

namespace TollGate

/-- An IPv4 address, as `esp_ip4_addr_t.addr` holds it. -/
abbrev Ip := UInt32

/-- `MAX_CLIENTS` of the firewall. -/
abbrev maxClients : ℕ := 10

/-- `MAX_AUTH_IPS` of the DNS server. -/
abbrev maxAuthIps : ℕ := 10

/-- `fw_client_t`. -/
structure FwClient where
  ip : Ip
  mac : CStr
deriving DecidableEq

/-- `auth_entry_t`. -/
structure AuthEntry where
  ip : Ip
deriving DecidableEq

/-- The firewall's client list and the DNS server's authenticated list. -/
structure Gate where
  clients : BoundedTable FwClient maxClients
  auth : BoundedTable AuthEntry maxAuthIps

namespace Gate

/-- Both lists as they are in zeroed static memory. -/
def boot : Gate := ⟨.empty ⟨0, []⟩, .empty ⟨0⟩⟩

/-- The addresses of the firewall client list. -/
def clientIps (g : Gate) : List Ip := g.clients.keys FwClient.ip

/-- The addresses of the DNS authenticated list. -/
def authIps (g : Gate) : List Ip := g.auth.keys AuthEntry.ip

/-! ### The source operations -/

/-- `is_authenticated`. -/
def isAuthenticated (g : Gate) (ip : Ip) : Bool := g.auth.hasKey AuthEntry.ip ip

/-- `tollgate_core_dns_set_authenticated`. -/
def dnsSetAuthenticated (g : Gate) (ip : Ip) (authenticated : Bool) : Gate :=
  if authenticated then
    if g.isAuthenticated ip then g
    else if g.auth.count < maxAuthIps then { g with auth := g.auth.push ⟨ip⟩ }
    -- a full list drops the entry, and the caller is not told
    else g
  else { g with auth := g.auth.removeKey AuthEntry.ip ip }

/-- `tollgate_core_fw_is_allowed`. -/
def fwIsAllowed (g : Gate) (ip : Ip) : Bool := g.clients.hasKey FwClient.ip ip

/-- `tollgate_core_fw_grant`. `macForIp` is `tollgate_core_fw_get_mac_for_ip`,
which reads the station list and the ARP table; on failure the entry keeps the
empty address it was given first. -/
def fwGrant (macForIp : Ip → Option CStr) (g : Gate) (ip : Ip) : Gate :=
  if g.fwIsAllowed ip then g
  -- neither early return reaches the DNS list
  else if g.clients.count ≥ maxClients then g
  else
    dnsSetAuthenticated
      { g with clients := g.clients.push ⟨ip, (macForIp ip).getD []⟩ } ip true

/-- `tollgate_core_fw_revoke`. -/
def fwRevoke (g : Gate) (ip : Ip) : Gate :=
  if g.fwIsAllowed ip then
    dnsSetAuthenticated { g with clients := g.clients.removeKey FwClient.ip ip } ip false
  else g

/-- `tollgate_core_fw_revoke_all`: every listed client loses its DNS entry, then
the client counter is zeroed. -/
def fwRevokeAll (g : Gate) : Gate :=
  let g' := g.clientIps.foldl (fun g ip => g.dnsSetAuthenticated ip false) g
  { g' with clients := g'.clients.clear }

/-- The table part of `tollgate_core_fw_init`: the client list is zeroed, the DNS
list is not touched. -/
def fwInit (g : Gate) : Gate := { g with clients := .empty ⟨0, []⟩ }

/-! ### What each operation does to each list -/

variable {g : Gate} {ip ip' : Ip} {m : Ip → Option CStr}

@[simp] theorem clientIps_boot : boot.clientIps = [] := rfl

@[simp] theorem authIps_boot : boot.authIps = [] := rfl

@[simp] theorem isAuthenticated_iff : g.isAuthenticated ip = true ↔ ip ∈ g.authIps :=
  BoundedTable.hasKey_iff

@[simp] theorem fwIsAllowed_iff : g.fwIsAllowed ip = true ↔ ip ∈ g.clientIps :=
  BoundedTable.hasKey_iff

@[simp] theorem length_clientIps : g.clientIps.length = g.clients.count :=
  BoundedTable.length_keys

@[simp] theorem length_authIps : g.authIps.length = g.auth.count :=
  BoundedTable.length_keys

@[simp] theorem clients_dnsSetAuthenticated (g : Gate) (ip : Ip) (b : Bool) :
    (g.dnsSetAuthenticated ip b).clients = g.clients := by
  unfold dnsSetAuthenticated
  repeat' split
  all_goals rfl

@[simp] theorem clientIps_dnsSetAuthenticated (g : Gate) (ip : Ip) (b : Bool) :
    (g.dnsSetAuthenticated ip b).clientIps = g.clientIps := by
  rw [clientIps, clients_dnsSetAuthenticated, clientIps]

theorem authIps_dnsSetAuthenticated_true (g : Gate) (ip : Ip) :
    (g.dnsSetAuthenticated ip true).authIps =
      if ip ∉ g.authIps ∧ g.auth.count < maxAuthIps then g.authIps ++ [ip]
      else g.authIps := by
  unfold dnsSetAuthenticated
  rw [if_pos rfl]
  by_cases hmem : ip ∈ g.authIps
  · rw [if_pos (isAuthenticated_iff.mpr hmem), if_neg (fun h => h.1 hmem)]
  · rw [if_neg (fun h => hmem (isAuthenticated_iff.mp h))]
    by_cases hroom : g.auth.count < maxAuthIps
    · rw [if_pos hroom, if_pos ⟨hmem, hroom⟩]
      exact BoundedTable.keys_push hroom _
    · rw [if_neg hroom, if_neg (fun h => hroom h.2)]

theorem authIps_dnsSetAuthenticated_false (g : Gate) (ip : Ip) :
    (g.dnsSetAuthenticated ip false).authIps
      = (g.auth.removeKey AuthEntry.ip ip).keys AuthEntry.ip := rfl

/-- A grant reaches the client list exactly when the client is not listed yet and
the list is not full. -/
theorem clientIps_fwGrant (m : Ip → Option CStr) (g : Gate) (ip : Ip) :
    (fwGrant m g ip).clientIps =
      if ip ∉ g.clientIps ∧ g.clients.count < maxClients then g.clientIps ++ [ip]
      else g.clientIps := by
  unfold fwGrant
  by_cases hmem : ip ∈ g.clientIps
  · rw [if_pos (fwIsAllowed_iff.mpr hmem), if_neg (fun h => h.1 hmem)]
  · rw [if_neg (fun h => hmem (fwIsAllowed_iff.mp h))]
    by_cases hroom : g.clients.count < maxClients
    · rw [if_neg (not_le.mpr hroom), if_pos ⟨hmem, hroom⟩, clientIps_dnsSetAuthenticated]
      exact BoundedTable.keys_push hroom _
    · rw [if_pos (not_lt.mp hroom), if_neg (fun h => hroom h.2)]

/-- A grant reaches the DNS list only when it reached the client list. -/
theorem authIps_fwGrant (m : Ip → Option CStr) (g : Gate) (ip : Ip) :
    (fwGrant m g ip).authIps =
      if (ip ∉ g.clientIps ∧ g.clients.count < maxClients) ∧
          ip ∉ g.authIps ∧ g.auth.count < maxAuthIps then g.authIps ++ [ip]
      else g.authIps := by
  unfold fwGrant
  by_cases hmem : ip ∈ g.clientIps
  · rw [if_pos (fwIsAllowed_iff.mpr hmem), if_neg (fun h => h.1.1 hmem)]
  · rw [if_neg (fun h => hmem (fwIsAllowed_iff.mp h))]
    by_cases hroom : g.clients.count < maxClients
    · rw [if_neg (not_le.mpr hroom), authIps_dnsSetAuthenticated_true]
      -- the client list was just written, the DNS list reads as before
      exact if_congr (by simp [hmem, hroom, authIps]) rfl rfl
    · rw [if_pos (not_lt.mp hroom), if_neg (fun h => hroom h.1.2)]

theorem clientIps_fwRevoke (g : Gate) (ip : Ip) :
    (g.fwRevoke ip).clientIps = (g.clients.removeKey FwClient.ip ip).keys FwClient.ip := by
  unfold fwRevoke
  by_cases hmem : ip ∈ g.clientIps
  · rw [if_pos (fwIsAllowed_iff.mpr hmem), clientIps_dnsSetAuthenticated]
    rfl
  · -- the function returns early, and `removeKey` would not have found the address either
    rw [if_neg (fun h => hmem (fwIsAllowed_iff.mp h)), BoundedTable.removeKey_of_notMem hmem]
    rfl

theorem authIps_fwRevoke (g : Gate) (ip : Ip) :
    (g.fwRevoke ip).authIps =
      if ip ∈ g.clientIps then (g.auth.removeKey AuthEntry.ip ip).keys AuthEntry.ip
      else g.authIps := by
  unfold fwRevoke
  by_cases hmem : ip ∈ g.clientIps
  · rw [if_pos (fwIsAllowed_iff.mpr hmem), if_pos hmem]
    rfl
  · rw [if_neg (fun h => hmem (fwIsAllowed_iff.mp h)), if_neg hmem]

/-! ### No address is listed twice -/

/-- Neither list holds an address twice. -/
structure Distinct (g : Gate) : Prop where
  clients : g.clientIps.Nodup
  auth : g.authIps.Nodup

theorem Distinct.boot : Distinct boot := ⟨List.nodup_nil, List.nodup_nil⟩

theorem Distinct.fwInit (h : g.Distinct) : g.fwInit.Distinct := ⟨List.nodup_nil, h.auth⟩

private theorem nodup_ite_concat {l : List Ip} {ip : Ip} {p : Prop} [Decidable p]
    (hl : l.Nodup) (hp : p → ip ∉ l) : (if p then l ++ [ip] else l).Nodup := by
  split
  · next h => exact List.nodup_append_comm.mp (List.nodup_cons.mpr ⟨hp h, hl⟩)
  · exact hl

theorem Distinct.fwGrant (h : g.Distinct) (m : Ip → Option CStr) (ip : Ip) :
    (Gate.fwGrant m g ip).Distinct where
  clients := by
    rw [clientIps_fwGrant]
    exact nodup_ite_concat h.clients And.left
  auth := by
    rw [authIps_fwGrant]
    exact nodup_ite_concat h.auth fun hp => hp.2.1

theorem Distinct.dnsUnset (h : g.Distinct) (ip : Ip) :
    (g.dnsSetAuthenticated ip false).Distinct where
  clients := by rw [clientIps_dnsSetAuthenticated]; exact h.clients
  auth := BoundedTable.nodup_keys_removeKey h.auth

theorem Distinct.fwRevoke (h : g.Distinct) (ip : Ip) : (g.fwRevoke ip).Distinct where
  clients := by
    rw [clientIps_fwRevoke]
    exact BoundedTable.nodup_keys_removeKey h.clients
  auth := by
    rw [authIps_fwRevoke]
    split
    · exact BoundedTable.nodup_keys_removeKey h.auth
    · exact h.auth

theorem Distinct.foldl_dnsUnset (h : g.Distinct) (ips : List Ip) :
    (ips.foldl (fun g ip => g.dnsSetAuthenticated ip false) g).Distinct ∧
      ∀ ip, ip ∈ (ips.foldl (fun g ip => g.dnsSetAuthenticated ip false) g).authIps ↔
        ip ∈ g.authIps ∧ ip ∉ ips := by
  induction ips generalizing g with
  | nil => exact ⟨h, fun ip => by simp⟩
  | cons a ips ih =>
    -- one address is cleared first; the induction hypothesis clears the rest
    obtain ⟨hd, hmem⟩ := ih (h.dnsUnset a)
    refine ⟨hd, fun ip => ?_⟩
    rw [List.foldl_cons, hmem, authIps_dnsSetAuthenticated_false,
      BoundedTable.mem_keys_removeKey h.auth, List.mem_cons, not_or, and_assoc]
    rfl

theorem Distinct.fwRevokeAll (h : g.Distinct) : g.fwRevokeAll.Distinct :=
  ⟨List.nodup_nil, (h.foldl_dnsUnset g.clientIps).1.auth⟩

/-! ### Membership -/

theorem mem_clientIps_fwGrant :
    ip' ∈ (fwGrant m g ip).clientIps ↔
      ip' ∈ g.clientIps ∨ ip' = ip ∧ g.clients.count < maxClients := by
  rw [clientIps_fwGrant]
  split
  · next h => simp [h.2]
  · next h =>
    -- no entry was written: the address was listed already, or the list is full
    refine ⟨Or.inl, ?_⟩
    rintro (hmem | ⟨rfl, hroom⟩)
    · exact hmem
    · by_contra hnot
      exact h ⟨hnot, hroom⟩

theorem mem_authIps_fwGrant :
    ip' ∈ (fwGrant m g ip).authIps ↔
      ip' ∈ g.authIps ∨
        ip' = ip ∧ ip ∉ g.clientIps ∧ g.clients.count < maxClients ∧
          g.auth.count < maxAuthIps := by
  rw [authIps_fwGrant]
  split
  · next h => simp [h.1.1, h.1.2, h.2.2]
  · next h =>
    -- no entry was written: one of the two lists refused it
    refine ⟨Or.inl, ?_⟩
    rintro (hmem | ⟨rfl, hnc, hc, ha⟩)
    · exact hmem
    · by_contra hnot
      exact h ⟨⟨hnc, hc⟩, hnot, ha⟩

theorem Distinct.mem_clientIps_fwRevoke (h : g.Distinct) :
    ip' ∈ (g.fwRevoke ip).clientIps ↔ ip' ∈ g.clientIps ∧ ip' ≠ ip := by
  rw [clientIps_fwRevoke, BoundedTable.mem_keys_removeKey h.clients]
  rfl

theorem Distinct.mem_authIps_fwRevoke (h : g.Distinct) :
    ip' ∈ (g.fwRevoke ip).authIps ↔ ip' ∈ g.authIps ∧ ¬ (ip' = ip ∧ ip ∈ g.clientIps) := by
  rw [authIps_fwRevoke]
  split
  · next hc =>
    rw [BoundedTable.mem_keys_removeKey h.auth]
    simp [hc, authIps]
  · next hc => simp [hc]

/-! ### The entries -/

/-- A revocation takes out the entry of its client and no other, addresses of both
kinds included. -/
theorem Distinct.mem_clients_fwRevoke (h : g.Distinct) {e : FwClient} :
    e ∈ (g.fwRevoke ip).clients.live ↔ e ∈ g.clients.live ∧ e.ip ≠ ip := by
  have hlive : (g.fwRevoke ip).clients = g.clients.removeKey FwClient.ip ip := by
    unfold Gate.fwRevoke
    by_cases hmem : ip ∈ g.clientIps
    · rw [if_pos (fwIsAllowed_iff.mpr hmem), clients_dnsSetAuthenticated]
    · rw [if_neg (fun h => hmem (fwIsAllowed_iff.mp h)), BoundedTable.removeKey_of_notMem hmem]
  rw [hlive, BoundedTable.mem_live_removeKey h.clients]

/-- A DNS entry is its address. -/
theorem mem_auth_iff {e : AuthEntry} : e ∈ g.auth.live ↔ e.ip ∈ g.authIps := by
  unfold authIps BoundedTable.keys
  rw [List.mem_map]
  refine ⟨fun h => ⟨e, h, rfl⟩, ?_⟩
  rintro ⟨⟨ip⟩, h, rfl⟩
  exact h

/-- A grant writes the entry of its client and no other. -/
theorem mem_clients_fwGrant_of_ne {e : FwClient} (hne : e.ip ≠ ip) :
    e ∈ (fwGrant m g ip).clients.live ↔ e ∈ g.clients.live := by
  unfold fwGrant
  split_ifs with hmem hfull
  · exact Iff.rfl
  · exact Iff.rfl
  · rw [clients_dnsSetAuthenticated, BoundedTable.live_push (not_le.mp hfull), List.mem_append,
      List.mem_singleton]
    -- the entry written is that of `ip`
    refine or_iff_left ?_
    rintro rfl
    exact hne rfl

theorem mem_authIps_fwGrant_of_ne (hne : ip' ≠ ip) :
    ip' ∈ (fwGrant m g ip).authIps ↔ ip' ∈ g.authIps := by
  rw [mem_authIps_fwGrant]
  exact or_iff_left fun h => hne h.1

/-! ### Two lists holding one set -/

/-- Both lists hold exactly the addresses of `A`, each once. -/
structure Admits (g : Gate) (A : Finset Ip) : Prop extends Distinct g where
  mem_clients : ∀ ip, ip ∈ g.clientIps ↔ ip ∈ A
  mem_auth : ∀ ip, ip ∈ g.authIps ↔ ip ∈ A

variable {A : Finset Ip}

theorem Admits.boot : Admits boot ∅ :=
  ⟨Distinct.boot, fun ip => by simp, fun ip => by simp⟩

private theorem length_eq_card {l : List Ip} (hl : l.Nodup) (hmem : ∀ ip, ip ∈ l ↔ ip ∈ A) :
    l.length = A.card := by
  rw [← List.toFinset_card_of_nodup hl]
  congr 1
  ext ip
  rw [List.mem_toFinset, hmem]

theorem Admits.clients_count (h : g.Admits A) : g.clients.count = A.card := by
  rw [← length_clientIps, length_eq_card h.clients h.mem_clients]

theorem Admits.auth_count (h : g.Admits A) : g.auth.count = A.card := by
  rw [← length_authIps, length_eq_card h.auth h.mem_auth]

/-- A grant inserts, as long as the set has room for one more. -/
theorem Admits.fwGrant (h : g.Admits A) (m : Ip → Option CStr) (hroom : A.card < maxClients) :
    (Gate.fwGrant m g ip).Admits (insert ip A) where
  toDistinct := h.toDistinct.fwGrant m ip
  mem_clients ip' := by
    rw [mem_clientIps_fwGrant, h.mem_clients, h.clients_count, Finset.mem_insert, or_comm]
    simp [hroom]
  mem_auth ip' := by
    rw [mem_authIps_fwGrant, h.mem_auth, h.mem_clients, h.clients_count, h.auth_count,
      Finset.mem_insert]
    -- a listed address is not granted again, but then it is in both lists
    by_cases hip : ip ∈ A
    · by_cases heq : ip' = ip
      · subst heq; simp [hip]
      · simp [heq]
    · simp [hip, hroom, or_comm]

theorem Admits.fwRevoke (h : g.Admits A) : (g.fwRevoke ip).Admits (A.erase ip) where
  toDistinct := h.toDistinct.fwRevoke ip
  mem_clients ip' := by
    rw [h.toDistinct.mem_clientIps_fwRevoke, h.mem_clients, Finset.mem_erase, and_comm]
  mem_auth ip' := by
    rw [h.toDistinct.mem_authIps_fwRevoke, h.mem_auth, h.mem_clients, Finset.mem_erase]
    refine ⟨?_, ?_⟩
    · rintro ⟨hA, hnot⟩
      exact ⟨fun heq => hnot ⟨heq, heq ▸ hA⟩, hA⟩
    · rintro ⟨hne, hA⟩
      exact ⟨hA, fun hc => hne hc.1⟩

end Gate

end TollGate
