import TollGate.Lib.Run
import TollGate.Mining.Clients

/-!
# What the table of mining clients counts

Runs of `tollgate_core_mining_update_hashrate` from the empty table. A client may lose its
entry to another and get a new one later, so that its counters stand for the updates since
the entry was written last (`CreatedAt`). They are counters of 64 bits, and agree with these
numbers up to that.

One update writes one place of the table at most (`updateHashrate_cases`), and what a run
leaves there follows by induction, with the updates so far as its history.
-/

namespace TollGate

namespace Mining

/-! ### One update -/

variable {now : Int64} {clients : List ClientStats} {ip : Ip} {accepted : Bool}

/-- The addresses in the table. -/
def ips (clients : List ClientStats) : List Ip := clients.map (·.ip)

theorem mem_ips : ip ∈ ips clients ↔ ∃ c ∈ clients, c.ip = ip := List.mem_map

@[simp] theorem ip_count (c : ClientStats) : (c.count now accepted).ip = c.ip := by
  unfold ClientStats.count
  split <;> rfl

@[simp] theorem lastShareTimeMs_count (c : ClientStats) :
    (c.count now accepted).lastShareTimeMs = now := by
  unfold ClientStats.count
  split <;> rfl

/-- The entry is older than the ageing window. -/
def ClientStats.Aged (now : Int64) (c : ClientStats) : Prop :=
  now - c.lastShareTimeMs > shareWindowMs

instance (now : Int64) (c : ClientStats) : Decidable (c.Aged now) :=
  inferInstanceAs (Decidable (_ > _))

/-- What a look-up of `ip` comes to: the table, and the place of the client. -/
inductive LookedUp (now : Int64) (clients : List ClientStats) (ip : Ip) :
    List ClientStats × Option ℕ → Prop where
  /-- The client has an entry. -/
  | known (i : ℕ) (c : ClientStats) (hc : clients[i]? = some c) (hip : c.ip = ip) :
      LookedUp now clients ip (clients, some i)
  /-- It gets the place of another. -/
  | replaced (i : ℕ) (c : ClientStats) (hnew : ip ∉ ips clients) (hc : clients[i]? = some c)
      (hage : c.Aged now) : LookedUp now clients ip (clients.set i (.fresh now ip), some i)
  /-- It gets a place of its own. -/
  | appended (hnew : ip ∉ ips clients) (hroom : clients.length < maxClients) :
      LookedUp now clients ip (clients ++ [.fresh now ip], some clients.length)
  /-- It gets none. -/
  | dropped (hnew : ip ∉ ips clients) (hfull : maxClients ≤ clients.length)
      (hyoung : ∀ c ∈ clients, ¬ c.Aged now) : LookedUp now clients ip (clients, none)

theorem findIdx?_ip_eq_none (h : (clients.findIdx? fun c => c.ip = ip) = none) :
    ip ∉ ips clients := by
  rw [List.findIdx?_eq_none_iff] at h
  rw [mem_ips]
  rintro ⟨c, hc, hip⟩
  simpa [hip] using h c hc

/-- The four ways of a look-up. -/
theorem getOrCreateClient_cases (now : Int64) (clients : List ClientStats) (ip : Ip) :
    LookedUp now clients ip (getOrCreateClient now clients ip) := by
  unfold getOrCreateClient
  cases hfind : clients.findIdx? fun c => c.ip = ip with
  | some i =>
    obtain ⟨hlt, hip, -⟩ := List.findIdx?_eq_some_iff_getElem.mp hfind
    exact .known i _ (List.getElem?_eq_getElem hlt) (by simpa using hip)
  | none =>
    have hnew := findIdx?_ip_eq_none hfind
    by_cases hfull : clients.length ≥ maxClients
    · simp only [if_pos hfull]
      cases hold : clients.findIdx? fun c => now - c.lastShareTimeMs > shareWindowMs with
      | some i =>
        obtain ⟨hlt, hage, -⟩ := List.findIdx?_eq_some_iff_getElem.mp hold
        refine .replaced i _ hnew (List.getElem?_eq_getElem hlt) ?_
        simpa [ClientStats.Aged] using hage
      | none =>
        refine .dropped hnew hfull fun c hc => ?_
        simpa [ClientStats.Aged] using List.findIdx?_eq_none_iff.mp hold c hc
    · simp only [if_neg hfull]
      exact .appended hnew (Nat.not_le.mp hfull)

/-- What an update for `ip` makes of the table. -/
inductive Updated (now : Int64) (clients : List ClientStats) (ip : Ip) (accepted : Bool) :
    List ClientStats → Prop where
  /-- The client has an entry. -/
  | counted (i : ℕ) (c : ClientStats) (hc : clients[i]? = some c) (hip : c.ip = ip) :
      Updated now clients ip accepted (clients.set i (c.count now accepted))
  /-- It gets the place of another. -/
  | replaced (i : ℕ) (c : ClientStats) (hnew : ip ∉ ips clients) (hc : clients[i]? = some c)
      (hage : c.Aged now) :
      Updated now clients ip accepted
        (clients.set i ((ClientStats.fresh now ip).count now accepted))
  /-- It gets a place of its own. -/
  | appended (hnew : ip ∉ ips clients) (hroom : clients.length < maxClients) :
      Updated now clients ip accepted
        (clients ++ [(ClientStats.fresh now ip).count now accepted])
  /-- It gets none. -/
  | dropped (hnew : ip ∉ ips clients) (hfull : maxClients ≤ clients.length)
      (hyoung : ∀ c ∈ clients, ¬ c.Aged now) :
      Updated now clients ip accepted clients

/-- **One update writes one place.** -/
theorem updateHashrate_cases (now : Int64) (clients : List ClientStats) (ip : Ip)
    (accepted : Bool) :
    Updated now clients ip accepted (updateHashrate now clients ip accepted) := by
  have hfound := getOrCreateClient_cases now clients ip
  unfold updateHashrate
  generalize getOrCreateClient now clients ip = found at hfound
  -- the counters go up in the place that was found
  cases hfound with
  | known i c hc hip =>
    show Updated now clients ip accepted (clients.modify i (ClientStats.count now accepted))
    rw [List.modify_eq_set_getElem?, hc]
    exact .counted i c hc hip
  | replaced i c hnew hc hage =>
    obtain ⟨hlt, -⟩ := List.getElem?_eq_some_iff.mp hc
    have hset : (clients.set i (.fresh now ip)).modify i (ClientStats.count now accepted) =
        clients.set i ((ClientStats.fresh now ip).count now accepted) := by
      rw [List.modify_eq_set_getElem?, List.getElem?_set_self hlt]
      exact List.set_set ..
    show Updated now clients ip accepted ((clients.set i (.fresh now ip)).modify i _)
    rw [hset]
    exact .replaced i c hnew hc hage
  | appended hnew hroom =>
    have hset : (clients ++ [ClientStats.fresh now ip]).modify clients.length
        (ClientStats.count now accepted) =
          clients ++ [(ClientStats.fresh now ip).count now accepted] := by
      simp [List.modify_eq_set_getElem?]
    show Updated now clients ip accepted
      ((clients ++ [ClientStats.fresh now ip]).modify clients.length _)
    rw [hset]
    exact .appended hnew hroom
  | dropped hnew hfull hyoung => exact .dropped hnew hfull hyoung

/-- The entries after an update: those of other clients, and the one of the client. -/
theorem Updated.mem {after : List ClientStats} (h : Updated now clients ip accepted after)
    (hnodup : (ips clients).Nodup) {c : ClientStats} (hc : c ∈ after) :
    (c ∈ clients ∧ c.ip ≠ ip) ∨ (∃ c₀ ∈ clients, c₀.ip = ip ∧ c = c₀.count now accepted) ∨
      ip ∉ ips clients ∧ c = (ClientStats.fresh now ip).count now accepted := by
  obtain ⟨j, hj⟩ := List.mem_iff_getElem?.mp hc
  have hother : ip ∉ ips clients → c ∈ clients → c ∈ clients ∧ c.ip ≠ ip := by
    intro hnew hmem
    refine ⟨hmem, ?_⟩
    rintro rfl
    exact hnew (mem_ips.mpr ⟨c, hmem, rfl⟩)
  cases h with
  | counted i c₀ hc₀ hip =>
    by_cases hij : i = j
    · subst hij
      rw [List.getElem?_set_self (List.getElem?_eq_some_iff.mp hc₀).1] at hj
      exact .inr (.inl ⟨c₀, List.mem_of_getElem? hc₀, hip, (Option.some.inj hj).symm⟩)
    · rw [List.getElem?_set_ne hij] at hj
      refine .inl ⟨List.mem_of_getElem? hj, ?_⟩
      -- two places have two addresses
      intro hsame
      have hlt : i < (ips clients).length := by
        rw [ips, List.length_map]
        exact (List.getElem?_eq_some_iff.mp hc₀).1
      refine hij ((List.getElem?_inj hlt hnodup).mp ?_)
      rw [ips, List.getElem?_map, List.getElem?_map, hc₀, hj, Option.map_some, Option.map_some, hip,
        hsame]
  | replaced i c₀ hnew hc₀ _ =>
    by_cases hij : i = j
    · subst hij
      rw [List.getElem?_set_self (List.getElem?_eq_some_iff.mp hc₀).1] at hj
      exact .inr (.inr ⟨hnew, (Option.some.inj hj).symm⟩)
    · rw [List.getElem?_set_ne hij] at hj
      exact .inl (hother hnew (List.mem_of_getElem? hj))
  | appended hnew _ =>
    rcases List.mem_append.mp hc with hmem | hmem
    · exact .inl (hother hnew hmem)
    · exact .inr (.inr ⟨hnew, List.mem_singleton.mp hmem⟩)
  | dropped hnew _ _ => exact .inl (hother hnew hc)

theorem Updated.length_le {after : List ClientStats} (h : Updated now clients ip accepted after)
    (hlen : clients.length ≤ maxClients) : after.length ≤ maxClients := by
  cases h with
  | counted | replaced => rwa [List.length_set]
  | appended _ hroom =>
    rw [List.length_append, List.length_singleton]
    omega
  | dropped => exact hlen

theorem Updated.nodup {after : List ClientStats} (h : Updated now clients ip accepted after)
    (hnodup : (ips clients).Nodup) : (ips after).Nodup := by
  cases h with
  | counted i c hc hip =>
    have hsame : ips (clients.set i (c.count now accepted)) = ips clients := by
      obtain ⟨hlt, rfl⟩ := List.getElem?_eq_some_iff.mp hc
      have hlt' : i < (clients.map fun c => c.ip).length := by rwa [List.length_map]
      have haddr : (clients.map fun c => c.ip)[i] = clients[i].ip := List.getElem_map ..
      rw [ips, List.map_set, ip_count, ← haddr]
      exact List.set_getElem_self hlt'
    rwa [hsame]
  | replaced i c hnew _ _ =>
    rw [ips, List.map_set, ip_count]
    exact hnodup.set hnew
  | appended hnew _ =>
    rw [ips, List.map_append, List.map_singleton, ip_count, ← List.concat_eq_append]
    exact hnodup.concat hnew
  | dropped => exact hnodup

/-- A young entry stays where it is. -/
theorem Updated.keep {after : List ClientStats} (h : Updated now clients ip accepted after)
    {i : ℕ} {c : ClientStats} (hc : clients[i]? = some c) (hyoung : ¬ c.Aged now) :
    after[i]?.map (·.ip) = some c.ip := by
  have hlt := (List.getElem?_eq_some_iff.mp hc).1
  cases h with
  | counted j c₀ hc₀ _ =>
    by_cases hij : j = i
    · subst hij
      obtain rfl := Option.some.inj (hc₀.symm.trans hc)
      rw [List.getElem?_set_self hlt, Option.map_some, ip_count]
    · rw [List.getElem?_set_ne hij, hc, Option.map_some]
  | replaced j c₀ _ hc₀ hage =>
    have hij : j ≠ i := by
      rintro rfl
      obtain rfl := Option.some.inj (hc₀.symm.trans hc)
      exact hyoung hage
    rw [List.getElem?_set_ne hij, hc, Option.map_some]
  | appended _ _ => rw [List.getElem?_append_left hlt, hc, Option.map_some]
  | dropped => rw [hc, Option.map_some]

/-- With a clock that does not go back, the age is the time since the last share. -/
theorem not_aged {c : ClientStats} (hle : c.lastShareTimeMs ≤ now)
    (hyoung : now.toInt - c.lastShareTimeMs.toInt ≤ 60000) : ¬ c.Aged now := by
  rw [Int64.le_iff_toInt_le] at hle
  rw [ClientStats.Aged, gt_iff_lt, Int64.lt_iff_toInt_lt, Int64.toInt_sub, not_lt,
    Int.bmod_eq_of_le (by omega) (by omega)]
  exact hyoung

/-! ### Runs -/

/-- A call of `tollgate_core_mining_update_hashrate` and the clock at it. -/
structure Update where
  now : Int64
  ip : Ip
  accepted : Bool

/-- The table after a call. -/
def tallyStep (clients : List ClientStats) (u : Update) : List ClientStats :=
  updateHashrate u.now clients u.ip u.accepted

/-- The table after calls from start-up. -/
def tally (updates : List Update) : List ClientStats := StepRun.run tallyStep [] updates

theorem tally_concat (updates : List Update) (u : Update) :
    tally (updates ++ [u]) = updateHashrate u.now (tally updates) u.ip u.accepted :=
  StepRun.run_concat tallyStep [] updates u

/-- The updates for an address with one verdict. -/
def sharesOf (ip : Ip) (accepted : Bool) (updates : List Update) : ℕ :=
  updates.countP fun u => u.ip = ip ∧ u.accepted = accepted

/-- The last update for an address. -/
def lastUpdate? (updates : List Update) (ip : Ip) : Option Update :=
  (updates.filter fun u => u.ip = ip).getLast?

/-- The entry of `ip` was written at the update `u`, and is there since. -/
structure CreatedAt (updates : List Update) (ip : Ip) (front : List Update) (u : Update)
    (back : List Update) : Prop where
  split : updates = front ++ u :: back
  own : u.ip = ip
  absent : ip ∉ ips (tally front)
  present : ∀ between, between <+: back → ip ∈ ips (tally (front ++ u :: between))

/-- What an entry says of the updates for its address. -/
structure Recorded (updates : List Update) (c : ClientStats) : Prop where
  counts : ∃ front u back, CreatedAt updates c.ip front u back ∧
    c.sharesAccepted = UInt64.ofNat (sharesOf c.ip true (u :: back)) ∧
    c.sharesRejected = UInt64.ofNat (sharesOf c.ip false (u :: back))
  last : ∃ u, lastUpdate? updates c.ip = some u ∧ c.lastShareTimeMs = u.now

variable {updates : List Update} {u : Update} {c : ClientStats}

theorem CreatedAt.concat {front back : List Update} {v : Update}
    (h : CreatedAt updates ip front v back) (hmem : ip ∈ ips (tally (updates ++ [u]))) :
    CreatedAt (updates ++ [u]) ip front v (back ++ [u]) where
  split := by rw [h.split, List.append_assoc, List.cons_append]
  own := h.own
  absent := h.absent
  present between hbetween := by
    rcases List.prefix_concat_iff.mp hbetween with rfl | hpre
    · rwa [h.split, List.append_assoc, List.cons_append] at hmem
    · exact h.present between hpre

theorem sharesOf_concat (ip : Ip) (accepted : Bool) (updates : List Update) (u : Update) :
    sharesOf ip accepted (updates ++ [u]) =
      sharesOf ip accepted updates + if u.ip = ip ∧ u.accepted = accepted then 1 else 0 := by
  simp only [sharesOf, List.countP_append, List.countP_cons, List.countP_nil, Nat.zero_add,
    decide_eq_true_eq]

theorem lastUpdate?_concat (updates : List Update) (u : Update) (ip : Ip) :
    lastUpdate? (updates ++ [u]) ip = if u.ip = ip then some u else lastUpdate? updates ip := by
  unfold lastUpdate?
  rw [List.filter_append]
  by_cases hip : u.ip = ip <;> simp [hip]

/-- An entry is untouched by the updates of others. -/
theorem Recorded.other (h : Recorded updates c) (hne : u.ip ≠ c.ip)
    (hmem : c.ip ∈ ips (tally (updates ++ [u]))) : Recorded (updates ++ [u]) c := by
  obtain ⟨front, v, back, hcreated, haccepted, hrejected⟩ := h.counts
  refine ⟨⟨front, v, back ++ [u], hcreated.concat hmem, ?_, ?_⟩, ?_⟩
  · rw [← List.cons_append, sharesOf_concat, if_neg fun h => hne h.1, Nat.add_zero, haccepted]
  · rw [← List.cons_append, sharesOf_concat, if_neg fun h => hne h.1, Nat.add_zero, hrejected]
  · rw [lastUpdate?_concat, if_neg hne]
    exact h.last

/-- An entry follows the updates of its own client. -/
theorem Recorded.count (h : Recorded updates c) (hip : u.ip = c.ip)
    (hmem : c.ip ∈ ips (tally (updates ++ [u]))) :
    Recorded (updates ++ [u]) (c.count u.now u.accepted) := by
  obtain ⟨front, v, back, hcreated, haccepted, hrejected⟩ := h.counts
  refine ⟨⟨front, v, back ++ [u], ?_, ?_, ?_⟩, u, ?_, ?_⟩
  · rw [ip_count]
    exact hcreated.concat hmem
  · rw [ip_count, ← List.cons_append, sharesOf_concat, ClientStats.count]
    cases u.accepted <;> simp [hip, haccepted]
  · rw [ip_count, ← List.cons_append, sharesOf_concat, ClientStats.count]
    cases u.accepted <;> simp [hip, hrejected]
  · rw [ip_count, lastUpdate?_concat, if_pos hip]
  · exact lastShareTimeMs_count c

/-- A new entry starts with the update it was written for. -/
theorem recorded_fresh (hnew : u.ip ∉ ips (tally updates))
    (hmem : u.ip ∈ ips (tally (updates ++ [u]))) :
    Recorded (updates ++ [u]) ((ClientStats.fresh u.now u.ip).count u.now u.accepted) := by
  refine ⟨⟨updates, u, [], ⟨rfl, ?_, ?_, ?_⟩, ?_, ?_⟩, u, ?_, ?_⟩
  · rw [ip_count]
    rfl
  · rwa [ip_count]
  · intro between hbetween
    rw [List.prefix_nil.mp hbetween, ip_count]
    exact hmem
  · rw [ip_count, ClientStats.count, sharesOf]
    cases haccepted : u.accepted <;> simp [ClientStats.fresh, haccepted]
  · rw [ip_count, ClientStats.count, sharesOf]
    cases haccepted : u.accepted <;> simp [ClientStats.fresh, haccepted]
  · rw [ip_count, lastUpdate?_concat]
    exact if_pos rfl
  · exact lastShareTimeMs_count _

/-- What holds of the table after any calls. -/
structure Tallied (updates : List Update) (clients : List ClientStats) : Prop where
  nodup : (ips clients).Nodup
  length_le : clients.length ≤ maxClients
  recorded : ∀ c ∈ clients, Recorded updates c

theorem tallied (updates : List Update) : Tallied updates (tally updates) := by
  have hstart : Tallied [] [] :=
    ⟨List.nodup_nil, Nat.zero_le _, fun c hc => absurd hc List.not_mem_nil⟩
  refine StepRun.run_history hstart (fun updates u h => ?_) updates
  · change Tallied updates (tally updates) at h
    have hcases := updateHashrate_cases u.now (tally updates) u.ip u.accepted
    rw [← tally_concat] at hcases
    change Tallied (updates ++ [u]) (updateHashrate u.now (tally updates) u.ip u.accepted)
    rw [← tally_concat]
    refine ⟨hcases.nodup h.nodup, hcases.length_le h.length_le, fun c hc => ?_⟩
    have hmem : c.ip ∈ ips (tally (updates ++ [u])) := mem_ips.mpr ⟨c, hc, rfl⟩
    rcases hcases.mem h.nodup hc with ⟨hold, hne⟩ | ⟨c₀, hold, hip, rfl⟩ | ⟨hnew, rfl⟩
    · exact (h.recorded c hold).other (Ne.symm hne) hmem
    · rw [ip_count] at hmem
      exact (h.recorded c₀ hold).count hip.symm hmem
    · rw [ip_count] at hmem
      exact recorded_fresh hnew hmem

/-- An entry is written at one update only. -/
theorem CreatedAt.unique {front front' back back' : List Update} {v v' : Update}
    (h : CreatedAt updates ip front v back) (h' : CreatedAt updates ip front' v' back') :
    front = front' ∧ v = v' ∧ back = back' := by
  have key : ∀ {front front' back back' : List Update} {v v' : Update},
      CreatedAt updates ip front v back → CreatedAt updates ip front' v' back' →
        front'.length ≤ front.length := by
    intro front front' back back' v v' h h'
    by_contra hlt
    -- the entry that is there since `v` would be absent before `v'`
    obtain ⟨mid, rfl⟩ : front ++ [v] <+: front' := by
      refine List.prefix_of_prefix_length_le ⟨back, ?_⟩ ⟨v' :: back', h'.split.symm⟩ ?_
      · rw [List.append_assoc, List.singleton_append, ← h.split]
      · rw [List.length_append, List.length_singleton]
        omega
    have hback : back = mid ++ v' :: back' := by
      have hsplit := h.split.symm.trans h'.split
      rw [List.append_assoc, List.append_assoc, List.singleton_append] at hsplit
      exact (List.cons.inj (List.append_cancel_left hsplit)).2
    have hpresent := h.present mid ⟨v' :: back', hback.symm⟩
    rw [← List.singleton_append, ← List.append_assoc] at hpresent
    exact h'.absent hpresent
  have hlen : front.length = front'.length := le_antisymm (key h' h) (key h h')
  obtain ⟨rfl, hrest⟩ := List.append_inj (h.split.symm.trans h'.split) hlen
  exact ⟨rfl, (List.cons.inj hrest).1, (List.cons.inj hrest).2⟩

/-- No update replaces an entry whose last update is at most a minute old. -/
def KeepsYoung (updates : List Update) : Prop :=
  ∀ front v back, updates = front ++ v :: back →
    ∀ (i : ℕ) (c : ClientStats) (u : Update), (tally front)[i]? = some c →
      lastUpdate? front c.ip = some u →
      v.now.toInt - u.now.toInt ≤ 60000 → (tally (front ++ [v]))[i]?.map (·.ip) = some c.ip

theorem keepsYoung (hclock : updates.Pairwise fun u v => u.now ≤ v.now) : KeepsYoung updates := by
  rintro front v back rfl i c u hc hlast hage
  obtain ⟨w, hw, htime⟩ := ((tallied front).recorded c (List.mem_of_getElem? hc)).last
  obtain rfl : u = w := Option.some.inj (hlast.symm.trans hw)
  have hmem : u ∈ front := List.mem_of_mem_filter (List.mem_of_getLast? hlast)
  have hle : u.now ≤ v.now := (List.pairwise_append.mp hclock).2.2 u hmem v List.mem_cons_self
  rw [tally_concat]
  refine (updateHashrate_cases ..).keep hc (not_aged ?_ ?_)
  · rwa [htime]
  · rwa [htime]

/-- **What the table counts.** In every run with a clock that does not go back, the entries are of
different clients and ten at most, each counts the updates for its client since it was
written, up to the size of a counter, and none is replaced within a minute of its last
update. -/
theorem tally_laws (hclock : updates.Pairwise fun u v => u.now ≤ v.now) :
    (ips (tally updates)).Nodup ∧ (tally updates).length ≤ maxClients ∧
      (∀ c ∈ tally updates, ∀ front v back, CreatedAt updates c.ip front v back →
        c.sharesAccepted = UInt64.ofNat (sharesOf c.ip true (v :: back)) ∧
          c.sharesRejected = UInt64.ofNat (sharesOf c.ip false (v :: back))) ∧
      (∀ c ∈ tally updates, ∃ front v back, CreatedAt updates c.ip front v back) ∧
      KeepsYoung updates := by
  have h := tallied updates
  refine ⟨h.nodup, h.length_le, fun c hc front v back hcreated => ?_, fun c hc => ?_,
    keepsYoung hclock⟩
  · obtain ⟨front', v', back', hcreated', hcounts⟩ := (h.recorded c hc).counts
    obtain ⟨-, rfl, rfl⟩ := hcreated.unique hcreated'
    exact hcounts
  · obtain ⟨front, v, back, hcreated, -⟩ := (h.recorded c hc).counts
    exact ⟨front, v, back, hcreated⟩

/-- An accepted share of the first miner, at start-up. -/
def firstShare : Update := ⟨0, 1, true⟩

/-- Two miners in turn. -/
def twoMiners : List Update := [⟨0, 1, true⟩, ⟨5, 2, false⟩, ⟨9, 1, true⟩]

theorem tally_laws_two : (ips (tally twoMiners)).Nodup ∧ KeepsYoung twoMiners := by
  have hclock : twoMiners.Pairwise fun u v => u.now ≤ v.now := by decide
  exact ⟨(tally_laws hclock).1, (tally_laws hclock).2.2.2.2⟩

theorem tally_replicate (n : ℕ) :
    tally (List.replicate (n + 1) firstShare) = [⟨1, UInt64.ofNat (n + 1), 0, 0, 0⟩] := by
  induction n with
  | zero => rfl
  | succ n ih =>
    rw [List.replicate_succ', tally_concat, ih, UInt64.ofNat_add (n + 1)]
    rfl

theorem sharesOf_replicate (n : ℕ) : sharesOf 1 true (List.replicate n firstShare) = n := by
  rw [sharesOf, List.countP_replicate]
  rfl

theorem createdAt_replicate (n : ℕ) :
    CreatedAt (List.replicate (n + 1) firstShare) 1 [] firstShare
      (List.replicate n firstShare) where
  split := List.replicate_succ
  own := rfl
  absent := List.not_mem_nil
  present between hbetween := by
    obtain ⟨-, hall⟩ := List.prefix_replicate_iff.mp hbetween
    rw [List.nil_append, hall, ← List.replicate_succ, tally_replicate]
    exact List.mem_singleton_self _

/-- A counter of 64 bits that has come round. -/
theorem tally_wraps :
    (List.replicate (2 ^ 64 - 1 + 1) firstShare).Pairwise (fun u v => u.now ≤ v.now) ∧
    ∃ c ∈ tally (List.replicate (2 ^ 64 - 1 + 1) firstShare),
      CreatedAt (List.replicate (2 ^ 64 - 1 + 1) firstShare) c.ip [] firstShare
          (List.replicate (2 ^ 64 - 1) firstShare) ∧
        c.sharesAccepted.toNat ≠
          sharesOf c.ip true (firstShare :: List.replicate (2 ^ 64 - 1) firstShare) := by
  rw [tally_replicate]
  refine ⟨List.pairwise_replicate.mpr (.inr (Int64.le_refl _)), _, List.mem_singleton_self _,
    createdAt_replicate _, ?_⟩
  rw [← List.replicate_succ, sharesOf_replicate, UInt64.toNat_ofNat']
  omega

end Mining

end TollGate
