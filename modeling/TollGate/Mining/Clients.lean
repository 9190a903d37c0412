import TollGate.Core.Session

/-!
# The table of mining clients

`tollgate_core_mining.c` counts the shares of each client in a table of ten entries.
A client without an entry gets a new one, or the place of one that has not been
heard of for a minute; when there is none it is not counted.

The hash rate that is kept with the counters is a floating point number that only
the value of a share depends on. It is left out here.
-/

namespace TollGate

namespace Mining

/-- `MINING_MAX_CLIENTS`. -/
abbrev maxClients : ℕ := 10

/-- `MINING_SHARE_WINDOW_S * 2000`. -/
def shareWindowMs : Int64 := 60000

/-- `tollgate_mining_client_stats_t`. -/
structure ClientStats where
  ip : Ip
  sharesAccepted : UInt64
  sharesRejected : UInt64
  firstShareTimeMs : Int64
  lastShareTimeMs : Int64
deriving DecidableEq

/-- The entry of a client that was not counted before. -/
def ClientStats.fresh (now : Int64) (ip : Ip) : ClientStats := ⟨ip, 0, 0, now, 0⟩

/-- `tollgate_core_mining_get_or_create_client`: the table afterwards and the place of
the client in it. -/
def getOrCreateClient (now : Int64) (clients : List ClientStats) (ip : Ip) :
    List ClientStats × Option ℕ :=
  match clients.findIdx? fun c => c.ip = ip with
  | some i => (clients, some i)
  | none =>
    if clients.length ≥ maxClients then
      match clients.findIdx? fun c => now - c.lastShareTimeMs > shareWindowMs with
      | some i => (clients.set i (.fresh now ip), some i)
      | none => (clients, none)
    else (clients ++ [.fresh now ip], some clients.length)

/-- One more share in the counters. -/
def ClientStats.count (now : Int64) (accepted : Bool) (c : ClientStats) : ClientStats :=
  if accepted then { c with sharesAccepted := c.sharesAccepted + 1, lastShareTimeMs := now }
  else { c with sharesRejected := c.sharesRejected + 1, lastShareTimeMs := now }

/-- `tollgate_core_mining_update_hashrate`. -/
def updateHashrate (now : Int64) (clients : List ClientStats) (ip : Ip) (accepted : Bool) :
    List ClientStats :=
  let found := getOrCreateClient now clients ip
  match found.2 with
  | none => found.1
  | some i => found.1.modify i (ClientStats.count now accepted)

/-! ### Accepted shares -/

/-- The accepted shares counted for a client in one place of the table. -/
def acceptedAt (clients : List ClientStats) (i : ℕ) (ip : Ip) : UInt64 :=
  match clients[i]? with
  | some c => if c.ip = ip then c.sharesAccepted else 0
  | none => 0

/-- Some client has an accepted share more. -/
def CountsAccepted (before after : List ClientStats) : Prop :=
  ∃ i ip, acceptedAt after i ip ≠ acceptedAt before i ip ∧ acceptedAt after i ip ≠ 0

/-- A look-up changes no entry, but may write a fresh one. -/
theorem getElem?_getOrCreateClient (now : Int64) (clients : List ClientStats) (ip : Ip) (i : ℕ) :
    (getOrCreateClient now clients ip).1[i]? = clients[i]? ∨
      (getOrCreateClient now clients ip).1[i]? = some (.fresh now ip) := by
  unfold getOrCreateClient
  split
  · exact .inl rfl
  · split
    · split
      · next j _ =>
        by_cases hj : j = i
        · subst hj
          by_cases hlt : j < clients.length
          · exact .inr (List.getElem?_set_self hlt)
          · rw [List.set_eq_of_length_le (by omega)]
            exact .inl rfl
        · exact .inl (List.getElem?_set_ne hj)
      · exact .inl rfl
    · rcases lt_trichotomy i clients.length with h | h | h
      · exact .inl (List.getElem?_append_left h)
      · exact .inr (by simp [h])
      · exact .inl (by simp [List.getElem?_eq_none, h.le, Nat.succ_le_of_lt h])

theorem not_countsAccepted_iff {before after : List ClientStats} :
    ¬ CountsAccepted before after ↔
      ∀ i ip, acceptedAt after i ip = acceptedAt before i ip ∨ acceptedAt after i ip = 0 := by
  unfold CountsAccepted
  push Not
  refine ⟨?_, ?_⟩
  · intro h i ip
    by_cases heq : acceptedAt after i ip = acceptedAt before i ip
    · exact .inl heq
    · exact .inr (h i ip heq)
  · intro h i ip hne
    exact (h i ip).resolve_left hne

theorem not_countsAccepted_self (clients : List ClientStats) : ¬ CountsAccepted clients clients :=
  not_countsAccepted_iff.mpr fun _ _ => .inl rfl

theorem not_countsAccepted_trans {a b c : List ClientStats} (hab : ¬ CountsAccepted a b)
    (hbc : ¬ CountsAccepted b c) : ¬ CountsAccepted a c := by
  rw [not_countsAccepted_iff] at hab hbc ⊢
  intro i ip
  rcases hbc i ip with h | h
  · rw [h]
    exact hab i ip
  · exact .inr h

/-- A look-up counts nothing. -/
theorem not_countsAccepted_getOrCreate (now : Int64) (clients : List ClientStats) (ip : Ip) :
    ¬ CountsAccepted clients (getOrCreateClient now clients ip).1 := by
  rw [not_countsAccepted_iff]
  intro i ip'
  rcases getElem?_getOrCreateClient now clients ip i with h | h
  · exact .inl (by rw [acceptedAt, h, acceptedAt])
  · refine .inr ?_
    rw [acceptedAt, h]
    exact ite_self 0

/-- A rejected share is no accepted one. -/
theorem not_countsAccepted_rejected (now : Int64) (clients : List ClientStats) (ip : Ip) :
    ¬ CountsAccepted clients (updateHashrate now clients ip false) := by
  apply not_countsAccepted_trans (not_countsAccepted_getOrCreate now clients ip)
  rw [not_countsAccepted_iff]
  intro i ip'
  refine .inl ?_
  unfold updateHashrate
  cases hplace : (getOrCreateClient now clients ip).2 with
  | none => simp only [hplace]
  | some j =>
    simp only [hplace, acceptedAt, List.getElem?_modify]
    cases (getOrCreateClient now clients ip).1[i]? with
    | none => rfl
    | some c =>
      -- the counters of the entry differ in the rejected shares only
      by_cases hj : j = i
      · simp [hj, ClientStats.count]
      · simp [hj]

end Mining

end TollGate
