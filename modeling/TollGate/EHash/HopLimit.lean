import TollGate.EHash.Relay

/-!
# The hop limit over whole runs

A caller that keeps forwarding the same packet, also after a failed call. The hop
count has eight bits and is incremented before the limit is looked at, on the failing
path too. Up to the wrap the calls that succeed are the ones up to the limit
(`successes_of_no_wrap`). The call that wraps the count back to zero succeeds whatever
the limit is, and then one call more has succeeded than hops were left
(`successes_of_wrap`).
-/

namespace TollGate

namespace EHash

/-- The number of successful calls when a packet is forwarded to one relay after the
other, whatever the calls return. -/
def successes (packet : Option Packet) : List UInt32 → ℕ
  | [] => 0
  | id :: ids =>
    (if (forward packet id).2.isOk then 1 else 0) + successes (forward packet id).1 ids

variable {p : Packet} {id : UInt32} {ids : List UInt32}

/-- The packet after one call, whatever it returned. -/
def Packet.stepped (p : Packet) (id : UInt32) : Packet :=
  { p with hopCount := p.hopCount + 1, senderId := id }

theorem isOk_forward : (forward (some p) id).2.isOk = decide (p.hopCount + 1 ≤ p.maxHops) := by
  unfold forward
  by_cases h : p.hopCount + 1 > p.maxHops
  · have hle : ¬ p.hopCount + 1 ≤ p.maxHops := UInt8.not_le.mpr h
    simp [h, hle, Except.isOk, Except.toBool]
  · have hle : p.hopCount + 1 ≤ p.maxHops := UInt8.not_lt.mp h
    simp [h, hle, Except.isOk, Except.toBool]

theorem successes_cons :
    successes (some p) (id :: ids) =
      (if (p.hopCount + 1).toNat ≤ p.maxHops.toNat then 1 else 0) +
        successes (some (p.stepped id)) ids := by
  rw [successes, isOk_forward]
  simp only [decide_eq_true_eq, UInt8.le_iff_toNat_le]
  rfl

/-- The count goes up by one below its end, and from there to zero. -/
theorem toNat_add_one (h : UInt8) :
    (h + 1).toNat = if h.toNat = 255 then 0 else h.toNat + 1 := by
  have hlt := h.toNat_lt
  rw [UInt8.toNat_add, UInt8.toNat_one]
  split <;> omega

theorem toNat_hopCount_stepped (h : p.hopCount.toNat ≠ 255) (id : UInt32) :
    (p.stepped id).hopCount.toNat = p.hopCount.toNat + 1 := by
  rw [Packet.stepped, toNat_add_one, if_neg h]

@[simp] theorem maxHops_stepped : (p.stepped id).maxHops = p.maxHops := rfl

/-- As long as the count does not wrap, the calls up to the limit succeed. -/
theorem successes_of_no_wrap (h : p.hopCount.toNat + ids.length < 256) :
    successes (some p) ids = min ids.length (p.maxHops.toNat - p.hopCount.toNat) := by
  -- the packet changes from call to call
  induction ids generalizing p with
  | nil => simp [successes]
  | cons id ids ih =>
    rw [List.length_cons] at h ⊢
    have hlast : p.hopCount.toNat ≠ 255 := by omega
    have hhop := toNat_hopCount_stepped hlast id
    have hrest := ih (p := p.stepped id) (by omega)
    rw [successes_cons, hrest, maxHops_stepped, hhop, toNat_add_one, if_neg hlast]
    -- the call succeeds as long as hops are left
    split <;> omega

/-- A run over the wrap has more successful calls than hops were left. -/
theorem successes_of_wrap (h : 256 ≤ p.hopCount.toNat + ids.length) :
    p.maxHops.toNat - p.hopCount.toNat < successes (some p) ids := by
  have hmaxlt := p.maxHops.toNat_lt
  induction ids generalizing p with
  | nil =>
    have := p.hopCount.toNat_lt
    rw [List.length_nil] at h
    omega
  | cons id ids ih =>
    rw [List.length_cons] at h
    rw [successes_cons, toNat_add_one]
    by_cases hlast : p.hopCount.toNat = 255
    · -- this is the call that wraps, and zero is within every limit
      rw [if_pos hlast, if_pos (Nat.zero_le _)]
      omega
    · -- a call before the wrap, on which one hop is used up
      have hhop := toNat_hopCount_stepped hlast id
      have hrest := ih (p := p.stepped id) (by omega) hmaxlt
      rw [maxHops_stepped, hhop] at hrest
      rw [if_neg hlast]
      split <;> omega

/-- **Exactly when the hop limit bounds a run.** For every packet and every sequence
of calls on it: the hop count does not wrap on the way. -/
theorem hop_limit_iff (p : Packet) (ids : List UInt32) :
    successes (some p) ids ≤ p.maxHops.toNat - p.hopCount.toNat ↔
      p.hopCount.toNat + ids.length < 256 := by
  refine ⟨?_, ?_⟩
  · intro hbound
    by_contra hwrap
    have hwrapped : 256 ≤ p.hopCount.toNat + ids.length := by omega
    have hmore := successes_of_wrap hwrapped
    omega
  · intro h
    rw [successes_of_no_wrap h]
    exact Nat.min_le_right _ _

/-- A packet that was dropped at its limit until its count stood at the last value is
forwarded by the next call. -/
theorem dropped_packet_forwarded :
    ¬ successes (some ⟨2, 255, 4, 0x11112222, 0, none⟩) [0x20000002] ≤ 4 - 255 := by
  decide

end EHash

end TollGate
