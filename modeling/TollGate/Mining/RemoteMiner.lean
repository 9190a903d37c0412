import TollGate.Mining.Http

/-!
# The remote miner's target

`nbits_to_target` and `check_pow` of `remote_miner.c`. The compact form of a target has an
exponent and a mantissa of 23 bits, whose three bytes are put where the exponent says. Those
that come to stand behind the last byte fall away, which is the division with the remainder
dropped (`beNat_nbitsToTarget`).
-/

namespace TollGate

namespace Mining

namespace RemoteMiner

/-! ### The source operations -/

/-- `sha256d`, over `mbedtls_sha256`. -/
def sha256d (sha256 : List UInt8 → Vector UInt8 32) (data : List UInt8) : Vector UInt8 32 :=
  sha256 (sha256 data).toList

/-- `check_pow`. -/
def checkPow (sha256d : List UInt8 → Vector UInt8 32) (header target : List UInt8)
    (targetLen : ℕ) : Bool :=
  leLoop ((sha256d header).toList.reverse.take targetLen) (target.take targetLen)

/-- `exp` of `nbits_to_target`. -/
def exponent (nbits : UInt32) : ℕ := ((nbits >>> 24) &&& 0xFF).toNat

/-- `mantissa` of `nbits_to_target`. -/
def mantissa (nbits : UInt32) : UInt32 := nbits &&& 0x007FFFFF

/-! ### The target as a number -/

/-- The three bytes that are put into the target. -/
def mantissaBytes (nbits : UInt32) : List UInt8 :=
  [(mantissa nbits >>> 16).toUInt8, (mantissa nbits >>> 8).toUInt8,
    (mantissa nbits >>> 0).toUInt8]

theorem beNat_mantissaBytes (nbits : UInt32) :
    beNat (mantissaBytes nbits) = (mantissa nbits).toNat := by
  have hlt : (mantissa nbits).toNat < 2 ^ 23 := by
    rw [mantissa, UInt32.toNat_and]
    exact Nat.and_lt_two_pow _ (by decide)
  simp only [mantissaBytes, beNat, List.length_cons, List.length_nil, UInt32.toNat_toUInt8,
    UInt32.toNat_shiftRight, Nat.shiftRight_eq_div_pow, UInt32.reduceToNat, Nat.reduceMod]
  omega

/-- The target is the front of a longer string, in which the three bytes have room. -/
theorem nbitsToTarget_eq_take (nbits : UInt32) :
    (nbitsToTarget nbits).toList =
      (List.replicate (32 - exponent nbits) 0 ++
        (mantissaBytes nbits ++ List.replicate (exponent nbits) 0)).take 32 := by
  have hbytes : ∀ k < 3, (mantissa nbits >>> UInt32.ofNat (8 * (2 - k))).toUInt8 =
      (mantissaBytes nbits)[k]?.getD 0 := by
    intro k hk
    interval_cases k <;> rfl
  refine List.ext_getElem ?_ fun j hj hj' => ?_
  · simp only [Vector.length_toList, List.length_take, List.length_append, List.length_replicate,
      mantissaBytes, List.length_cons, List.length_nil]
    omega
  · rw [Vector.length_toList] at hj
    rw [Vector.getElem_toList, List.getElem_take]
    simp only [nbitsToTarget, Vector.getElem_ofFn]
    rw [← exponent, ← mantissa]
    -- a byte before the mantissa, one of its three, or one behind it
    by_cases hbefore : j < 32 - exponent nbits
    · rw [if_neg (by omega), List.getElem_append_left (by simpa using hbefore),
        List.getElem_replicate]
    · rw [List.getElem_append_right (by simpa using Nat.le_of_not_lt hbefore)]
      obtain ⟨k, rfl⟩ := Nat.exists_eq_add_of_le (Nat.le_of_not_lt hbefore)
      simp only [List.length_replicate, Nat.add_sub_cancel_left]
      by_cases hk : k < 3
      · have hlt : k < (mantissaBytes nbits).length := hk
        rw [if_pos (by omega), hbytes k hk, List.getElem_append_left hlt,
          List.getElem?_eq_getElem hlt, Option.getD_some]
      · have hge : (mantissaBytes nbits).length ≤ k := Nat.le_of_not_lt hk
        rw [if_neg (by omega), List.getElem_append_right hge, List.getElem_replicate]

/-- An exponent above 32 counts as 32. -/
theorem beNat_nbitsToTarget (nbits : UInt32) :
    beNat (nbitsToTarget nbits).toList =
      (mantissa nbits).toNat * 256 ^ min (exponent nbits) 32 / 256 ^ 3 := by
  have hzeros : beNat (List.replicate (32 - exponent nbits) 0 ++
      (mantissaBytes nbits ++ List.replicate (exponent nbits) 0)) =
        (mantissa nbits).toNat * 256 ^ exponent nbits := by
    rw [beNat_append, beNat_append, beNat_replicate_zero, beNat_replicate_zero,
      beNat_mantissaBytes, Nat.zero_mul, Nat.zero_add, Nat.add_zero, List.length_replicate]
  -- so many bytes come to stand behind the target
  have hlength : (List.replicate (32 - exponent nbits) (0 : UInt8) ++
      (mantissaBytes nbits ++ List.replicate (exponent nbits) 0)).length - 32 =
        exponent nbits - min (exponent nbits) 32 + 3 := by
    simp only [List.length_append, List.length_replicate, mantissaBytes, List.length_cons,
      List.length_nil]
    omega
  have hpow : 256 ^ exponent nbits = 256 ^ min (exponent nbits) 32 *
      256 ^ (exponent nbits - min (exponent nbits) 32) := by
    rw [← pow_add, Nat.add_sub_cancel' (min_le_left _ _)]
  -- what an exponent has above 32 is added in front and falls away behind
  rw [nbitsToTarget_eq_take, beNat_take, hzeros, hlength, pow_add, hpow, ← Nat.mul_assoc,
    ← Nat.div_div_eq_div_mul, Nat.mul_div_cancel _ (by positivity)]

/-- The scaling by a power of 256 that may be a fraction. -/
theorem floor_scaled (m e : ℕ) :
    ⌊(m : ℚ) * 256 ^ ((e : ℤ) - 3)⌋ = ((m * 256 ^ e / 256 ^ 3 : ℕ) : ℤ) := by
  have hscale : (m : ℚ) * 256 ^ ((e : ℤ) - 3) =
      ((m * 256 ^ e : ℕ) : ℚ) / ((256 ^ 3 : ℕ) : ℚ) := by
    rw [zpow_sub₀ (by norm_num), mul_div_assoc']
    push_cast
    norm_cast
  rw [hscale, Rat.floor_natCast_div_natCast]
  rfl

/-- **The compact form is expanded exactly**, also where bytes of the mantissa fall away. -/
theorem beNat_nbitsToTarget_eq_floor (nbits : UInt32) (h : exponent nbits ≤ 32) :
    (beNat (nbitsToTarget nbits).toList : ℤ) =
      ⌊((mantissa nbits).toNat : ℚ) * 256 ^ ((exponent nbits : ℤ) - 3)⌋ := by
  rw [beNat_nbitsToTarget, floor_scaled, min_eq_left h]

theorem nbitsToTarget_two_bytes :
    (nbitsToTarget 0x02123456).toList = List.replicate 30 0 ++ [0x12, 0x34] ∧
      (beNat (nbitsToTarget 0x02123456).toList : ℤ) =
        ⌊((mantissa 0x02123456).toNat : ℚ) * 256 ^ ((exponent 0x02123456 : ℤ) - 3)⌋ :=
  ⟨by decide, beNat_nbitsToTarget_eq_floor 0x02123456 (by decide)⟩

/-! ### The two checks -/

theorem checkPow_eq : RemoteMiner.checkPow = Mining.checkPow := rfl

end RemoteMiner

/-- **The byte loops compare numbers**: the hash from its least significant byte on, the target
from its most significant one on, in the proxy and in the remote miner. -/
theorem both_checkPow_iff (sha256d : List UInt8 → Vector UInt8 32) (header : List UInt8)
    (target : Vector UInt8 32) :
    (checkPow sha256d header target.toList 32 = true ↔
        leNat (sha256d header).toList ≤ beNat target.toList) ∧
      (RemoteMiner.checkPow sha256d header target.toList 32 = true ↔
        leNat (sha256d header).toList ≤ beNat target.toList) := by
  have hproxy : checkPow sha256d header target.toList 32 = true ↔
      leNat (sha256d header).toList ≤ beNat target.toList := by
    rw [leNat_eq]
    exact checkPow_iff sha256d header target.size_toArray
  exact ⟨hproxy, RemoteMiner.checkPow_eq ▸ hproxy⟩

/-- A share of the remote miner meets the compact bits of its job. -/
theorem RemoteMiner.checkPow_nbitsToTarget_iff (sha256 : List UInt8 → Vector UInt8 32)
    (job : RemoteJob) (nonce : UInt32) :
    checkPow (sha256d sha256) (remoteHeader job nonce) (nbitsToTarget job.nbits).toList 32 = true ↔
      leNat (sha256d sha256 (remoteHeader job nonce)).toList ≤
        (mantissa job.nbits).toNat * 256 ^ min (exponent job.nbits) 32 / 256 ^ 3 := by
  rw [checkPow_eq, checkPow_iff _ _ Vector.length_toList, ← leNat_eq,
    beNat_nbitsToTarget]

end Mining

end TollGate
