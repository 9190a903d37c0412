import TollGate.Mining.Pow

/-!
# Difficulty

Two numbers stand for how hard a share is to find, and the code goes both ways between
a difficulty and a target.

`tollgate_core_mining_nbits_to_difficulty` is to divide the largest target by the target
of the compact bits. It forms the target in 64 bits. A target for which the difficulty
fits in 64 bits has more than 144 bits (`InRange.exponent_le`), so that the shift is by more than
its operand is wide, which C leaves open. No reading of it gives the difficulty for all
of them, and none gives a difficulty above `0xFFFF0000`.

`build_target_from_difficulty` puts three ranges of the difficulty together
(`beNat_buildTarget`). The target falls with the difficulty inside each, and not across the
two seams.
-/

namespace TollGate

namespace Mining

/-! ### From compact bits to a difficulty -/

/-- `x << count` of a `uint64_t`. C says nothing of a shift by 64 bits or more: `wide` is what
becomes of it. -/
def shiftLeft64 (wide : UInt64 → ℕ → UInt64) (x : UInt64) (count : ℕ) : UInt64 :=
  if count < 64 then x <<< UInt64.ofNat count else wide x count

/-- `tollgate_core_mining_nbits_to_difficulty`. -/
def nbitsToDifficulty (wide : UInt64 → ℕ → UInt64) (nbits : UInt32) : UInt64 :=
  if nbits = 0 then 0xFFFFFFFFFFFFFFFF
  else
    let exponent := (nbits >>> 24) &&& 0xFF
    let mantissa := nbits &&& 0x007FFFFF
    if exponent ≤ 3 then
      let mantissa := mantissa >>> (8 * (3 - exponent))
      if mantissa = 0 then 0xFFFFFFFFFFFFFFFF else 0xFFFF0000 / mantissa.toUInt64
    else
      let target := shiftLeft64 wide mantissa.toUInt64 (8 * (exponent - 3)).toNat
      if target = 0 then 0xFFFFFFFFFFFFFFFF
      else
        -- the shift of the target is by zero bits in both cases
        let diff := 0xFFFF0000 / target
        if diff = 0 then 1 else diff

/-- The exponent in compact bits, a number of bytes. -/
def nbitsExponent (nbits : UInt32) : ℕ := nbits.toNat / 2 ^ 24

/-- The mantissa in compact bits. -/
def nbitsMantissa (nbits : UInt32) : ℕ := nbits.toNat % 2 ^ 23

/-- The target that compact bits stand for, rounded down. -/
def compactTarget (nbits : UInt32) : ℕ :=
  nbitsMantissa nbits * 256 ^ nbitsExponent nbits / 256 ^ 3

/-- The difficulty of a target. -/
def difficultyOf (nbits : UInt32) : ℕ := max 1 (0xFFFF * 2 ^ 208 / compactTarget nbits)

/-- The compact bits have a target, and its difficulty fits in 64 bits. -/
structure InRange (nbits : UInt32) : Prop where
  target_ne : compactTarget nbits ≠ 0
  fits : 0xFFFF * 2 ^ 208 / compactTarget nbits < 2 ^ 64

instance (nbits : UInt32) : Decidable (InRange nbits) :=
  decidable_of_iff (compactTarget nbits ≠ 0 ∧ 0xFFFF * 2 ^ 208 / compactTarget nbits < 2 ^ 64)
    ⟨fun h => ⟨h.1, h.2⟩, fun h => ⟨h.1, h.2⟩⟩

theorem toNat_exponent (nbits : UInt32) :
    ((nbits >>> 24) &&& 0xFF).toNat = nbitsExponent nbits := by
  have hlt := nbits.toNat_lt
  rw [UInt32.toNat_and, UInt32.toNat_shiftRight, Nat.shiftRight_eq_div_pow]
  change nbits.toNat / 2 ^ 24 &&& 2 ^ 8 - 1 = _
  rw [Nat.and_two_pow_sub_one_eq_mod, nbitsExponent]
  omega

/-- A difficulty of 64 bits needs a target of more than 144 bits. -/
theorem InRange.target_gt {nbits : UInt32} (h : InRange nbits) :
    0xFFFF * 2 ^ 144 < compactTarget nbits := by
  have hlt := (Nat.div_lt_iff_lt_mul (Nat.pos_of_ne_zero h.target_ne)).mp h.fits
  omega

/-- The mantissa is shifted by 18 bytes or more. -/
theorem InRange.exponent_le {nbits : UInt32} (h : InRange nbits) : 21 ≤ nbitsExponent nbits := by
  by_contra hlow
  have hmantissa : nbitsMantissa nbits < 2 ^ 23 := Nat.mod_lt _ (by norm_num)
  have hpow : 256 ^ nbitsExponent nbits ≤ 256 ^ 20 :=
    Nat.pow_le_pow_right (by norm_num) (by omega)
  have htarget : compactTarget nbits ≤ 2 ^ 23 * 256 ^ 20 / 256 ^ 3 :=
    Nat.div_le_div_right (Nat.mul_le_mul hmantissa.le hpow)
  have := h.target_gt
  omega

theorem InRange.difficultyOf_lt {nbits : UInt32} (h : InRange nbits) :
    difficultyOf nbits < 2 ^ 64 - 1 := by
  -- the target is a multiple of `2 ^ 144`, and so it is at least the next one
  obtain ⟨k, hk⟩ := Nat.exists_eq_add_of_le h.exponent_le
  have hsplit : nbitsMantissa nbits * 256 ^ nbitsExponent nbits =
      nbitsMantissa nbits * 256 ^ k * 2 ^ 144 * 256 ^ 3 := by
    rw [hk, pow_add]
    ring
  have htarget : compactTarget nbits = nbitsMantissa nbits * 256 ^ k * 2 ^ 144 := by
    rw [compactTarget, hsplit, Nat.mul_div_cancel _ (by norm_num)]
  have hgt := h.target_gt
  have hnext : 0x10000 * 2 ^ 144 ≤ compactTarget nbits := by
    rw [htarget] at hgt ⊢
    exact Nat.mul_le_mul_right _ (Nat.lt_of_mul_lt_mul_right hgt)
  have hquotient : 0xFFFF * 2 ^ 208 / compactTarget nbits ≤
      0xFFFF * 2 ^ 208 / (0x10000 * 2 ^ 144) :=
    Nat.div_le_div_left hnext (by norm_num)
  unfold difficultyOf
  omega

/-- In range, the result comes of the wide shift alone. -/
theorem nbitsToDifficulty_eq {nbits : UInt32} (h : InRange nbits)
    (wide : UInt64 → ℕ → UInt64) :
    nbitsToDifficulty wide nbits =
      let target := wide (nbits &&& 0x007FFFFF).toUInt64 (8 * (nbitsExponent nbits - 3))
      if target = 0 then 0xFFFFFFFFFFFFFFFF
      else if 0xFFFF0000 / target = 0 then 1 else 0xFFFF0000 / target := by
  have hexponent := h.exponent_le
  have htoNat := toNat_exponent nbits
  have hlt : nbitsExponent nbits < 2 ^ 8 := by
    have := nbits.toNat_lt
    unfold nbitsExponent
    omega
  have hzero : nbits ≠ 0 := by
    rintro rfl
    exact absurd hexponent (by decide)
  have hhigh : ¬ (nbits >>> 24) &&& 0xFF ≤ 3 := by
    rw [UInt32.le_iff_toNat_le, htoNat]
    change ¬ nbitsExponent nbits ≤ 3
    omega
  have hcount : ((8 : UInt32) * (((nbits >>> 24) &&& 0xFF) - 3)).toNat =
      8 * (nbitsExponent nbits - 3) := by
    have hsub : (3 : UInt32) ≤ (nbits >>> 24) &&& 0xFF := by
      rw [UInt32.le_iff_toNat_le, htoNat]
      change 3 ≤ nbitsExponent nbits
      omega
    rw [UInt32.toNat_mul, UInt32.toNat_sub_of_le _ _ hsub, htoNat]
    change 8 * (nbitsExponent nbits - 3) % 2 ^ 32 = _
    omega
  simp only [nbitsToDifficulty, if_neg hzero, if_neg hhigh, hcount, shiftLeft64,
    if_neg (show ¬ 8 * (nbitsExponent nbits - 3) < 64 by omega)]

/-- Whatever the wide shift gives, the result is small or the mark for no target. -/
theorem nbitsToDifficulty_le {nbits : UInt32} (h : InRange nbits)
    (wide : UInt64 → ℕ → UInt64) :
    (nbitsToDifficulty wide nbits).toNat ≤ 0xFFFF0000 ∨
      (nbitsToDifficulty wide nbits).toNat = 2 ^ 64 - 1 := by
  rw [nbitsToDifficulty_eq h]
  dsimp only
  split
  · exact .inr rfl
  · refine .inl ?_
    split
    · decide
    · rw [UInt64.toNat_div]
      exact Nat.div_le_self _ _

/-- **The difficulty of compact bits is never what C promises.** And where it is above
`0xFFFF0000`, as on the network, no reading of the wide shift gives it. -/
theorem nbitsToDifficulty_ne {nbits : UInt32} (h : InRange nbits) :
    (¬ ∀ wide, (nbitsToDifficulty wide nbits).toNat = difficultyOf nbits) ∧
      (0xFFFF0000 < difficultyOf nbits →
        ∀ wide, (nbitsToDifficulty wide nbits).toNat ≠ difficultyOf nbits) := by
  have hlt := h.difficultyOf_lt
  refine ⟨fun hall => ?_, fun hlarge wide heq => ?_⟩
  · -- a processor that shifts everything out
    have hnone := hall fun _ _ => 0
    rw [nbitsToDifficulty_eq h] at hnone
    change 2 ^ 64 - 1 = _ at hnone
    omega
  · rcases nbitsToDifficulty_le h wide with hle | hmax <;> omega

/-- The bits of difficulty one, with a processor that shifts everything out. -/
theorem nbitsToDifficulty_ne_one :
    InRange 0x1d00ffff ∧
      ¬ ∀ wide, (nbitsToDifficulty wide 0x1d00ffff).toNat = difficultyOf 0x1d00ffff :=
  ⟨by decide, (nbitsToDifficulty_ne (by decide)).1⟩

/-- The bits of a block of the network, as the tests have them. -/
theorem nbitsToDifficulty_mainnet :
    InRange 0x170309E2 ∧
      ∀ wide, (nbitsToDifficulty wide 0x170309E2).toNat ≠ difficultyOf 0x170309E2 := by
  have hrange : InRange 0x170309E2 := by decide
  have hlarge : 0xFFFF0000 < difficultyOf 0x170309E2 := by decide
  refine ⟨hrange, fun wide heq => ?_⟩
  have hlt := hrange.difficultyOf_lt
  rcases nbitsToDifficulty_le hrange wide with hle | hmax <;> omega

/-! ### From a difficulty to a target -/

/-- The quotient as exact integer division, cut to 64 bits. -/
def exactQuotient (diff : ℚ) : UInt64 := UInt64.ofNat ⌊pdiffMax / diff⌋₊

/-- The target for a difficulty, by the ranges of the code. -/
def targetOf (d : ℕ) : ℕ :=
  if 10 ^ 15 < d then 2 ^ 256 - 1
  else if 0xFFFF0000 ≤ d then 0xFF * 256 ^ 24
  else 0xFFFF0000 / d * 256 ^ 24

theorem toNat_exactQuotient (d : ℕ) :
    (exactQuotient d).toNat = 0xFFFF0000 / d := by
  have hfloor : ⌊pdiffMax / (d : ℚ)⌋₊ = 0xFFFF0000 / d := by
    have := Nat.floor_div_eq_div (K := ℚ) 0xFFFF0000 d
    rwa [Nat.cast_ofNat] at this
  have hle : 0xFFFF0000 / d ≤ 0xFFFF0000 := Nat.div_le_self _ _
  rw [exactQuotient, hfloor, UInt64.toNat_ofNat']
  omega

/-- The bytes of the target are the number. -/
theorem beNat_buildTarget {d : ℕ} (hd : 0 < d) :
    beNat (buildTargetFromDifficulty exactQuotient d) = targetOf d := by
  have hpos : ¬ (d : ℚ) ≤ 0 := not_le.mpr (by exact_mod_cast hd)
  have hhigh : (d : ℚ) > 10 ^ 15 ↔ 10 ^ 15 < d := by
    rw [gt_iff_lt]
    exact_mod_cast Iff.rfl
  have hmiddle : (d : ℚ) ≥ pdiffMax ↔ 0xFFFF0000 ≤ d := by
    rw [ge_iff_le, pdiffMax]
    exact_mod_cast Iff.rfl
  simp only [buildTargetFromDifficulty, targetOf, hpos, hhigh, hmiddle, false_or]
  split
  · decide
  split
  · decide
  · rename_i hlow
    -- below the largest target the quotient is not zero
    have hquotient : 0 < 0xFFFF0000 / d := Nat.div_pos (by omega) hd
    have hne : exactQuotient d ≠ 0 := by
      intro hzero
      have := toNat_exactQuotient d
      rw [hzero, UInt64.toNat_zero] at this
      omega
    rw [if_neg hne, beNat_append, beNat_be64, beNat_replicate_zero, List.length_replicate,
      toNat_exactQuotient, Nat.add_zero]

/-- Where the higher of two difficulties has the lower target. -/
theorem targetOf_le_iff {d₁ d₂ : ℕ} (hd : 0 < d₁) (hle : d₁ ≤ d₂) :
    targetOf d₂ ≤ targetOf d₁ ↔
      d₂ < 0xFFFF0000 ∨ 10 ^ 15 < d₁ ∨
        d₂ ≤ 10 ^ 15 ∧ (0xFFFF0000 ≤ d₁ ∨ 255 * d₁ ≤ 0xFFFF0000) := by
  have hpos : 0 < 256 ^ 24 := by norm_num
  have hquotient : 0xFFFF0000 / d₁ ≤ 0xFFFF0000 := Nat.div_le_self _ _
  unfold targetOf
  by_cases hhigh : 10 ^ 15 < d₂
  · have hlow : d₂ < 0xFFFF0000 ↔ False := iff_of_false (by omega) id
    have hnot : d₂ ≤ 10 ^ 15 ↔ False := iff_of_false (by omega) id
    simp only [hhigh, if_true, hlow, hnot, false_or, false_and, or_false]
    by_cases hhigh' : 10 ^ 15 < d₁
    · simp only [hhigh', if_true, le_refl]
    · -- all hashes are accepted at `d₂` and not at `d₁`
      have hall : 0xFFFF0000 * 256 ^ 24 < 2 ^ 256 - 1 := by norm_num
      simp only [hhigh', if_false, iff_false, not_le]
      split
      · exact lt_of_le_of_lt (Nat.mul_le_mul_right _ (by norm_num)) hall
      · exact lt_of_le_of_lt (Nat.mul_le_mul_right _ hquotient) hall
  · have hhigh' : ¬ 10 ^ 15 < d₁ := by omega
    have hle' : d₂ ≤ 10 ^ 15 := by omega
    simp only [hhigh, hhigh', hle', if_false, false_or, true_and]
    by_cases hmiddle : 0xFFFF0000 ≤ d₂
    · have hlow : d₂ < 0xFFFF0000 ↔ False := iff_of_false (by omega) id
      simp only [hmiddle, hlow, if_true, false_or]
      by_cases hmiddle' : 0xFFFF0000 ≤ d₁
      · simp only [hmiddle', if_true, le_refl, true_or]
      · -- the seam between the quotient and the constant
        simp only [hmiddle', if_false, false_or]
        rw [Nat.mul_le_mul_right_iff hpos, Nat.le_div_iff_mul_le hd]
    · have hmiddle' : ¬ 0xFFFF0000 ≤ d₁ := by omega
      simp only [hmiddle, hmiddle', if_false, not_le.mp hmiddle, true_or, iff_true]
      exact Nat.mul_le_mul_right _ (Nat.div_le_div_left hle hd)

/-- One target admits all that another does exactly if it is not the smaller number. -/
theorem checkPow_imp_iff {target₁ target₂ : List UInt8} (hlen₁ : target₁.length = 32)
    (hlen₂ : target₂.length = 32) :
    (∀ sha256d header, checkPow sha256d header target₂ 32 = true →
        checkPow sha256d header target₁ 32 = true) ↔
      beNat target₂ ≤ beNat target₁ := by
  refine ⟨fun hall => ?_, fun hle sha256d header h => ?_⟩
  · -- a hash that is the target itself
    have hhash := hall (fun _ => ⟨target₂.reverse.toArray, by simp [hlen₂]⟩) []
    rw [checkPow_iff _ _ hlen₁, checkPow_iff _ _ hlen₂] at hhash
    simpa using hhash
  · rw [checkPow_iff _ _ hlen₂] at h
    rw [checkPow_iff _ _ hlen₁]
    exact h.trans hle

/-- **Harder means smaller, away from the seams.** For difficulties of one range the target
falls, and so does what it admits. Above the largest target the constant exceeds most of the
quotients below it, and above `10 ^ 15` every hash is admitted. -/
theorem buildTarget_antitone_iff {d₁ d₂ : ℕ} (hd : 0 < d₁) (hle : d₁ ≤ d₂) :
    (beNat (buildTargetFromDifficulty exactQuotient d₂) ≤
        beNat (buildTargetFromDifficulty exactQuotient d₁) ∧
      ∀ sha256d header,
        checkPow sha256d header (buildTargetFromDifficulty exactQuotient d₂) 32 = true →
          checkPow sha256d header (buildTargetFromDifficulty exactQuotient d₁) 32 = true) ↔
      d₂ < 0xFFFF0000 ∨ 10 ^ 15 < d₁ ∨
        d₂ ≤ 10 ^ 15 ∧ (0xFFFF0000 ≤ d₁ ∨ 255 * d₁ ≤ 0xFFFF0000) := by
  rw [checkPow_imp_iff (length_buildTarget _ _) (length_buildTarget _ _), and_self,
    beNat_buildTarget hd, beNat_buildTarget (hd.trans_le hle), targetOf_le_iff hd hle]

theorem buildTarget_antitone_iff_two :
    0 < 1 ∧ 1 ≤ 2 ∧
      beNat (buildTargetFromDifficulty exactQuotient (2 : ℕ)) ≤
        beNat (buildTargetFromDifficulty exactQuotient (1 : ℕ)) :=
  ⟨by decide, by decide, ((buildTarget_antitone_iff (by decide) (by decide)).mpr
    (.inl (by decide))).1⟩

/-- At the first seam the target grows from one to 255. -/
theorem buildTarget_seam :
    beNat (buildTargetFromDifficulty exactQuotient (0xFFFEFFFF : ℕ)) <
      beNat (buildTargetFromDifficulty exactQuotient (0xFFFF0000 : ℕ)) := by
  rw [beNat_buildTarget (by decide), beNat_buildTarget (by decide)]
  decide

end Mining

end TollGate
