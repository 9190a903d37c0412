import TollGate.Mining.Header

/-!
# Proof of work

`build_target_from_difficulty` and `check_pow` of the stratum proxy. The target is a
number of 256 bits, written most significant byte first, the hash is read least
significant byte first, and the two are compared byte by byte
(`checkPow_iff`).

The difficulty is a floating point number. The model reads it as a rational and
takes the one quotient that is formed of it, cut to 64 bits, as a parameter.
-/

namespace TollGate

namespace Mining

/-- `pdiff_max`. -/
def pdiffMax : ℚ := 0xFFFF0000

/-- `build_target_from_difficulty`, where `quotient` is `(uint64_t)(pdiff_max / diff)`. Its
`target_len` is always 32. -/
def buildTargetFromDifficulty (quotient : ℚ → UInt64) (diff : ℚ) : List UInt8 :=
  if diff ≤ 0 ∨ diff > 10 ^ 15 then List.replicate 32 0xFF
  else if diff ≥ pdiffMax then List.replicate 7 0 ++ 0xFF :: List.replicate 24 0
  else
    let targetVal := if quotient diff = 0 then 1 else quotient diff
    be64 targetVal ++ List.replicate 24 0

/-- The loop of `check_pow`. -/
def leLoop : List UInt8 → List UInt8 → Bool
  | a :: as, b :: bs => if a < b then true else if a > b then false else leLoop as bs
  | _, _ => true

/-- `check_pow`, for the double hash as a function of the header. -/
def checkPow (sha256d : List UInt8 → Vector UInt8 32) (header target : List UInt8)
    (targetLen : ℕ) : Bool :=
  leLoop ((sha256d header).toList.reverse.take targetLen) (target.take targetLen)

@[simp] theorem length_buildTarget (quotient : ℚ → UInt64) (diff : ℚ) :
    (buildTargetFromDifficulty quotient diff).length = 32 := by
  unfold buildTargetFromDifficulty
  split
  · rfl
  · split <;> rfl

/-- The loop compares numbers. -/
theorem leLoop_iff {as bs : List UInt8} (hlen : as.length = bs.length) :
    leLoop as bs = true ↔ beNat as ≤ beNat bs := by
  induction as generalizing bs with
  | nil =>
    obtain rfl : bs = [] := List.length_eq_zero_iff.mp hlen.symm
    simp [leLoop, beNat]
  | cons a as ih =>
    cases bs with
    | nil => exact absurd hlen (Nat.succ_ne_zero _)
    | cons b bs =>
      rw [List.length_cons, List.length_cons, Nat.succ_inj] at hlen
      rw [beNat_cons_le_iff hlen, leLoop, ← ih hlen]
      simp only [gt_iff_lt, UInt8.lt_iff_toNat_lt, ← UInt8.toNat_inj]
      rcases lt_trichotomy a.toNat b.toNat with h | h | h
      · simp [h]
      · simp [h]
      · simp [h, h.asymm, h.ne']

/-- **The check is the comparison of the numbers.** -/
theorem checkPow_iff (sha256d : List UInt8 → Vector UInt8 32) (header : List UInt8)
    {target : List UInt8} (hlen : target.length = 32) :
    checkPow sha256d header target 32 = true ↔
      beNat (sha256d header).toList.reverse ≤ beNat target := by
  have hhash : (sha256d header).toList.reverse.length = 32 := by simp
  unfold checkPow
  rw [List.take_of_length_le hhash.le, List.take_of_length_le hlen.le, leLoop_iff (by omega)]

end Mining

end TollGate
