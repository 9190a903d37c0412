import Mathlib

/-!
# Cyclic redundancy checks

A CRC register of `w` bits that reads a bit string, most significant bit first:
the incoming bit is added to the top bit and the register is shifted, with the
polynomial added when a bit falls out (`Crc.feed`). Nothing is reflected and there
is no final addition.

The register is linear in its state and its input (`Crc.feedBits_xor`). When the
polynomial has its constant term, the shift is injective, so a state is never lost
(`Crc.feedBits_injective`). Two facts follow for bit strings of any length:

* `Crc.feedBits_codeword`: a string followed by `w` bits takes the register to zero
  exactly when these bits are what the register held after the string;
* `Crc.feedBits_burst_ne_zero`: a nonzero string whose ones lie within `w`
  consecutive places never takes the zero register to zero. A burst of at most `w`
  bits is therefore always detected.
-/

namespace Crc

variable {w : ℕ}

/-- One shift of the register. -/
def shift (poly s : BitVec w) : BitVec w :=
  if s.msb then (s <<< 1) ^^^ poly else s <<< 1

/-- The register with one bit in its top place. -/
def topBit (w : ℕ) (b : Bool) : BitVec w := if b then BitVec.twoPow w (w - 1) else 0#w

/-- The register reads one bit. -/
def feed (poly s : BitVec w) (b : Bool) : BitVec w := shift poly (s ^^^ topBit w b)

/-- The register reads a bit string. -/
def feedBits (poly s : BitVec w) (bits : List Bool) : BitVec w := bits.foldl (feed poly) s

variable {poly : BitVec w}

@[simp] theorem feedBits_nil (s : BitVec w) : feedBits poly s [] = s := rfl

@[simp] theorem feedBits_cons (s : BitVec w) (b : Bool) (bits : List Bool) :
    feedBits poly s (b :: bits) = feedBits poly (feed poly s b) bits := rfl

theorem feedBits_append (s : BitVec w) (bits bits' : List Bool) :
    feedBits poly s (bits ++ bits') = feedBits poly (feedBits poly s bits) bits' :=
  List.foldl_append

/-! ### Linearity -/

theorem shift_xor (s t : BitVec w) : shift poly (s ^^^ t) = shift poly s ^^^ shift poly t := by
  unfold shift
  rw [BitVec.msb_xor, BitVec.shiftLeft_xor_distrib]
  cases s.msb with
  | false => cases t.msb <;> simp [BitVec.xor_assoc]
  | true =>
    cases t.msb with
    | false => simp [BitVec.xor_assoc, BitVec.xor_comm poly]
    | true =>
      -- the polynomial is added twice and cancels
      have hcancel : (s <<< 1 ^^^ poly) ^^^ (t <<< 1 ^^^ poly) = s <<< 1 ^^^ t <<< 1 := by
        rw [BitVec.xor_comm (t <<< 1), BitVec.xor_assoc, ← BitVec.xor_assoc poly,
          BitVec.xor_self, BitVec.zero_xor]
      simp [hcancel]

@[simp] theorem shift_zero : shift poly 0#w = 0#w := by simp [shift]

theorem topBit_xor (a b : Bool) : topBit w (a ^^ b) = topBit w a ^^^ topBit w b := by
  cases a <;> cases b <;> simp [topBit]

theorem feed_xor (s t : BitVec w) (a b : Bool) :
    feed poly (s ^^^ t) (a ^^ b) = feed poly s a ^^^ feed poly t b := by
  have hswap : s ^^^ t ^^^ (topBit w a ^^^ topBit w b)
      = s ^^^ topBit w a ^^^ (t ^^^ topBit w b) := by
    ac_rfl
  unfold feed
  rw [topBit_xor, hswap, shift_xor]

/-- **Linearity.** The register of a sum is the sum of the registers. -/
theorem feedBits_xor (s t : BitVec w) {bits bits' : List Bool}
    (h : bits.length = bits'.length) :
    feedBits poly (s ^^^ t) (List.zipWith (· ^^ ·) bits bits') =
      feedBits poly s bits ^^^ feedBits poly t bits' := by
  induction bits generalizing s t bits' with
  | nil =>
    obtain rfl : bits' = [] := List.length_eq_zero_iff.mp h.symm
    rfl
  | cons a bits ih =>
    cases bits' with
    | nil => exact absurd h (Nat.succ_ne_zero _)
    | cons b bits' =>
      rw [List.zipWith_cons_cons, feedBits_cons, feed_xor, ih _ _ (Nat.succ.inj h)]
      rfl

/-! ### No state is lost -/

/-- The constant term of the polynomial marks the shifts in which a bit fell out. -/
theorem shift_injective (hpoly : poly.getLsbD 0 = true) : Function.Injective (shift poly) := by
  have hzero : ∀ s : BitVec w, shift poly s = 0#w → s = 0#w := by
    intro s hs
    unfold shift at hs
    split at hs
    · -- the low bit of the sum is the constant term
      have hbit := congrArg (fun x => x.getLsbD 0) hs
      simp [hpoly] at hbit
    · next hmsb =>
      apply BitVec.eq_of_getLsbD_eq
      intro i hi
      have hbit := congrArg (fun x => x.getLsbD (i + 1)) hs
      by_cases htop : i + 1 < w
      · rw [BitVec.getLsbD_shiftLeft, BitVec.getLsbD_zero] at hbit
        simpa [htop] using hbit
      · have hlast : i = w - 1 := by omega
        rw [hlast, ← BitVec.msb_eq_getLsbD_last]
        simpa using hmsb
  intro s t hst
  have hsum : shift poly (s ^^^ t) = 0#w := by rw [shift_xor, hst, BitVec.xor_self]
  exact BitVec.xor_eq_zero_iff.mp (hzero _ hsum)

theorem feedBits_injective (hpoly : poly.getLsbD 0 = true) (bits : List Bool) :
    Function.Injective fun s => feedBits poly s bits := by
  induction bits with
  | nil => exact fun s t h => h
  | cons b bits ih =>
    intro s t h
    have hfeed : feed poly s b = feed poly t b := ih h
    have hsum : s ^^^ topBit w b = t ^^^ topBit w b := shift_injective hpoly hfeed
    exact (BitVec.xor_left_inj _).mp hsum

@[simp] theorem feedBits_zero_replicate (n : ℕ) :
    feedBits poly 0#w (List.replicate n false) = 0#w := by
  induction n with
  | zero => rfl
  | succ n ih =>
    rw [List.replicate_succ, feedBits_cons]
    have hfeed : feed poly 0#w false = 0#w := by simp [feed, topBit]
    rw [hfeed, ih]

/-! ### Short strings -/

/-- A string of at most `w` bits in the top places of a register. -/
def topBits (w : ℕ) : List Bool → BitVec w
  | [] => 0#w
  | b :: bits => topBit w b ^^^ (topBits w bits >>> 1)

/-- The string fills the register from its top. -/
theorem getMsbD_topBits (bits : List Bool) {k : ℕ} (hk : k < w) :
    (topBits w bits).getMsbD k = bits.getD k false := by
  induction bits generalizing k with
  | nil => simp [topBits]
  | cons b bits ih =>
    have htop : (topBit w b).getMsbD k = (b && decide (k = 0)) := by
      cases b with
      | false => simp [topBit]
      | true =>
        have hiff : w - 1 = w - 1 - k ↔ k = 0 := by omega
        have hlt : w - 1 < w := by omega
        simp [topBit, BitVec.getMsbD_eq_getLsbD, BitVec.getLsbD_twoPow, hk, hiff, hlt]
    rw [topBits, BitVec.getMsbD_xor, htop, BitVec.getMsbD_ushiftRight]
    cases k with
    | zero => simp
    | succ k =>
      have hge : ¬ (k + 1 < 1) := by omega
      simp [ih (show k < w by omega), hk]

theorem getLsbD_zero_topBits {bits : List Bool} (h : bits.length < w) :
    (topBits w bits).getLsbD 0 = false := by
  have hlow : (topBits w bits).getMsbD (w - 1) = (topBits w bits).getLsbD 0 := by
    have hw : w - 1 < w := by omega
    simp [BitVec.getMsbD_eq_getLsbD, hw]
  rw [← hlow, getMsbD_topBits bits (by omega), List.getD_eq_default _ _ (by omega)]

/-- A register that was just shifted down comes back. -/
theorem shift_ushiftRight {s : BitVec w} (h : s.getLsbD 0 = false) :
    shift poly (s >>> 1) = s := by
  have hmsb : (s >>> 1).msb = false := by
    rw [BitVec.msb_ushiftRight]
    simp
  unfold shift
  rw [hmsb, if_neg Bool.false_ne_true]
  apply BitVec.eq_of_getLsbD_eq
  intro i hi
  cases i with
  | zero => simp [h]
  | succ i =>
    rw [BitVec.getLsbD_shiftLeft, BitVec.getLsbD_ushiftRight]
    simp [hi, Nat.add_comm]

/-- Reading at most `w` bits is adding them to the top places and shifting. -/
theorem feedBits_eq_iterate (s : BitVec w) {bits : List Bool} (h : bits.length ≤ w) :
    feedBits poly s bits = (shift poly)^[bits.length] (s ^^^ topBits w bits) := by
  induction bits generalizing s with
  | nil => simp [topBits]
  | cons b bits ih =>
    rw [List.length_cons] at h
    have hlow : (topBits w bits).getLsbD 0 = false := getLsbD_zero_topBits (by omega)
    have hstep : feed poly s b ^^^ topBits w bits
        = shift poly (s ^^^ topBits w (b :: bits)) := by
      rw [topBits, ← BitVec.xor_assoc, shift_xor, shift_ushiftRight hlow]
      rfl
    rw [feedBits_cons, ih _ (by omega), hstep, List.length_cons, Function.iterate_succ_apply]

theorem topBits_ne_zero {bits : List Bool} (h : bits.length ≤ w) (hone : true ∈ bits) :
    topBits w bits ≠ 0#w := by
  obtain ⟨k, hk, htrue⟩ := List.mem_iff_getElem.mp hone
  intro hzero
  have hbit := getMsbD_topBits bits (show k < w by omega)
  rw [hzero, List.getD_eq_getElem _ _ hk, htrue] at hbit
  simp at hbit

/-! ### Codewords and bursts -/

/-- The register after a string and `w` more bits is zero exactly when these bits
are what the register held after the string. -/
theorem feedBits_codeword (hpoly : poly.getLsbD 0 = true) (s : BitVec w) (bits check : List Bool)
    (hlen : check.length = w) :
    feedBits poly s (bits ++ check) = 0#w ↔ feedBits poly s bits = topBits w check := by
  have hinj : Function.Injective (shift poly)^[check.length] :=
    (shift_injective hpoly).iterate _
  have hzero : (shift poly)^[check.length] 0#w = 0#w := Function.iterate_fixed shift_zero _
  rw [feedBits_append, feedBits_eq_iterate _ hlen.le]
  refine ⟨?_, ?_⟩
  · intro h
    exact BitVec.xor_eq_zero_iff.mp (hinj (h.trans hzero.symm))
  · intro h
    rw [h, BitVec.xor_self, hzero]

/-- The ones of the string lie within `n` consecutive places. -/
def Within (n : ℕ) (bits : List Bool) : Prop :=
  ∃ k, ∀ i, bits[i]? = some true → k ≤ i ∧ i < k + n

/-- **Burst detection.** A nonzero string whose ones lie within `w` consecutive
places never takes the zero register to zero. -/
theorem feedBits_burst_ne_zero (hpoly : poly.getLsbD 0 = true) {bits : List Bool}
    (hone : true ∈ bits) (hburst : Within w bits) : feedBits poly 0#w bits ≠ 0#w := by
  obtain ⟨k, hk⟩ := hburst
  -- zeros, at most `w` bits with the ones among them, zeros
  have hhead : bits.take k = List.replicate (bits.take k).length false := by
    refine List.eq_replicate_of_mem fun b hb => ?_
    obtain ⟨i, hi, rfl⟩ := List.mem_iff_getElem.mp hb
    by_contra hne
    have htrue : bits[i]? = some true := by
      rw [List.length_take] at hi
      rw [List.getElem?_eq_getElem (by omega), Option.some.injEq]
      simpa using hne
    rw [List.length_take] at hi
    have := (hk i htrue).1
    omega
  have htail : bits.drop (k + w) = List.replicate (bits.drop (k + w)).length false := by
    refine List.eq_replicate_of_mem fun b hb => ?_
    obtain ⟨i, hi, rfl⟩ := List.mem_iff_getElem.mp hb
    by_contra hne
    rw [List.length_drop] at hi
    have htrue : bits[k + w + i]? = some true := by
      rw [List.getElem?_eq_getElem (by omega), Option.some.injEq]
      simpa using hne
    have := (hk _ htrue).2
    omega
  have hsplit : bits = bits.take k ++ ((bits.drop k).take w ++ bits.drop (k + w)) := by
    rw [← List.drop_drop, List.take_append_drop, List.take_append_drop]
  have hmid : true ∈ (bits.drop k).take w := by
    rw [hsplit, hhead, htail] at hone
    simpa using hone
  have hlen : ((bits.drop k).take w).length ≤ w := by
    rw [List.length_take]
    exact min_le_left _ _
  intro hzero
  rw [hsplit, feedBits_append, feedBits_append, hhead, htail, feedBits_zero_replicate] at hzero
  -- the state behind the burst is not zero, and no later zero brings it there
  have hstate : feedBits poly 0#w ((bits.drop k).take w) = 0#w :=
    feedBits_injective hpoly _ (hzero.trans (feedBits_zero_replicate _).symm)
  rw [feedBits_eq_iterate _ hlen, BitVec.zero_xor] at hstate
  have hfixed : (shift poly)^[((bits.drop k).take w).length] 0#w = 0#w :=
    Function.iterate_fixed shift_zero _
  exact topBits_ne_zero hlen hmid
    ((shift_injective hpoly).iterate _ (hstate.trans hfixed.symm))

/-! ### Byte strings -/

/-- The bits of a byte, most significant first. -/
def bitsOfByte (b : UInt8) : List Bool := (List.range 8).map fun i => b.toBitVec.getMsbD i

/-- The bits of a byte string, most significant first. -/
def bitsOf (bytes : List UInt8) : List Bool := bytes.flatMap bitsOfByte

@[simp] theorem length_bitsOfByte (b : UInt8) : (bitsOfByte b).length = 8 := by
  simp [bitsOfByte]

theorem getD_bitsOfByte (b : UInt8) (k : ℕ) :
    (bitsOfByte b).getD k false = b.toBitVec.getMsbD k := by
  by_cases hk : k < 8
  · simp [bitsOfByte, hk]
  · rw [List.getD_eq_default _ _ (by simpa using hk), BitVec.getMsbD_of_ge _ _ (by omega)]

@[simp] theorem length_bitsOf (bytes : List UInt8) :
    (bitsOf bytes).length = 8 * bytes.length := by
  induction bytes with
  | nil => rfl
  | cons b bytes ih =>
    unfold bitsOf at ih ⊢
    rw [List.flatMap_cons, List.length_append, ih, length_bitsOfByte, List.length_cons]
    omega

@[simp] theorem bitsOf_cons (b : UInt8) (bytes : List UInt8) :
    bitsOf (b :: bytes) = bitsOfByte b ++ bitsOf bytes := List.flatMap_cons

@[simp] theorem bitsOf_append (bytes bytes' : List UInt8) :
    bitsOf (bytes ++ bytes') = bitsOf bytes ++ bitsOf bytes' := List.flatMap_append

theorem bitsOfByte_xor (a b : UInt8) :
    bitsOfByte (a ^^^ b) = List.zipWith (· ^^ ·) (bitsOfByte a) (bitsOfByte b) := by
  simp [bitsOfByte, List.zipWith_map, List.zipWith_self]

/-- The bits of a sum of byte strings. -/
theorem bitsOf_xor {bytes bytes' : List UInt8} (h : bytes.length = bytes'.length) :
    bitsOf (List.zipWith (· ^^^ ·) bytes bytes') =
      List.zipWith (· ^^ ·) (bitsOf bytes) (bitsOf bytes') := by
  induction bytes generalizing bytes' with
  | nil => rfl
  | cons a bytes ih =>
    cases bytes' with
    | nil => exact absurd h (Nat.succ_ne_zero _)
    | cons b bytes' =>
      rw [List.zipWith_cons_cons, bitsOf_cons, bitsOf_cons, bitsOf_cons, bitsOfByte_xor,
        ih (Nat.succ.inj h), List.zipWith_append (by simp)]

end Crc
