import Mathlib
import TollGate.Lib.ReedSolomon

/-!
# The field of the error correction

`rs_multiply` multiplies two bytes as polynomials over two elements, modulo `0x11D`. It is additive
in each of its arguments (`rsMultiply_xor_left`), so the laws of a ring need a look only at the
eight bytes that have a single bit (`xor_induction`).

The powers of the root `2` come back to one after 255 steps and not before (`orderOf_root`). So they
are all bytes but zero, each of them has an inverse, and bytes are a field.
-/

namespace TollGate

namespace Qr

/-! ### The arithmetic of the source -/

/-- The double of a polynomial, as the source writes it: `(z << 1) ^ ((z >> 7) * 0x11D)`. It is
reduced by the polynomial of the field when it would become too large. -/
def timesTwo (z : UInt16) : UInt16 := (z <<< 1) ^^^ ((z >>> 7) * 0x11D)

/-- The body of the loop of `rs_multiply`: what is there is doubled, and the first factor added if
the second one has the bit `i`. -/
def rsMultiplyStep (x y : UInt8) (z : UInt16) (i : UInt8) : UInt16 :=
  timesTwo z ^^^ (((y >>> i) &&& 1).toUInt16 * x.toUInt16)

/-- Russian peasant multiplication of two bytes, from the highest bit of the second factor down to
the lowest. -/
def rsMultiply (x y : UInt8) : UInt8 :=
  (([7, 6, 5, 4, 3, 2, 1, 0] : List UInt8).foldl (rsMultiplyStep x y) 0).toUInt8

/-! ### Bytes by their bits -/

/-- A statement about all bytes is one about 256 numbers, so that it can be decided by trying them
all. -/
theorem forall_byte {p : UInt8 → Prop} (h : ∀ n : Fin 256, p (UInt8.ofNat n)) (x : UInt8) :
    p x := by
  have hx := h ⟨x.toNat, x.toNat_lt⟩
  rwa [UInt8.ofNat_toNat] at hx

/-- The part of a byte that is in one bit: the bit itself in its place, or zero. -/
def bitPart (x : UInt8) (i : Fin 8) : UInt8 := x &&& (1 <<< UInt8.ofNat i)

/-- The part of a byte that is in one bit is zero or the byte that has only this bit. -/
theorem bitPart_eq (x : UInt8) :
    ∀ i : Fin 8, bitPart x i = 0 ∨ bitPart x i = 1 <<< UInt8.ofNat i := by
  revert x
  apply forall_byte
  decide +kernel

/-- A byte is the sum of the parts in its eight bits. -/
theorem byte_eq_xor (x : UInt8) :
    x = (List.finRange 8).foldr (fun i y => bitPart x i ^^^ y) 0 := by
  revert x
  apply forall_byte
  decide +kernel

/-- **What holds of the single bits and of sums holds of all bytes.** A law that is additive in one
of its variables is proved in this way with eight cases for it and not with 256. -/
@[elab_as_elim]
theorem xor_induction {motive : UInt8 → Prop} (zero : motive 0)
    (bit : ∀ i : Fin 8, motive (1 <<< UInt8.ofNat i))
    (xor : ∀ x y, motive x → motive y → motive (x ^^^ y)) (x : UInt8) : motive x := by
  rw [byte_eq_xor x]
  induction List.finRange 8 with
  | nil => exact zero
  | cons i is ih =>
    refine xor _ _ ?_ ih
    rcases bitPart_eq x i with hzero | hone
    · rw [hzero]
      exact zero
    · rw [hone]
      exact bit i

/-! ### The product is additive -/

/-- The double of a byte, which is a byte again: the code computes with sixteen bits, but the upper
eight are zero. -/
def double (x : UInt8) : UInt8 := (timesTwo x.toUInt16).toUInt8

/-- The computation with sixteen bits never leaves the lower eight of them. -/
theorem timesTwo_toUInt16 (x : UInt8) : timesTwo x.toUInt16 = (double x).toUInt16 := by
  revert x
  apply forall_byte
  decide +kernel

/-- The highest bit of a byte, shifted down, is zero or one, so the reduction takes place once or
not at all. -/
theorem highBit_eq (x : UInt8) : x.toUInt16 >>> 7 = 0 ∨ x.toUInt16 >>> 7 = 1 := by
  revert x
  apply forall_byte
  decide +kernel

/-- Doubling is additive: a carry out of the byte is replaced by the same polynomial wherever it
comes from. -/
theorem double_xor (x y : UInt8) : double (x ^^^ y) = double x ^^^ double y := by
  have hcarry : (x.toUInt16 >>> 7 ^^^ y.toUInt16 >>> 7) * (0x11D : UInt16) =
      (x.toUInt16 >>> 7) * (0x11D : UInt16) ^^^ (y.toUInt16 >>> 7) * (0x11D : UInt16) := by
    rcases highBit_eq x with hx | hx
    · rcases highBit_eq y with hy | hy
      · rw [hx, hy]
        rfl
      · rw [hx, hy]
        rfl
    · rcases highBit_eq y with hy | hy
      · rw [hx, hy]
        rfl
      · rw [hx, hy]
        rfl
  have hsum : timesTwo (x ^^^ y).toUInt16 = timesTwo x.toUInt16 ^^^ timesTwo y.toUInt16 := by
    simp only [timesTwo, UInt8.toUInt16_xor, UInt16.shiftLeft_xor, UInt16.shiftRight_xor, hcarry]
    ac_rfl
  rw [double, hsum, UInt16.toUInt8_xor]
  rfl

/-- The lowest bit of a byte is zero or one. -/
theorem bit_eq (x : UInt8) : x &&& 1 = 0 ∨ x &&& 1 = 1 := bitPart_eq x 0

/-- The sum that the loop makes: what it has is doubled, and a summand added, for one index after
the other. The factor and the bits of the other factor are only in the summands. -/
def horner (summand : UInt8 → UInt8) (is : List UInt8) (z : UInt8) : UInt8 :=
  is.foldl (fun z i => double z ^^^ summand i) z

/-- When the summands are sums of two, the result is the sum of the two results, because doubling is
additive. Both arguments of the product are additive for this reason. -/
theorem horner_xor {f g h : UInt8 → UInt8} (heq : ∀ i, f i = g i ^^^ h i) (is : List UInt8)
    (z z' : UInt8) : horner f is (z ^^^ z') = horner g is z ^^^ horner h is z' := by
  induction is generalizing z z' with
  | nil => rfl
  | cons i is ih =>
    have hnext : double (z ^^^ z') ^^^ f i = (double z ^^^ g i) ^^^ (double z' ^^^ h i) := by
      rw [double_xor, heq]
      ac_rfl
    show horner f is (double (z ^^^ z') ^^^ f i) = _
    rw [hnext, ih]
    rfl

/-- The loop stays within a byte, and is the sum above with one summand for each bit of the second
factor. -/
theorem rsMultiply_eq (x y : UInt8) :
    rsMultiply x y = horner (fun i => ((y >>> i) &&& 1) * x) [7, 6, 5, 4, 3, 2, 1, 0] 0 := by
  have hstep : ∀ (z i : UInt8), rsMultiplyStep x y z.toUInt16 i =
      (double z ^^^ ((y >>> i) &&& 1) * x).toUInt16 := by
    intro z i
    rw [rsMultiplyStep, timesTwo_toUInt16, UInt8.toUInt16_xor]
    rcases bit_eq (y >>> i) with hzero | hone
    · rw [hzero]
      simp
    · rw [hone]
      simp
  have hfold : ∀ (is : List UInt8) (z : UInt8), is.foldl (rsMultiplyStep x y) z.toUInt16 =
      (horner (fun i => ((y >>> i) &&& 1) * x) is z).toUInt16 := by
    intro is
    induction is with
    | nil => exact fun z => rfl
    | cons i is ih =>
      intro z
      rw [List.foldl_cons, hstep, ih]
      rfl
  rw [rsMultiply]
  exact (congrArg UInt16.toUInt8 (hfold _ 0)).trans (by simp)

/-- The product is additive in its first factor, which is added or left out in each step. -/
theorem rsMultiply_xor_left (x x' y : UInt8) :
    rsMultiply (x ^^^ x') y = rsMultiply x y ^^^ rsMultiply x' y := by
  rw [rsMultiply_eq, rsMultiply_eq, rsMultiply_eq]
  refine horner_xor (fun i => ?_) _ 0 0
  rcases bit_eq (y >>> i) with hzero | hone
  · simp [hzero]
  · simp [hone]

/-- The product is additive in its second factor, whose bits say in which steps the first one is
added. -/
theorem rsMultiply_xor_right (x y y' : UInt8) :
    rsMultiply x (y ^^^ y') = rsMultiply x y ^^^ rsMultiply x y' := by
  rw [rsMultiply_eq, rsMultiply_eq, rsMultiply_eq]
  refine horner_xor (fun i => ?_) _ 0 0
  have hbits : (y ^^^ y') >>> i &&& 1 = (y >>> i &&& 1) ^^^ (y' >>> i &&& 1) := by
    rw [UInt8.shiftRight_xor]
    refine UInt8.toBitVec_inj.1 (BitVec.eq_of_getElem_eq fun k hk => ?_)
    simp [Bool.and_xor_distrib_right]
  rw [hbits]
  rcases bit_eq (y >>> i) with hy | hy
  · simp [hy]
  · rcases bit_eq (y' >>> i) with hy' | hy'
    · simp [hy, hy']
    · simp [hy, hy']

/-! ### The laws -/

/-- Zero times anything is zero. -/
theorem rsMultiply_zero_left (y : UInt8) : rsMultiply 0 y = 0 := by
  have h := rsMultiply_xor_left 0 0 y
  simpa using h

/-- Anything times zero is zero: the first factor is never added. -/
theorem rsMultiply_zero_right (x : UInt8) : rsMultiply x 0 = 0 := by
  have h := rsMultiply_xor_right x 0 0
  simpa using h

/-- The factors may change places, although the loop treats them differently. Both sides are
additive in both, so it is enough to look at pairs of single bits. -/
theorem rsMultiply_comm (x y : UInt8) : rsMultiply x y = rsMultiply y x := by
  induction x using xor_induction with
  | zero => rw [rsMultiply_zero_left, rsMultiply_zero_right]
  | bit i =>
    induction y using xor_induction with
    | zero => rw [rsMultiply_zero_left, rsMultiply_zero_right]
    | bit j =>
      revert i j
      decide +kernel
    | xor y y' hy hy' => rw [rsMultiply_xor_left, rsMultiply_xor_right, hy, hy']
  | xor x x' hx hx' => rw [rsMultiply_xor_left, rsMultiply_xor_right, hx, hx']

/-- One leaves each byte as it is: it is the lowest bit, and is added in the last step. -/
theorem rsMultiply_one (x : UInt8) : rsMultiply x 1 = x := by
  induction x using xor_induction with
  | zero => exact rsMultiply_zero_left 1
  | bit i =>
    revert i
    decide +kernel
  | xor x x' hx hx' => rw [rsMultiply_xor_left, hx, hx']

/-- Products may be taken in any order. Again it is enough to look at single bits, at 512 triples
instead of sixteen millions. -/
theorem rsMultiply_assoc (x y z : UInt8) :
    rsMultiply (rsMultiply x y) z = rsMultiply x (rsMultiply y z) := by
  induction x using xor_induction with
  | zero => rw [rsMultiply_zero_left, rsMultiply_zero_left, rsMultiply_zero_left]
  | bit i =>
    induction y using xor_induction with
    | zero => rw [rsMultiply_zero_right, rsMultiply_zero_left, rsMultiply_zero_right]
    | bit j =>
      induction z using xor_induction with
      | zero => rw [rsMultiply_zero_right, rsMultiply_zero_right, rsMultiply_zero_right]
      | bit k =>
        revert i j k
        decide +kernel
      | xor z z' hz hz' =>
        rw [rsMultiply_xor_right, rsMultiply_xor_right, rsMultiply_xor_right, hz, hz']
    | xor y y' hy hy' =>
      rw [rsMultiply_xor_right, rsMultiply_xor_left, rsMultiply_xor_left,
        rsMultiply_xor_right, hy, hy']
  | xor x x' hx hx' =>
    rw [rsMultiply_xor_left, rsMultiply_xor_left, rsMultiply_xor_left, hx, hx']

/-- A byte, with the arithmetic of the error correction: sums are exclusive ors, and products those
of `rs_multiply`. The structure keeps it apart from the bytes with the arithmetic of the
processor. -/
structure GF256 where
  byte : UInt8
  deriving DecidableEq

namespace GF256

/-- Two elements of the field with the same byte are the same. -/
theorem ext_byte {a b : GF256} (h : a.byte = b.byte) : a = b := by
  cases a
  cases b
  exact congrArg mk h

instance : Zero GF256 := ⟨⟨0⟩⟩
instance : One GF256 := ⟨⟨1⟩⟩
instance : Add GF256 := ⟨fun a b => ⟨a.byte ^^^ b.byte⟩⟩
instance : Mul GF256 := ⟨fun a b => ⟨rsMultiply a.byte b.byte⟩⟩
instance : Neg GF256 := ⟨id⟩

@[simp] theorem byte_zero : (0 : GF256).byte = 0 := rfl

/-- Sums are exclusive ors, so each element is its own opposite. -/
@[simp] theorem byte_add (a b : GF256) : (a + b).byte = a.byte ^^^ b.byte := rfl

/-- Products are those of the source. -/
@[simp] theorem byte_mul (a b : GF256) : (a * b).byte = rsMultiply a.byte b.byte := rfl

instance : CommRing GF256 where
  add_assoc a b c := ext_byte (UInt8.xor_assoc a.byte b.byte c.byte)
  zero_add a := ext_byte UInt8.zero_xor
  add_zero a := ext_byte UInt8.xor_zero
  add_comm a b := ext_byte (UInt8.xor_comm a.byte b.byte)
  left_distrib a b c := ext_byte (rsMultiply_xor_right a.byte b.byte c.byte)
  right_distrib a b c := ext_byte (rsMultiply_xor_left a.byte b.byte c.byte)
  zero_mul a := ext_byte (rsMultiply_zero_left a.byte)
  mul_zero a := ext_byte (rsMultiply_zero_right a.byte)
  mul_assoc a b c := ext_byte (rsMultiply_assoc a.byte b.byte c.byte)
  one_mul a := ext_byte ((rsMultiply_comm 1 a.byte).trans (rsMultiply_one a.byte))
  mul_one a := ext_byte (rsMultiply_one a.byte)
  mul_comm a b := ext_byte (rsMultiply_comm a.byte b.byte)
  neg_add_cancel a := ext_byte UInt8.xor_self
  nsmul := nsmulRec
  zsmul := zsmulRec

/-- Each element is its own opposite, so signs do not matter. -/
@[simp] theorem neg_eq (a : GF256) : -a = a := rfl

/-- Differences are sums, which is why the code has no subtraction. -/
theorem sub_eq_add (a b : GF256) : a - b = a + b := sub_eq_add_neg a b

/-! ### The root -/

/-- The root of the generator, `r = 0x02` in the source: its powers are the roots of all generator
polynomials. -/
def root : GF256 := ⟨2⟩

/-- **The powers of the root come back to one after 255 steps and not before**, which is the largest
order that a byte can have. -/
theorem orderOf_root : orderOf root = 255 := by
  refine orderOf_eq_of_pow_and_pow_div_prime (by omega) (by decide +kernel) fun p hp hdvd => ?_
  have hfactors : p ∣ 3 ∨ p ∣ 5 ∨ p ∣ 17 := by
    rw [show 255 = 3 * (5 * 17) from rfl] at hdvd
    rcases hp.dvd_mul.mp hdvd with h | h
    · exact Or.inl h
    · exact Or.inr (hp.dvd_mul.mp h)
  rcases hfactors with h | h | h
  · rw [(Nat.prime_dvd_prime_iff_eq hp (by norm_num)).mp h]
    decide +kernel
  · rw [(Nat.prime_dvd_prime_iff_eq hp (by norm_num)).mp h]
    decide +kernel
  · rw [(Nat.prime_dvd_prime_iff_eq hp (by norm_num)).mp h]
    decide +kernel

/-- Up to 255 powers of the root are different from each other, so a block of at most 255 codewords
has a different power for each of its places. -/
theorem pow_root_injOn {n : ℕ} (h : n ≤ 255) : Set.InjOn (fun i => root ^ i) {i | i < n} := by
  intro i hi j hj heq
  exact pow_injOn_Iio_orderOf (orderOf_root ▸ (hi : i < n).trans_le h)
    (orderOf_root ▸ (hj : j < n).trans_le h) heq

/-- A power of the root times the power that is missing to 255 is one: each power has an inverse. -/
theorem pow_root_mul {i : ℕ} (h : i ≤ 255) : root ^ i * root ^ (255 - i) = 1 := by
  rw [← pow_add, Nat.add_sub_cancel' h, ← orderOf_root]
  exact pow_orderOf_eq_one root

/-- No power of the root is zero, since it has an inverse. -/
theorem pow_root_ne_zero {i : ℕ} (h : i ≤ 255) : root ^ i ≠ 0 := by
  intro hzero
  have hone := pow_root_mul h
  rw [hzero, zero_mul] at hone
  exact absurd hone (by decide)

/-- **The powers of the root are all bytes but zero**: there are as many, and no two of them are the
same. -/
theorem exists_pow_root {a : GF256} (h : a ≠ 0) : ∃ i < 255, a = root ^ i := by
  let enum : Fin 256 → Fin 256 := fun k =>
    if (k : ℕ) = 255 then 0 else (root ^ (k : ℕ)).byte.toFin
  have hbyte : ∀ {x y : GF256}, x.byte.toFin = y.byte.toFin → x = y :=
    fun heq => ext_byte (UInt8.toFin_inj.mp heq)
  have hinj : Function.Injective enum := by
    intro j k heq
    have hj := j.isLt
    have hk := k.isLt
    by_cases hlast : (j : ℕ) = 255
    · by_cases hlast' : (k : ℕ) = 255
      · exact Fin.ext (hlast.trans hlast'.symm)
      · simp only [enum, if_pos hlast, if_neg hlast'] at heq
        exact absurd (hbyte (x := 0) heq).symm (pow_root_ne_zero (by omega))
    · by_cases hlast' : (k : ℕ) = 255
      · simp only [enum, if_neg hlast, if_pos hlast'] at heq
        exact absurd (hbyte (y := 0) heq) (pow_root_ne_zero (by omega))
      · simp only [enum, if_neg hlast, if_neg hlast'] at heq
        exact Fin.ext (pow_root_injOn le_rfl (show (j : ℕ) < 255 by omega)
          (show (k : ℕ) < 255 by omega) (hbyte heq))
  obtain ⟨k, hk⟩ := Finite.surjective_of_injective hinj a.byte.toFin
  by_cases hlast : (k : ℕ) = 255
  · simp only [enum, if_pos hlast] at hk
    exact absurd (hbyte (x := 0) hk).symm h
  · simp only [enum, if_neg hlast] at hk
    have hlt := k.isLt
    exact ⟨k, by omega, (hbyte hk).symm⟩

instance : NoZeroDivisors GF256 where
  eq_zero_or_eq_zero_of_mul_eq_zero := by
    intro a b h
    by_cases ha : a = 0
    · exact Or.inl ha
    · obtain ⟨i, hi, rfl⟩ := exists_pow_root ha
      refine Or.inr ?_
      calc b = root ^ (255 - i) * root ^ i * b := by
            rw [mul_comm (root ^ (255 - i)), pow_root_mul hi.le, one_mul]
        _ = 0 := by rw [mul_assoc, h, mul_zero]

instance : Nontrivial GF256 := ⟨0, 1, by decide⟩

instance : IsDomain GF256 := NoZeroDivisors.to_isDomain GF256

end GF256

end Qr

end TollGate
