import TollGate.Lib.CTypes

/-!
# Three bytes as four digits

The arithmetic of base64 in words of 32 bits, as programs write it with shifts: `joinBytes` puts
three bytes together, `digitAt` takes six bits out, `joinDigits` puts four digits together and
`byteAt` takes eight bits out. A group of three bytes is the same word as the group of its digits
(`joinDigits_digitAt`), so its bytes come back (`byteAt_joinBytes`).
-/

namespace Base64

/-- `(a << 16) | (b << 8) | c`. -/
def joinBytes (a b c : UInt8) : UInt32 :=
  (a.toUInt32 <<< 16) ||| (b.toUInt32 <<< 8) ||| c.toUInt32

/-- `(a << 18) | (b << 12) | (c << 6) | d`. -/
def joinDigits (a b c d : UInt32) : UInt32 := (a <<< 18) ||| (b <<< 12) ||| (c <<< 6) ||| d

/-- `(triple >> shift) & 0x3F`. -/
def digitAt (triple shift : UInt32) : UInt32 := (triple >>> shift) &&& 0x3F

/-- `(triple >> shift) & 0xFF`. -/
def byteAt (triple shift : UInt32) : UInt8 := ((triple >>> shift) &&& 0xFF).toUInt8

/-- Bits that do not meet are added. -/
theorem or_eq_add {x y k : ℕ} (hx : 2 ^ k ∣ x) (hy : y < 2 ^ k) : x ||| y = x + y := by
  obtain ⟨z, rfl⟩ := hx
  exact (Nat.two_pow_add_eq_or_of_lt hy z).symm

theorem toNat_shiftLeft {a : UInt32} {k : ℕ} (hk : k < 32) (ha : a.toNat * 2 ^ k < 2 ^ 32) :
    (a <<< UInt32.ofNat k).toNat = a.toNat * 2 ^ k := by
  have hshift : (UInt32.ofNat k).toNat % 32 = k := by
    rw [UInt32.toNat_ofNat_of_lt' (lt_trans hk (by decide))]
    omega
  rw [UInt32.toNat_shiftLeft, hshift, Nat.shiftLeft_eq, Nat.mod_eq_of_lt ha]

theorem toNat_joinBytes (a b c : UInt8) :
    (joinBytes a b c).toNat = a.toNat * 2 ^ 16 + b.toNat * 2 ^ 8 + c.toNat := by
  have ha := a.toNat_lt
  have hb := b.toNat_lt
  have hc := c.toNat_lt
  have hhigh : (a.toUInt32 <<< 16).toNat = a.toNat * 2 ^ 16 :=
    toNat_shiftLeft (k := 16) (by omega) (by rw [UInt8.toNat_toUInt32]; omega)
  have hmiddle : (b.toUInt32 <<< 8).toNat = b.toNat * 2 ^ 8 :=
    toNat_shiftLeft (k := 8) (by omega) (by rw [UInt8.toNat_toUInt32]; omega)
  unfold joinBytes
  rw [UInt32.toNat_or, UInt32.toNat_or, hhigh, hmiddle, UInt8.toNat_toUInt32,
    or_eq_add (x := a.toNat * 2 ^ 16) (k := 16) ⟨a.toNat, Nat.mul_comm _ _⟩ (by omega),
    or_eq_add (y := c.toNat) (k := 8) ⟨a.toNat * 2 ^ 8 + b.toNat, by omega⟩ (by omega)]

theorem toNat_joinDigits {a b c d : UInt32} (ha : a.toNat < 64) (hb : b.toNat < 64)
    (hc : c.toNat < 64) (hd : d.toNat < 64) :
    (joinDigits a b c d).toNat =
      a.toNat * 2 ^ 18 + b.toNat * 2 ^ 12 + c.toNat * 2 ^ 6 + d.toNat := by
  have hfirst : (a <<< 18).toNat = a.toNat * 2 ^ 18 :=
    toNat_shiftLeft (k := 18) (by omega) (by omega)
  have hsecond : (b <<< 12).toNat = b.toNat * 2 ^ 12 :=
    toNat_shiftLeft (k := 12) (by omega) (by omega)
  have hthird : (c <<< 6).toNat = c.toNat * 2 ^ 6 :=
    toNat_shiftLeft (k := 6) (by omega) (by omega)
  unfold joinDigits
  rw [UInt32.toNat_or, UInt32.toNat_or, UInt32.toNat_or, hfirst, hsecond, hthird,
    or_eq_add (x := a.toNat * 2 ^ 18) (k := 18) ⟨a.toNat, Nat.mul_comm _ _⟩ (by omega),
    or_eq_add (y := c.toNat * 2 ^ 6) (k := 12) ⟨a.toNat * 2 ^ 6 + b.toNat, by omega⟩ (by omega),
    or_eq_add (y := d.toNat) (k := 6) ⟨a.toNat * 2 ^ 12 + b.toNat * 2 ^ 6 + c.toNat, by omega⟩
      (by omega)]

theorem toNat_shiftRight (x : UInt32) {k : ℕ} (hk : k < 32) :
    (x >>> UInt32.ofNat k).toNat = x.toNat / 2 ^ k := by
  have hshift : (UInt32.ofNat k).toNat % 32 = k := by
    rw [UInt32.toNat_ofNat_of_lt' (lt_trans hk (by decide))]
    omega
  rw [UInt32.toNat_shiftRight, hshift, Nat.shiftRight_eq_div_pow]

theorem toNat_digitAt (triple : UInt32) {k : ℕ} (hk : k < 32) :
    (digitAt triple (UInt32.ofNat k)).toNat = triple.toNat / 2 ^ k % 64 := by
  unfold digitAt
  rw [UInt32.toNat_and, toNat_shiftRight triple hk]
  exact Nat.and_two_pow_sub_one_eq_mod _ 6

theorem toNat_byteAt (triple : UInt32) {k : ℕ} (hk : k < 32) :
    (byteAt triple (UInt32.ofNat k)).toNat = triple.toNat / 2 ^ k % 256 := by
  unfold byteAt
  have hmask : (triple >>> UInt32.ofNat k &&& 0xFF).toNat = triple.toNat / 2 ^ k % 256 := by
    rw [UInt32.toNat_and, toNat_shiftRight triple hk]
    exact Nat.and_two_pow_sub_one_eq_mod _ 8
  rw [UInt32.toNat_toUInt8, hmask, Nat.mod_mod]

theorem digitAt_lt (triple : UInt32) {k : ℕ} (hk : k < 32) :
    (digitAt triple (UInt32.ofNat k)).toNat < 64 := by
  rw [toNat_digitAt triple hk]
  exact Nat.mod_lt _ (by omega)

/-- **A group of bytes is the group of its digits.** -/
theorem joinDigits_digitAt {triple : UInt32} (h : triple.toNat < 2 ^ 24) :
    joinDigits (digitAt triple 18) (digitAt triple 12) (digitAt triple 6) (digitAt triple 0) =
      triple := by
  -- four digits to the base 64
  have h18 : (digitAt triple 18).toNat = _ := toNat_digitAt triple (k := 18) (by omega)
  have h12 : (digitAt triple 12).toNat = _ := toNat_digitAt triple (k := 12) (by omega)
  have h6 : (digitAt triple 6).toNat = _ := toNat_digitAt triple (k := 6) (by omega)
  have h0 : (digitAt triple 0).toNat = _ := toNat_digitAt triple (k := 0) (by omega)
  rw [← UInt32.toNat_inj, toNat_joinDigits (by omega) (by omega) (by omega) (by omega), h18, h12,
    h6, h0]
  omega

theorem joinBytes_lt (a b c : UInt8) : (joinBytes a b c).toNat < 2 ^ 24 := by
  have ha := a.toNat_lt
  have hb := b.toNat_lt
  have hc := c.toNat_lt
  rw [toNat_joinBytes]
  omega

/-- The bytes of a group. -/
theorem byteAt_joinBytes (a b c : UInt8) :
    byteAt (joinBytes a b c) 16 = a ∧ byteAt (joinBytes a b c) 8 = b ∧
      byteAt (joinBytes a b c) 0 = c := by
  have ha := a.toNat_lt
  have hb := b.toNat_lt
  have hc := c.toNat_lt
  -- three digits to the base 256
  have h16 : (byteAt (joinBytes a b c) 16).toNat = _ :=
    toNat_byteAt (joinBytes a b c) (k := 16) (by omega)
  have h8 : (byteAt (joinBytes a b c) 8).toNat = _ :=
    toNat_byteAt (joinBytes a b c) (k := 8) (by omega)
  have h0 : (byteAt (joinBytes a b c) 0).toNat = _ :=
    toNat_byteAt (joinBytes a b c) (k := 0) (by omega)
  rw [toNat_joinBytes] at h16 h8 h0
  refine ⟨UInt8.toNat_inj.mp ?_, UInt8.toNat_inj.mp ?_, UInt8.toNat_inj.mp ?_⟩
  · omega
  · omega
  · omega

/-- A group that is filled up with zeros has zeros for its last digits. -/
theorem digitAt_of_missing (a b : UInt8) :
    digitAt (joinBytes a b 0) 0 = 0 ∧ digitAt (joinBytes a 0 0) 6 = 0 := by
  have hlast : (digitAt (joinBytes a b 0) 0).toNat = _ :=
    toNat_digitAt (joinBytes a b 0) (k := 0) (by omega)
  have hthird : (digitAt (joinBytes a 0 0) 6).toNat = _ :=
    toNat_digitAt (joinBytes a 0 0) (k := 6) (by omega)
  have hzero : (0 : UInt8).toNat = 0 := rfl
  rw [toNat_joinBytes, hzero] at hlast hthird
  refine ⟨UInt32.toNat_inj.mp ?_, UInt32.toNat_inj.mp ?_⟩
  · show _ = 0
    omega
  · show _ = 0
    omega

end Base64
