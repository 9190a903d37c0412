import Mathlib

/-!
# Words as bytes

Words of 16 and 32 bits written to and read from byte strings, most significant
byte first (`be16`, `be32`) or last (`le16`, `le32`). Reading and writing in the same order
are inverse to each other. The two orders agree on a word exactly when its bytes
read the same from both ends (`le32_eq_be32_iff`).

A byte string of any length is a number (`beNat`, and `leNat` from the other end), and two
strings of the same length compare as their first bytes that differ (`beNat_cons_le_iff`).
-/

/-- The bytes of a word, most significant first. -/
def be16 (v : UInt16) : List UInt8 := [(v >>> 8).toUInt8, v.toUInt8]

/-- The word of two bytes, most significant first. -/
def ofBe16 (a b : UInt8) : UInt16 := (a.toUInt16 <<< 8) ||| b.toUInt16

/-- The bytes of a word, most significant first. -/
def be32 (v : UInt32) : List UInt8 :=
  [(v >>> 24).toUInt8, (v >>> 16).toUInt8, (v >>> 8).toUInt8, v.toUInt8]

/-- The word of four bytes, most significant first. -/
def ofBe32 (a b c d : UInt8) : UInt32 :=
  (a.toUInt32 <<< 24) ||| (b.toUInt32 <<< 16) ||| (c.toUInt32 <<< 8) ||| d.toUInt32

/-- The bytes of a word, least significant first. -/
def le16 (v : UInt16) : List UInt8 := [v.toUInt8, (v >>> 8).toUInt8]

/-- The bytes of a word, least significant first. -/
def le32 (v : UInt32) : List UInt8 :=
  [v.toUInt8, (v >>> 8).toUInt8, (v >>> 16).toUInt8, (v >>> 24).toUInt8]

@[simp] theorem length_be16 (v : UInt16) : (be16 v).length = 2 := rfl

@[simp] theorem length_be32 (v : UInt32) : (be32 v).length = 4 := rfl

theorem ofBe16_be16 (v : UInt16) : ofBe16 (v >>> 8).toUInt8 v.toUInt8 = v := by
  unfold ofBe16
  apply UInt16.toBitVec_inj.mp
  ext i hi
  simp [-UInt16.toUInt16_toUInt8]
  interval_cases i <;> simp

theorem be16_ofBe16 (a b : UInt8) : be16 (ofBe16 a b) = [a, b] := by
  have hhigh : (ofBe16 a b >>> 8).toUInt8 = a := by
    unfold ofBe16
    apply UInt8.toBitVec_inj.mp
    ext i hi
    simp
    interval_cases i <;> simp
  have hlow : (ofBe16 a b).toUInt8 = b := by
    unfold ofBe16
    apply UInt8.toBitVec_inj.mp
    ext i hi
    simp
  rw [be16, hhigh, hlow]

theorem ofBe32_be32 (v : UInt32) :
    ofBe32 (v >>> 24).toUInt8 (v >>> 16).toUInt8 (v >>> 8).toUInt8 v.toUInt8 = v := by
  unfold ofBe32
  apply UInt32.toBitVec_inj.mp
  ext i hi
  simp [-UInt32.toUInt32_toUInt8]
  interval_cases i <;> simp

theorem be32_ofBe32 (a b c d : UInt8) : be32 (ofBe32 a b c d) = [a, b, c, d] := by
  have hbytes : (ofBe32 a b c d >>> 24).toUInt8 = a ∧ (ofBe32 a b c d >>> 16).toUInt8 = b ∧
      (ofBe32 a b c d >>> 8).toUInt8 = c ∧ (ofBe32 a b c d).toUInt8 = d := by
    unfold ofBe32
    refine ⟨?_, ?_, ?_, ?_⟩
    all_goals
      apply UInt8.toBitVec_inj.mp
      ext i hi
      simp
    all_goals interval_cases i <;> simp
  obtain ⟨ha, hb, hc, hd⟩ := hbytes
  rw [be32, ha, hb, hc, hd]

/-- The bytes of the word read the same from both ends. -/
def Palindrome (v : UInt32) : Prop :=
  v.toUInt8 = (v >>> 24).toUInt8 ∧ (v >>> 8).toUInt8 = (v >>> 16).toUInt8

theorem le32_eq_be32_iff (v : UInt32) : le32 v = be32 v ↔ Palindrome v := by
  unfold le32 be32 Palindrome
  simp only [List.cons.injEq, and_true]
  refine ⟨?_, ?_⟩
  · rintro ⟨h0, h1, -, -⟩
    exact ⟨h0, h1⟩
  · rintro ⟨h0, h1⟩
    exact ⟨h0, h1, h1.symm, h0.symm⟩

/-- The bytes of a word, most significant first. -/
def be64 (v : UInt64) : List UInt8 :=
  be32 (v >>> 32).toUInt32 ++ be32 v.toUInt32

/-! ### Byte strings as numbers -/

/-- The number of a byte string, most significant byte first. -/
def beNat : List UInt8 → ℕ
  | [] => 0
  | b :: bytes => b.toNat * 256 ^ bytes.length + beNat bytes

theorem beNat_cons (b : UInt8) (bytes : List UInt8) :
    beNat (b :: bytes) = b.toNat * 256 ^ bytes.length + beNat bytes := rfl

theorem beNat_lt (bytes : List UInt8) : beNat bytes < 256 ^ bytes.length := by
  induction bytes with
  | nil => exact Nat.one_pos
  | cons b bytes ih =>
    have hb : b.toNat + 1 ≤ 256 := b.toNat_lt
    calc b.toNat * 256 ^ bytes.length + beNat bytes
        < b.toNat * 256 ^ bytes.length + 256 ^ bytes.length := by omega
      _ = (b.toNat + 1) * 256 ^ bytes.length := by ring
      _ ≤ 256 * 256 ^ bytes.length := Nat.mul_le_mul_right _ hb
      _ = 256 ^ (b :: bytes).length := by rw [List.length_cons, pow_succ']

theorem beNat_append (as bs : List UInt8) :
    beNat (as ++ bs) = beNat as * 256 ^ bs.length + beNat bs := by
  induction as with
  | nil => rw [List.nil_append, beNat, Nat.zero_mul, Nat.zero_add]
  | cons a as ih =>
    rw [List.cons_append, beNat_cons, beNat_cons, ih, List.length_append, pow_add]
    ring

theorem beNat_replicate_zero (k : ℕ) : beNat (List.replicate k 0) = 0 := by
  induction k with
  | zero => rfl
  | succ k ih => rw [List.replicate_succ, beNat_cons, ih, UInt8.toNat_zero, Nat.zero_mul]

theorem beNat_be32 (v : UInt32) : beNat (be32 v) = v.toNat := by
  have hv := v.toNat_lt
  simp only [be32, beNat, List.length_cons, List.length_nil, UInt32.toNat_toUInt8,
    UInt32.toNat_shiftRight, Nat.shiftRight_eq_div_pow, UInt32.reduceToNat, Nat.reduceMod]
  omega

theorem beNat_be64 (v : UInt64) : beNat (be64 v) = v.toNat := by
  have hv := v.toNat_lt
  rw [be64, beNat_append, beNat_be32, beNat_be32, length_be32]
  simp only [UInt64.toNat_toUInt32, UInt64.toNat_shiftRight, Nat.shiftRight_eq_div_pow,
    UInt64.reduceToNat, Nat.reduceMod]
  omega

/-- The first byte decides, and the rest when it is the same. -/
theorem beNat_cons_le_iff {a b : UInt8} {as bs : List UInt8} (hlen : as.length = bs.length) :
    beNat (a :: as) ≤ beNat (b :: bs) ↔ a < b ∨ a = b ∧ beNat as ≤ beNat bs := by
  have has := beNat_lt as
  have hbs := beNat_lt bs
  have hstep : ∀ x y : ℕ, x < y → (x + 1) * 256 ^ bs.length ≤ y * 256 ^ bs.length :=
    fun x y h => Nat.mul_le_mul_right _ h
  rw [hlen] at has
  rw [beNat_cons, beNat_cons, hlen, UInt8.lt_iff_toNat_lt, ← UInt8.toNat_inj]
  rcases lt_trichotomy a.toNat b.toNat with h | h | h
  · have := hstep _ _ h
    rw [add_mul, one_mul] at this
    simp only [h, true_or, iff_true]
    omega
  · simp only [h, lt_irrefl, false_or, true_and, add_le_add_iff_left]
  · have := hstep _ _ h
    rw [add_mul, one_mul] at this
    simp only [h.asymm, h.ne', false_and, or_false, iff_false]
    omega

/-- The first bytes are the number without its last digits. -/
theorem beNat_take (k : ℕ) (bytes : List UInt8) :
    beNat (bytes.take k) = beNat bytes / 256 ^ (bytes.length - k) := by
  have hlast : beNat (bytes.drop k) < 256 ^ (bytes.length - k) := by
    have h := beNat_lt (bytes.drop k)
    rwa [List.length_drop] at h
  have hsplit : beNat bytes =
      beNat (bytes.drop k) + 256 ^ (bytes.length - k) * beNat (bytes.take k) := by
    calc beNat bytes = beNat (bytes.take k ++ bytes.drop k) := by rw [List.take_append_drop]
      _ = _ := by rw [beNat_append, List.length_drop, Nat.add_comm, Nat.mul_comm]
  rw [hsplit, Nat.add_mul_div_left _ _ (by positivity), Nat.div_eq_of_lt hlast, Nat.zero_add]

/-- The number of a byte string, least significant byte first. -/
def leNat : List UInt8 → ℕ
  | [] => 0
  | b :: bytes => b.toNat + 256 * leNat bytes

theorem leNat_eq (bytes : List UInt8) : leNat bytes = beNat bytes.reverse := by
  induction bytes with
  | nil => rfl
  | cons b bytes ih =>
    have hlast : beNat [b] = b.toNat := by simp [beNat]
    rw [leNat, ih, List.reverse_cons, beNat_append, hlast, List.length_singleton, pow_one,
      Nat.add_comm, Nat.mul_comm]

/-- The `k` bytes of a number, most significant first. -/
def beBytes : ℕ → ℕ → List UInt8
  | 0, _ => []
  | k + 1, v => UInt8.ofNat (v / 256 ^ k) :: beBytes k v

@[simp] theorem length_beBytes (k v : ℕ) : (beBytes k v).length = k := by
  induction k with
  | zero => rfl
  | succ k ih => rw [beBytes, List.length_cons, ih]

theorem beNat_beBytes (k v : ℕ) : beNat (beBytes k v) = v % 256 ^ k := by
  induction k with
  | zero => rw [pow_zero, Nat.mod_one]; rfl
  | succ k ih =>
    -- the first byte is the quotient, as far as it fits
    have hsplit : v % 256 ^ (k + 1) = v % 256 ^ k + 256 ^ k * (v / 256 ^ k % 256) := by
      rw [pow_succ, Nat.mod_mul]
    rw [beBytes, beNat_cons, length_beBytes, ih, UInt8.toNat_ofNat', hsplit, Nat.add_comm,
      Nat.mul_comm]

theorem beNat_beBytes_of_lt {k v : ℕ} (h : v < 256 ^ k) : beNat (beBytes k v) = v := by
  rw [beNat_beBytes, Nat.mod_eq_of_lt h]

/-! ### Bytes shifted into a word -/

/-- `v = (v << 8) | b` over bytes. -/
def shiftBytes64 (bytes : List UInt8) : UInt64 :=
  bytes.foldl (fun v b => (v <<< 8) ||| b.toUInt64) 0

/-- One more byte, where the word is wide enough. -/
theorem shiftLeft_or_byte {v w : ℕ} {b : UInt8} (hv : v < 2 ^ w) :
    (v <<< 8 % 2 ^ (w + 8)) ||| b.toNat = v * 256 + b.toNat := by
  have hlt : v * 256 < 2 ^ (w + 8) := by
    rw [pow_add]
    exact Nat.mul_lt_mul_of_pos_right hv (by norm_num)
  rw [Nat.shiftLeft_eq, Nat.mod_eq_of_lt hlt, Nat.mul_comm,
    ← Nat.two_pow_add_eq_or_of_lt b.toNat_lt]

/-- Eight bytes at most are read as a number. -/
theorem toNat_shiftBytes64 {bytes : List UInt8} (h : bytes.length ≤ 8) :
    (shiftBytes64 bytes).toNat = beNat bytes := by
  induction bytes using List.reverseRecOn with
  | nil => rfl
  | append_singleton bytes b ih =>
    rw [List.length_append, List.length_singleton] at h
    have hlt : beNat bytes < 2 ^ 56 := by
      calc beNat bytes < 256 ^ bytes.length := beNat_lt bytes
        _ ≤ 256 ^ 7 := Nat.pow_le_pow_right (by norm_num) (by omega)
        _ = 2 ^ 56 := by norm_num
    have hstep : shiftBytes64 (bytes ++ [b]) = (shiftBytes64 bytes <<< 8) ||| b.toUInt64 := by
      rw [shiftBytes64, List.foldl_append]
      rfl
    rw [hstep, UInt64.toNat_or, UInt64.toNat_shiftLeft, ih (by omega), UInt8.toNat_toUInt64,
      beNat_append]
    exact (shiftLeft_or_byte hlt).trans (by simp [beNat])

/-- The same in a word of 32 bits. -/
def shiftBytes32 (bytes : List UInt8) : UInt32 :=
  bytes.foldl (fun v b => (v <<< 8) ||| b.toUInt32) 0

/-- Of more bytes than four the last four are left. -/
theorem toNat_shiftBytes32 (bytes : List UInt8) :
    (shiftBytes32 bytes).toNat = beNat bytes % 2 ^ 32 := by
  induction bytes using List.reverseRecOn with
  | nil => rfl
  | append_singleton bytes b ih =>
    have hb := b.toNat_lt
    have hstep : shiftBytes32 (bytes ++ [b]) = (shiftBytes32 bytes <<< 8) ||| b.toUInt32 := by
      rw [shiftBytes32, List.foldl_append]
      rfl
    have hshift : (beNat bytes % 2 ^ 32) <<< 8 % 2 ^ 32 = 2 ^ 8 * (beNat bytes % 2 ^ 24) := by
      rw [Nat.shiftLeft_eq]
      omega
    have hlast : beNat [b] = b.toNat := by simp [beNat]
    rw [hstep, UInt32.toNat_or, UInt32.toNat_shiftLeft, ih, UInt8.toNat_toUInt32, beNat_append,
      hlast]
    show (beNat bytes % 2 ^ 32) <<< 8 % 2 ^ 32 ||| b.toNat = _
    rw [hshift, ← Nat.two_pow_add_eq_or_of_lt hb]
    show _ = (beNat bytes * 256 ^ 1 + b.toNat) % 2 ^ 32
    omega
