import Mathlib

/-!
# Bits in bytes

A string of bits is kept in bytes, the first bit in the most significant place of the first byte.
Programs write it bit by bit (`setBit`) and read it back in groups of another width, over words of
three bytes (`group`). A bit can be cleared, too (`clearBit`), and then the bytes are a table of
bits (`bitAt_assignBit`).

`Holds` says that bytes hold a string. It is kept when the next bit is written (`Holds.write`), and
then the groups one after the other are the string, across the borders of the bytes
(`Holds.flatMap_group`).
-/

namespace BitString

/-- The bit at a place. Behind the bytes there are zeros. -/
def bitAt (bytes : List UInt8) (i : ℕ) : Bool := (bytes.getD (i / 8) 0).toNat.testBit (7 - i % 8)

/-- `bytes[i / 8] |= 1 << (7 - i % 8)`. -/
def setBit (bytes : List UInt8) (i : ℕ) : List UInt8 :=
  bytes.modify (i / 8) fun b => b ||| (1 <<< UInt8.ofNat (7 - i % 8))

/-- `bytes[i / 8] &= ~(1 << (7 - i % 8))`. -/
def clearBit (bytes : List UInt8) (i : ℕ) : List UInt8 :=
  bytes.modify (i / 8) fun b => b &&& ~~~(1 <<< UInt8.ofNat (7 - i % 8))

/-- A bit that is set or cleared. -/
def assignBit (bytes : List UInt8) (i : ℕ) (b : Bool) : List UInt8 :=
  if b then setBit bytes i else clearBit bytes i

/-- Three bytes from a place on. -/
def word (bytes : List UInt8) (i : ℕ) : ℕ :=
  2 ^ 16 * (bytes.getD i 0).toNat +
    (2 ^ 8 * (bytes.getD (i + 1) 0).toNat + (bytes.getD (i + 2) 0).toNat)

/-- The number that `w` bits stand for, read from a word. -/
def group (bytes : List UInt8) (w start : ℕ) : ℕ :=
  word bytes (start / 8) / 2 ^ (24 - w - start % 8) % 2 ^ w

/-- The bits of a number below `2 ^ w`, the most significant one first. -/
def bitsOf (w v : ℕ) : List Bool := (List.range w).map fun k => v.testBit (w - 1 - k)

/-- The bytes hold a string, and zeros behind it. -/
def Holds (bytes : List UInt8) (bits : List Bool) : Prop :=
  ∀ j, bitAt bytes j = bits.getD j false

variable {bytes bytes' : List UInt8} {bits bits' : List Bool} {w start : ℕ}

/-! ### Writing -/

@[simp] theorem length_setBit (bytes : List UInt8) (i : ℕ) :
    (setBit bytes i).length = bytes.length :=
  List.length_modify _ _ _

theorem testBit_shift {k : ℕ} (hk : k < 8) (j : ℕ) :
    ((1 : UInt8) <<< UInt8.ofNat k).toNat.testBit j = decide (k = j) := by
  have hpow : ((1 : UInt8) <<< UInt8.ofNat k).toNat = 2 ^ k := by
    interval_cases k <;> rfl
  rw [hpow, Nat.testBit_two_pow]

/-- A bit that is set is there, and the others stay. -/
theorem bitAt_setBit {i : ℕ} (h : i / 8 < bytes.length) (j : ℕ) :
    bitAt (setBit bytes i) j = (bitAt bytes j || decide (i = j)) := by
  unfold bitAt setBit
  rw [List.getD_eq_getElem?_getD, List.getD_eq_getElem?_getD]
  by_cases hbyte : i / 8 = j / 8
  · have hplace : 7 - i % 8 = 7 - j % 8 ↔ i = j := by omega
    rw [← hbyte, List.getElem?_modify_eq, List.getElem?_eq_getElem h, Option.map_eq_map,
      Option.map_some, Option.getD_some, Option.getD_some, UInt8.toNat_or, Nat.testBit_or,
      testBit_shift (by omega), decide_eq_decide.mpr hplace]
  · have hne : i ≠ j := fun heq => hbyte (congrArg (· / 8) heq)
    rw [List.getElem?_modify_ne _ _ hbyte, decide_eq_false hne, Bool.or_false]

@[simp] theorem length_assignBit (bytes : List UInt8) (i : ℕ) (b : Bool) :
    (assignBit bytes i b).length = bytes.length := by
  unfold assignBit
  split
  · exact List.length_modify _ _ _
  · exact List.length_modify _ _ _

theorem testBit_not_shift {k : ℕ} (hk : k < 8) {j : ℕ} (hj : j < 8) :
    (~~~((1 : UInt8) <<< UInt8.ofNat k)).toNat.testBit j = decide (k ≠ j) := by
  interval_cases k <;> interval_cases j <;> rfl

/-- A bit that is cleared is gone, and the others stay. -/
theorem bitAt_clearBit (bytes : List UInt8) (i j : ℕ) :
    bitAt (clearBit bytes i) j = (bitAt bytes j && decide (i ≠ j)) := by
  unfold bitAt clearBit
  rw [List.getD_eq_getElem?_getD, List.getD_eq_getElem?_getD]
  by_cases hbyte : i / 8 = j / 8
  · have hplace : 7 - i % 8 ≠ 7 - j % 8 ↔ i ≠ j := by omega
    rw [← hbyte, List.getElem?_modify_eq]
    cases hget : bytes[i / 8]? with
    | none =>
      rw [Option.map_eq_map, Option.map_none, Option.getD_none, UInt8.toNat_zero,
        Nat.zero_testBit, Bool.false_and]
    | some b =>
      rw [Option.map_eq_map, Option.map_some, Option.getD_some, Option.getD_some, UInt8.toNat_and,
        Nat.testBit_and, testBit_not_shift (by omega) (by omega), decide_eq_decide.mpr hplace]
  · have hne : i ≠ j := fun heq => hbyte (congrArg (· / 8) heq)
    rw [List.getElem?_modify_ne _ _ hbyte, decide_eq_true hne, Bool.and_true]

/-- **The bytes as a table of bits.** -/
theorem bitAt_assignBit {i : ℕ} (h : i / 8 < bytes.length) (b : Bool) (j : ℕ) :
    bitAt (assignBit bytes i b) j = if i = j then b else bitAt bytes j := by
  unfold assignBit
  cases b with
  | true =>
    rw [if_pos rfl, bitAt_setBit h]
    by_cases heq : i = j
    · simp [heq]
    · simp [heq]
  | false =>
    rw [if_neg (by decide), bitAt_clearBit]
    by_cases heq : i = j
    · simp [heq]
    · simp [heq]

/-- A string of which one more bit is known. -/
theorem getD_concat (bits : List Bool) (b : Bool) (j : ℕ) :
    (bits ++ [b]).getD j false = (bits.getD j false || (decide (bits.length = j) && b)) := by
  simp only [List.getD_eq_getElem?_getD]
  -- in front of the new bit, at it, and behind it
  rcases lt_trichotomy j bits.length with hlt | rfl | hgt
  · rw [List.getElem?_append_left hlt, decide_eq_false hlt.ne', Bool.false_and, Bool.or_false]
  · rw [List.getElem?_concat_length, List.getElem?_eq_none le_rfl, decide_eq_true rfl,
      Bool.true_and]
    rfl
  · rw [List.getElem?_eq_none hgt.le, decide_eq_false hgt.ne, Bool.false_and,
      List.getElem?_eq_none (by rw [List.length_append]; exact hgt)]
    rfl

theorem holds_replicate_zero (n : ℕ) : Holds (List.replicate n 0) [] := by
  intro j
  have hzero : (List.replicate n (0 : UInt8)).getD (j / 8) 0 = 0 := by
    rw [List.getD_eq_getElem?_getD, List.getElem?_replicate]
    split
    · rfl
    · rfl
  rw [bitAt, hzero]
  exact Nat.zero_testBit _

/-- **The next bit.** A one is set, and a zero is there already. -/
theorem Holds.write (h : Holds bytes bits) (hroom : bits.length / 8 < bytes.length) (b : Bool) :
    Holds (if b then setBit bytes bits.length else bytes) (bits ++ [b]) := by
  intro j
  rw [getD_concat, ← h j]
  cases b with
  | true =>
    rw [Bool.and_true]
    exact bitAt_setBit hroom j
  | false =>
    rw [Bool.and_false, Bool.or_false]
    rfl

/-! ### Reading -/

theorem testBit_word (bytes : List UInt8) (i : ℕ) {k : ℕ} (hk : k < 24) :
    (word bytes i).testBit k = bitAt bytes (8 * i + (23 - k)) := by
  have hmiddle := (bytes.getD (i + 1) 0).toNat_lt
  have hlow := (bytes.getD (i + 2) 0).toNat_lt
  unfold word
  rw [Nat.testBit_two_pow_mul_add _ (by omega), Nat.testBit_two_pow_mul_add _ (by omega)]
  -- the byte that the bit is in
  unfold bitAt
  split
  · split
    · have hbyte : (8 * i + (23 - k)) / 8 = i + 2 := by omega
      have hplace : 7 - (8 * i + (23 - k)) % 8 = k := by omega
      rw [hbyte, hplace]
    · have hbyte : (8 * i + (23 - k)) / 8 = i + 1 := by omega
      have hplace : 7 - (8 * i + (23 - k)) % 8 = k - 8 := by omega
      rw [hbyte, hplace]
  · have hbyte : (8 * i + (23 - k)) / 8 = i := by omega
    have hplace : 7 - (8 * i + (23 - k)) % 8 = k - 16 := by omega
    rw [hbyte, hplace]

theorem group_lt (bytes : List UInt8) (w start : ℕ) : group bytes w start < 2 ^ w :=
  Nat.mod_lt _ (Nat.two_pow_pos w)

/-- A group of up to 17 bits lies in its word, wherever it begins. -/
theorem testBit_group (bytes : List UInt8) (hw : w ≤ 17) {k : ℕ} (hk : k < w) :
    (group bytes w start).testBit k = bitAt bytes (start + (w - 1 - k)) := by
  have hplace : 8 * (start / 8) + (23 - (k + (24 - w - start % 8))) = start + (w - 1 - k) := by
    omega
  rw [group, Nat.testBit_mod_two_pow, decide_eq_true hk, Bool.true_and, Nat.testBit_div_two_pow,
    testBit_word bytes _ (by omega), hplace]

/-- The bits of a group are those of the string. -/
theorem Holds.bitsOf_group (h : Holds bytes bits) (hw : w ≤ 17) :
    bitsOf w (group bytes w start) = (List.range w).map fun k => bits.getD (start + k) false := by
  refine List.map_congr_left fun k hk => ?_
  have hk := List.mem_range.mp hk
  have hback : w - 1 - (w - 1 - k) = k := by omega
  rw [testBit_group bytes hw (by omega), hback, h]

/-- The places of the groups are those of the string. -/
theorem flatMap_range_mul {α : Type*} (f : ℕ → α) (w n : ℕ) :
    ((List.range n).flatMap fun i => (List.range w).map fun k => f (i * w + k)) =
      (List.range (n * w)).map f := by
  induction n with
  | zero =>
    rw [Nat.zero_mul]
    rfl
  | succ n ih =>
    rw [List.range_succ, List.flatMap_append, ih, List.flatMap_singleton, Nat.succ_mul,
      List.range_add, List.map_append, List.map_map]
    rfl

/-- **The groups one after the other are the string.** -/
theorem Holds.flatMap_group (h : Holds bytes bits) (hw : w ≤ 17) {n : ℕ}
    (hn : bits.length = n * w) :
    ((List.range n).flatMap fun i => bitsOf w (group bytes w (i * w))) = bits := by
  have hgroups : ((List.range n).flatMap fun i => bitsOf w (group bytes w (i * w))) =
      (List.range n).flatMap fun i => (List.range w).map fun k => bits.getD (i * w + k) false :=
    congrArg (List.range n).flatMap (funext fun i => h.bitsOf_group hw)
  rw [hgroups, flatMap_range_mul fun j => bits.getD j false]
  -- the places of all groups are 0, 1, 2 and so on
  refine List.ext_getElem (by simp [hn]) fun j hj hj' => ?_
  rw [List.getElem_map, List.getElem_range, List.getD_eq_getElem _ _ hj']

/-- A group is known by the beginning of the string up to its end. -/
theorem Holds.group_eq (h : Holds bytes bits) (h' : Holds bytes' bits') (hw : w ≤ 17) {n : ℕ}
    (htake : bits'.take n = bits) (hn : start + w ≤ n) :
    group bytes w start = group bytes' w start := by
  refine Nat.eq_of_testBit_eq fun k => ?_
  by_cases hk : k < w
  · rw [testBit_group bytes hw hk, testBit_group bytes' hw hk, h, h', ← htake,
      List.getD_eq_getElem?_getD, List.getElem?_take_of_lt (by omega),
      List.getD_eq_getElem?_getD]
  · -- a group has no other bits
    have hbound : 2 ^ w ≤ 2 ^ k := Nat.pow_le_pow_right (by omega) (Nat.le_of_not_lt hk)
    rw [Nat.testBit_lt_two_pow ((group_lt bytes w start).trans_le hbound),
      Nat.testBit_lt_two_pow ((group_lt bytes' w start).trans_le hbound)]

/-! ### Numbers and bytes one after the other -/

/-- The number that bits stand for, the most significant one first. -/
def numOf (bits : List Bool) : ℕ := bits.foldl (fun n b => 2 * n + b.toNat) 0

/-- The bits of one byte after the other. -/
def bitsOfBytes (bytes : List UInt8) : List Bool := bytes.flatMap fun b => bitsOf 8 b.toNat

/-- A number of `w` bits in front, and what is behind it. -/
def readBits (w : ℕ) (bits : List Bool) : Option (ℕ × List Bool) :=
  if w ≤ bits.length then some (numOf (bits.take w), bits.drop w) else none

/-- `n` bytes in front. -/
def readBytes (n : ℕ) (bits : List Bool) : List UInt8 :=
  (List.range n).map fun i => UInt8.ofNat (numOf ((bits.drop (8 * i)).take 8))

@[simp] theorem length_bitsOf (w v : ℕ) : (bitsOf w v).length = w := by simp [bitsOf]

theorem bitsOf_succ (w v : ℕ) : bitsOf (w + 1) v = v.testBit w :: bitsOf w v := by
  rw [bitsOf, List.range_succ_eq_map, List.map_cons, List.map_map, bitsOf]
  congr 1
  refine List.map_congr_left fun k _ => ?_
  have hplace : w + 1 - 1 - (k + 1) = w - 1 - k := by omega
  show v.testBit (w + 1 - 1 - (k + 1)) = _
  rw [hplace]

theorem foldl_numOf (bits : List Bool) (n : ℕ) :
    bits.foldl (fun n b => 2 * n + b.toNat) n = n * 2 ^ bits.length + numOf bits := by
  induction bits generalizing n with
  | nil => simp [numOf]
  | cons b bits ih =>
    rw [numOf, List.foldl_cons, List.foldl_cons, ih, ih (2 * 0 + b.toNat), List.length_cons]
    ring

theorem numOf_cons (b : Bool) (bits : List Bool) :
    numOf (b :: bits) = b.toNat * 2 ^ bits.length + numOf bits := by
  rw [numOf, List.foldl_cons, foldl_numOf, Nat.mul_zero, Nat.zero_add]

theorem numOf_lt (bits : List Bool) : numOf bits < 2 ^ bits.length := by
  induction bits with
  | nil => exact Nat.one_pos
  | cons b bits ih =>
    rw [numOf_cons, List.length_cons, Nat.pow_succ]
    cases b with
    | false => simp only [Bool.toNat_false]; omega
    | true => simp only [Bool.toNat_true]; omega

/-- Different bits, as long as there are equally many, stand for different numbers. -/
theorem numOf_inj {u v : List Bool} (h : u.length = v.length) : numOf u = numOf v ↔ u = v := by
  refine ⟨fun heq => ?_, congrArg numOf⟩
  induction u generalizing v with
  | nil => exact (List.length_eq_zero_iff.mp h.symm).symm
  | cons a u ih =>
    cases v with
    | nil => simp at h
    | cons b v =>
      have hlen : u.length = v.length := by simpa using h
      have hu := numOf_lt u
      have hv := numOf_lt v
      rw [numOf_cons, numOf_cons, hlen] at heq
      rw [hlen] at hu
      -- the first bit decides between the lower half of the numbers and the upper half
      have hfirst : a = b ∧ numOf u = numOf v := by
        cases a with
        | false =>
          cases b with
          | false => exact ⟨rfl, by simpa using heq⟩
          | true => simp only [Bool.toNat_false, Bool.toNat_true] at heq; omega
        | true =>
          cases b with
          | false => simp only [Bool.toNat_false, Bool.toNat_true] at heq; omega
          | true => exact ⟨rfl, by simpa using heq⟩
      rw [hfirst.1, ih hlen hfirst.2]

/-- **A number is read from its bits.** -/
theorem numOf_bitsOf (w v : ℕ) : numOf (bitsOf w v) = v % 2 ^ w := by
  induction w with
  | zero => simp [bitsOf, numOf, Nat.mod_one]
  | succ w ih =>
    rw [bitsOf_succ, numOf_cons, ih, length_bitsOf, Nat.testBit_eq_decide_div_mod_eq, Nat.pow_succ,
      Nat.mod_mul]
    rcases Nat.mod_two_eq_zero_or_one (v / 2 ^ w) with hbit | hbit
    · simp [hbit]
    · simp [hbit, Nat.add_comm]

theorem readBits_append {w v : ℕ} (h : v < 2 ^ w) (rest : List Bool) :
    readBits w (bitsOf w v ++ rest) = some (v, rest) := by
  have hlen : w ≤ (bitsOf w v ++ rest).length := by
    rw [List.length_append, length_bitsOf]
    omega
  rw [readBits, if_pos hlen, List.take_left' (length_bitsOf w v),
    List.drop_left' (length_bitsOf w v), numOf_bitsOf, Nat.mod_eq_of_lt h]

theorem bitsOfBytes_cons (b : UInt8) (bytes : List UInt8) :
    bitsOfBytes (b :: bytes) = bitsOf 8 b.toNat ++ bitsOfBytes bytes := rfl

@[simp] theorem length_bitsOfBytes (bytes : List UInt8) :
    (bitsOfBytes bytes).length = 8 * bytes.length := by
  induction bytes with
  | nil => rfl
  | cons b bytes ih =>
    rw [bitsOfBytes_cons, List.length_append, length_bitsOf, ih, List.length_cons]
    ring

/-- **Bytes are read from their bits**, whatever is behind them. -/
theorem readBytes_bitsOfBytes (bytes : List UInt8) (rest : List Bool) :
    readBytes bytes.length (bitsOfBytes bytes ++ rest) = bytes := by
  induction bytes with
  | nil => rfl
  | cons b bytes ih =>
    have hfirst : UInt8.ofNat (numOf (bitsOf 8 b.toNat)) = b := by
      rw [numOf_bitsOf, Nat.mod_eq_of_lt b.toNat_lt, UInt8.ofNat_toNat]
    rw [List.length_cons, readBytes, List.range_succ_eq_map, List.map_cons, List.map_map,
      bitsOfBytes_cons, List.append_assoc, Nat.mul_zero, List.drop_zero,
      List.take_left' (length_bitsOf 8 _), hfirst]
    refine congrArg (b :: ·) (Eq.trans (List.map_congr_left fun i _ => ?_) ih)
    have hdrop : 8 * (i + 1) = 8 + 8 * i := by ring
    show UInt8.ofNat (numOf (((bitsOf 8 b.toNat ++ (bitsOfBytes bytes ++ rest)).drop
      (8 * (i + 1))).take 8)) = _
    rw [hdrop, ← List.drop_drop, List.drop_left' (length_bitsOf 8 _)]

/-- The bits of bytes are those at the places one after the other. -/
theorem bitsOfBytes_eq (bytes : List UInt8) :
    bitsOfBytes bytes = (List.range (8 * bytes.length)).map (bitAt bytes) := by
  have hbyte : ∀ i, ∀ k < 8, bitAt bytes (i * 8 + k) = (bytes.getD i 0).toNat.testBit (7 - k) := by
    intro i k hk
    have hplace : (i * 8 + k) / 8 = i := by omega
    have hbit : (i * 8 + k) % 8 = k := by omega
    rw [bitAt, hplace, hbit]
  have hbits : ∀ i, bitsOf 8 (bytes.getD i 0).toNat =
      (List.range 8).map fun k => bitAt bytes (i * 8 + k) := fun i =>
    List.map_congr_left fun k hk => (hbyte i k (List.mem_range.mp hk)).symm
  have hlist : bytes = (List.range bytes.length).map fun i => bytes.getD i 0 := by
    refine List.ext_getElem (by simp) fun i hi hi' => ?_
    rw [List.getElem_map, List.getElem_range, List.getD_eq_getElem _ _ hi]
  calc bitsOfBytes bytes
      = (List.range bytes.length).flatMap fun i => bitsOf 8 (bytes.getD i 0).toNat := by
        conv_lhs => rw [hlist]
        rw [bitsOfBytes, List.flatMap_map]
    _ = (List.range bytes.length).flatMap fun i =>
          (List.range 8).map fun k => bitAt bytes (i * 8 + k) :=
        congrArg (List.range bytes.length).flatMap (funext hbits)
    _ = (List.range (8 * bytes.length)).map (bitAt bytes) := by
        rw [flatMap_range_mul (bitAt bytes), Nat.mul_comm]

theorem bitAt_take (bytes : List UInt8) {n j : ℕ} (h : j < 8 * n) :
    bitAt (bytes.take n) j = bitAt bytes j := by
  unfold bitAt
  rw [List.getD_eq_getElem?_getD, List.getElem?_take_of_lt (by omega), List.getD_eq_getElem?_getD]

/-- The bits of the bytes in front. -/
theorem bitsOfBytes_take (bytes : List UInt8) {n : ℕ} (h : n ≤ bytes.length) :
    bitsOfBytes (bytes.take n) = (List.range (8 * n)).map (bitAt bytes) := by
  rw [bitsOfBytes_eq, List.length_take, min_eq_left h]
  exact List.map_congr_left fun j hj => bitAt_take bytes (List.mem_range.mp hj)

/-- Bytes are read from the bits at the places one after the other. -/
theorem readBytes_range (bytes : List UInt8) {n m : ℕ} (h : n ≤ bytes.length) (hm : 8 * n ≤ m) :
    readBytes n ((List.range m).map (bitAt bytes)) = bytes.take n := by
  obtain ⟨k, rfl⟩ : ∃ k, m = 8 * n + k := ⟨m - 8 * n, by omega⟩
  have hlen : (bytes.take n).length = n := by rw [List.length_take, min_eq_left h]
  have hread := readBytes_bitsOfBytes (bytes.take n)
    (((List.range k).map (8 * n + ·)).map (bitAt bytes))
  rw [hlen, bitsOfBytes_take bytes h, ← List.map_append, ← List.range_add] at hread
  exact hread

/-- A string that ends with a byte is the bytes in front. -/
theorem Holds.bitsOfBytes_take (h : Holds bytes bits) {n : ℕ} (hn : n ≤ bytes.length)
    (hlen : bits.length = 8 * n) : BitString.bitsOfBytes (bytes.take n) = bits := by
  rw [BitString.bitsOfBytes_take bytes hn]
  refine List.ext_getElem (by simp [hlen]) fun j hj hj' => ?_
  rw [List.getElem_map, List.getElem_range, h, List.getD_eq_getElem _ _ hj']

end BitString
