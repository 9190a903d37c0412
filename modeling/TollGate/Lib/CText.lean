import TollGate.Lib.CTypes

/-!
# Numerals and searches in C strings

The parts of `string.h`, `stdlib.h` and `stdio.h` that small text protocols are
written with, on a machine whose `long` has 32 bits: `strtoul`, `strtol` and `atoi`
read a numeral from the front of a string and saturate at the ends of their range,
`decimal`, `signedDecimal` and `hexPadded` are what the formats `%lu`, `%d` and
`%0<width>lx` print, `strstr`, `strchr` and `strtok` search and split.

A printed number is read back (`strtoul_decimal`, `strtoul_hexPadded`, `atoi_signedDecimal`),
and `atoi` reads back the unsigned numbers up to its upper end (`atoi_decimal_iff`). The
searches pass over text in which what they look for does not begin (`strstr_append`).
-/

namespace CStr

/-! ### Reading numerals -/

/-- `isspace` of the C locale. -/
def isSpace (b : UInt8) : Bool := b = 32 || (9 ≤ b && b ≤ 13)

/-- The value of a letter or digit as a digit; 36 for any other byte. -/
def digitValue (b : UInt8) : ℕ :=
  if 48 ≤ b ∧ b ≤ 57 then b.toNat - 48
  else if 65 ≤ b ∧ b ≤ 90 then b.toNat - 55
  else if 97 ≤ b ∧ b ≤ 122 then b.toNat - 87
  else 36

/-- The byte is a digit of the base. -/
def isDigit (base : ℕ) (b : UInt8) : Bool := digitValue b < base

/-- The value of a string of digits. -/
def numeral (base : ℕ) (digits : CStr) : ℕ :=
  digits.foldl (fun v b => base * v + digitValue b) 0

/-- An optional sign: whether it is a minus, and what follows. -/
def readSign : CStr → Bool × CStr
  | 45 :: s => (true, s)
  | 43 :: s => (false, s)
  | s => (false, s)

/-- The optional `0x` of a hexadecimal numeral. -/
def skipHexMark (base : ℕ) : CStr → CStr
  | 48 :: 120 :: s => if base = 16 then s else 48 :: 120 :: s
  | 48 :: 88 :: s => if base = 16 then s else 48 :: 88 :: s
  | s => s

/-- The sign and the value of the numeral a string begins with, after blanks. -/
def readNumeral (base : ℕ) (s : CStr) : Bool × ℕ :=
  let (minus, s) := readSign (s.dropWhile isSpace)
  (minus, numeral base ((skipHexMark base s).takeWhile (isDigit base)))

/-- `strtoul`: a value beyond the range becomes `ULONG_MAX`. -/
def strtoul (base : ℕ) (s : CStr) : UInt32 :=
  let (minus, v) := readNumeral base s
  if v < 2 ^ 32 then (if minus then -UInt32.ofNat v else UInt32.ofNat v) else 0xFFFFFFFF

/-- `strtoull`, with 64 bits. -/
def strtoull (base : ℕ) (s : CStr) : UInt64 :=
  let (minus, v) := readNumeral base s
  if v < 2 ^ 64 then (if minus then -UInt64.ofNat v else UInt64.ofNat v) else 0xFFFFFFFFFFFFFFFF

/-- `strtol`: a value beyond the range becomes `LONG_MAX` or `LONG_MIN`. -/
def strtol (base : ℕ) (s : CStr) : Int32 :=
  let (minus, v) := readNumeral base s
  if minus then Int32.ofInt (-(min v (2 ^ 31) : ℕ)) else Int32.ofInt (min v (2 ^ 31 - 1) : ℕ)

/-- `atoi`. -/
def atoi (s : CStr) : Int32 := strtol 10 s

/-- `strtoll`: a value beyond the range becomes `LLONG_MAX` or `LLONG_MIN`. -/
def strtoll (base : ℕ) (s : CStr) : Int64 :=
  let (minus, v) := readNumeral base s
  if minus then Int64.ofInt (-(min v (2 ^ 63) : ℕ)) else Int64.ofInt (min v (2 ^ 63 - 1) : ℕ)

/-- `atoll`. -/
def atoll (s : CStr) : Int64 := strtoll 10 s

variable {base : ℕ}

theorem numeral_append_singleton (s : CStr) (b : UInt8) :
    numeral base (s ++ [b]) = base * numeral base s + digitValue b := by
  unfold numeral
  rw [List.foldl_append, List.foldl_cons, List.foldl_nil]

/-- A blank is no digit. -/
theorem digitValue_of_isSpace {b : UInt8} (h : isSpace b = true) : digitValue b = 36 := by
  unfold isSpace at h
  simp only [Bool.or_eq_true, Bool.and_eq_true, decide_eq_true_eq] at h
  rcases h with rfl | ⟨-, h⟩
  · rfl
  · rw [UInt8.le_iff_toNat_le] at h
    have hlow : b.toNat ≤ 13 := h
    unfold digitValue
    simp only [UInt8.le_iff_toNat_le]
    rw [if_neg, if_neg, if_neg]
    all_goals
      rintro ⟨hge, -⟩
      exact absurd (hge.trans hlow) (by decide)

theorem skipHexMark_of_digits {s : CStr} (h : ∀ b ∈ s, digitValue b < 16) :
    skipHexMark base s = s := by
  unfold skipHexMark
  split
  · exact absurd (h 120 (List.mem_cons_of_mem _ List.mem_cons_self)) (by decide)
  · exact absurd (h 88 (List.mem_cons_of_mem _ List.mem_cons_self)) (by decide)
  · rfl

/-- A string of digits begins with no blank, no sign and no `0x`. -/
theorem readNumeral_of_digits (hbase : base ≤ 16) {s : CStr} (h : ∀ b ∈ s, isDigit base b = true) :
    readNumeral base s = (false, numeral base s) := by
  have hdigit : ∀ b ∈ s, digitValue b < 16 := by
    intro b hb
    have := of_decide_eq_true (h b hb)
    omega
  have hblank : s.dropWhile isSpace = s := by
    cases s with
    | nil => rfl
    | cons b s =>
      have hb := hdigit b List.mem_cons_self
      have hne : ¬ isSpace b = true := by
        intro hspace
        rw [digitValue_of_isSpace hspace] at hb
        omega
      rw [List.dropWhile_cons_of_neg hne]
  have hsign : readSign s = (false, s) := by
    unfold readSign
    split
    · exact absurd (hdigit 45 List.mem_cons_self) (by decide)
    · exact absurd (hdigit 43 List.mem_cons_self) (by decide)
    · rfl
  have hall : s.takeWhile (isDigit base) = s := List.takeWhile_eq_self_iff.mpr h
  unfold readNumeral
  rw [hblank, hsign]
  simp only [skipHexMark_of_digits hdigit, hall]

/-- A minus before the digits. -/
theorem readNumeral_minus_cons (hbase : base ≤ 16) {s : CStr}
    (h : ∀ b ∈ s, isDigit base b = true) : readNumeral base (45 :: s) = (true, numeral base s) := by
  have hdigit : ∀ b ∈ s, digitValue b < 16 := by
    intro b hb
    have := of_decide_eq_true (h b hb)
    omega
  have hblank : (45 :: s).dropWhile isSpace = 45 :: s := List.dropWhile_cons_of_neg (by decide)
  have hall : s.takeWhile (isDigit base) = s := List.takeWhile_eq_self_iff.mpr h
  unfold readNumeral
  rw [hblank, readSign]
  simp only [skipHexMark_of_digits hdigit, hall]

theorem strtoul_of_digits (hbase : base ≤ 16) {s : CStr} (h : ∀ b ∈ s, isDigit base b = true)
    {n : UInt32} (hn : numeral base s = n.toNat) : strtoul base s = n := by
  unfold strtoul
  rw [readNumeral_of_digits hbase h]
  simp only [hn, n.toNat_lt, if_true, Bool.false_eq_true, if_false, UInt32.ofNat_toNat]

/-! ### Printing numerals -/

/-- The digit of a value below 16. -/
def digit (d : ℕ) : UInt8 := (Nat.digitChar d).toNat.toUInt8

/-- What `%lu` prints. -/
def decimal (n : ℕ) : CStr := (Nat.toDigits 10 n).map fun c => c.toNat.toUInt8

/-- What `%d` and `%lld` print. -/
def signedDecimal (i : ℤ) : CStr := if i < 0 then 45 :: decimal i.natAbs else decimal i.natAbs

/-- What `%0<width>lx` prints of a number of at most `width` digits. -/
def hexPadded : ℕ → ℕ → CStr
  | 0, _ => []
  | w + 1, n => hexPadded w (n / 16) ++ [digit (n % 16)]

theorem digitValue_digit {d : ℕ} (h : d < 16) : digitValue (digit d) = d := by
  revert d
  decide

theorem decimal_eq (n : ℕ) :
    decimal n = if n < 10 then [digit n] else decimal (n / 10) ++ [digit (n % 10)] := by
  unfold decimal
  rw [Nat.toDigits_eq_if (by omega)]
  split
  · rfl
  · rw [List.map_append]
    rfl

theorem isDigit_decimal {n : ℕ} {b : UInt8} (hb : b ∈ decimal n) : isDigit 10 b = true := by
  induction n using Nat.strong_induction_on generalizing b with
  | _ n ih =>
    rw [decimal_eq] at hb
    split at hb
    · rw [List.mem_singleton] at hb
      rw [hb, isDigit, digitValue_digit (by omega)]
      exact decide_eq_true ‹_›
    · rcases List.mem_append.mp hb with hb | hb
      · exact ih (n / 10) (by omega) hb
      · rw [List.mem_singleton] at hb
        rw [hb, isDigit, digitValue_digit (by omega)]
        exact decide_eq_true (Nat.mod_lt _ (by omega))

theorem not_mem_decimal {b : UInt8} (hb : isDigit 10 b = false) (n : ℕ) : b ∉ decimal n :=
  fun h => Bool.false_ne_true (hb.symm.trans (isDigit_decimal h))

theorem decimal_ne_nil (n : ℕ) : decimal n ≠ [] := by
  rw [decimal_eq]
  split
  · exact List.cons_ne_nil _ _
  · exact List.append_ne_nil_of_right_ne_nil _ (List.cons_ne_nil _ _)

theorem length_decimal_le {n k : ℕ} (hk : 0 < k) (h : n < 10 ^ k) : (decimal n).length ≤ k := by
  unfold decimal
  rw [List.length_map]
  exact (Nat.length_toDigits_le_iff (by omega) hk).mpr h

theorem numeral_decimal (n : ℕ) : numeral 10 (decimal n) = n := by
  induction n using Nat.strong_induction_on with
  | _ n ih =>
    rw [decimal_eq]
    split
    · have hdigit : numeral 10 [digit n] = digitValue (digit n) := Nat.zero_add _
      rw [hdigit, digitValue_digit (by omega)]
    · rw [numeral_append_singleton, ih (n / 10) (by omega), digitValue_digit (by omega)]
      omega

@[simp] theorem length_hexPadded (w n : ℕ) : (hexPadded w n).length = w := by
  induction w generalizing n with
  | zero => rfl
  | succ w ih => rw [hexPadded, List.length_append, ih, List.length_singleton]

theorem isDigit_hexPadded {w n : ℕ} {b : UInt8} (hb : b ∈ hexPadded w n) :
    isDigit 16 b = true := by
  induction w generalizing n with
  | zero => exact absurd hb List.not_mem_nil
  | succ w ih =>
    rcases List.mem_append.mp hb with hb | hb
    · exact ih hb
    · rw [List.mem_singleton] at hb
      rw [hb, isDigit, digitValue_digit (by omega)]
      exact decide_eq_true (Nat.mod_lt _ (by omega))

theorem numeral_hexPadded (w n : ℕ) (h : n < 16 ^ w) : numeral 16 (hexPadded w n) = n := by
  induction w generalizing n with
  | zero =>
    rw [pow_zero] at h
    exact (Nat.lt_one_iff.mp h).symm
  | succ w ih =>
    have hdiv : n / 16 < 16 ^ w := by
      rw [pow_succ] at h
      omega
    rw [hexPadded, numeral_append_singleton, ih _ hdiv, digitValue_digit (by omega)]
    omega

/-! ### Reading what was printed -/

theorem strtoul_decimal (n : UInt32) : strtoul 10 (decimal n.toNat) = n :=
  strtoul_of_digits (by omega) (fun _ => isDigit_decimal) (numeral_decimal _)

theorem strtoul_hexPadded {w : ℕ} (n : UInt32) (h : n.toNat < 16 ^ w) :
    strtoul 16 (hexPadded w n.toNat) = n :=
  strtoul_of_digits le_rfl (fun _ => isDigit_hexPadded) (numeral_hexPadded w _ h)

theorem signedDecimal_natCast (n : ℕ) : signedDecimal n = decimal n := by
  rw [signedDecimal, if_neg (not_lt.mpr (Int.natCast_nonneg n)), Int.natAbs_natCast]

theorem length_signedDecimal_le {i : ℤ} {k : ℕ} (hk : 0 < k) (h : i.natAbs < 10 ^ k) :
    (signedDecimal i).length ≤ k + 1 := by
  have hle := length_decimal_le hk h
  unfold signedDecimal
  split
  · exact Nat.succ_le_succ hle
  · omega

/-- What is neither a digit nor the sign. -/
theorem not_mem_signedDecimal {b : UInt8} (hb : isDigit 10 b = false) (hsign : b ≠ 45) (i : ℤ) :
    b ∉ signedDecimal i := by
  unfold signedDecimal
  split
  · exact List.not_mem_cons_of_ne_of_not_mem hsign (not_mem_decimal hb _)
  · exact not_mem_decimal hb _

/-- An `int64_t` has nineteen digits at most. -/
theorem length_signedDecimal_int64_le (i : Int64) : (signedDecimal i.toInt).length ≤ 20 := by
  have hlow := i.le_toInt
  have hhigh := i.toInt_lt
  exact length_signedDecimal_le (by omega : 0 < 19) (by omega)

theorem readNumeral_signedDecimal (i : ℤ) :
    readNumeral 10 (signedDecimal i) = (decide (i < 0), i.natAbs) := by
  unfold signedDecimal
  split
  next hneg =>
    rw [readNumeral_minus_cons (by omega) (fun _ => isDigit_decimal), numeral_decimal,
      decide_eq_true hneg]
  next hpos =>
    rw [readNumeral_of_digits (by omega) (fun _ => isDigit_decimal), numeral_decimal,
      decide_eq_false hpos]

/-- `atoi` reads every `int` back. -/
theorem atoi_signedDecimal (i : Int32) : atoi (signedDecimal i.toInt) = i := by
  have hlow := i.le_toInt
  have hhigh := i.toInt_lt
  unfold atoi strtol
  rw [readNumeral_signedDecimal]
  simp only [decide_eq_true_eq]
  rw [← Int32.toInt_inj]
  split
  · rw [Int32.toInt_ofInt_of_le (by omega) (by omega)]
    omega
  · rw [Int32.toInt_ofInt_of_le (by omega) (by omega)]
    omega

/-- `atoll` reads every `int64_t` back. -/
theorem atoll_signedDecimal (i : Int64) : atoll (signedDecimal i.toInt) = i := by
  have hlow := i.le_toInt
  have hhigh := i.toInt_lt
  unfold atoll strtoll
  rw [readNumeral_signedDecimal]
  simp only [decide_eq_true_eq]
  rw [← Int64.toInt_inj]
  split
  · rw [Int64.toInt_ofInt_of_le (by omega) (by omega)]
    omega
  · rw [Int64.toInt_ofInt_of_le (by omega) (by omega)]
    omega

/-- `atoi` saturates. -/
theorem toUInt32_atoi_decimal (n : ℕ) :
    (atoi (decimal n)).toUInt32 = UInt32.ofNat (min n (2 ^ 31 - 1)) := by
  unfold atoi strtol
  rw [readNumeral_of_digits (by omega) (fun _ => isDigit_decimal), numeral_decimal]
  simp only [Bool.false_eq_true, if_false]
  rw [Int32.ofInt_eq_ofNat, Int32.toUInt32_ofNat']

/-- `atoi` reads exactly the numbers up to its upper end back. -/
theorem atoi_decimal_iff (n : UInt32) :
    (atoi (decimal n.toNat)).toUInt32 = n ↔ n.toNat < 2 ^ 31 := by
  have hn := n.toNat_lt
  have hmin : min n.toNat (2 ^ 31 - 1) < 2 ^ 32 := by omega
  rw [toUInt32_atoi_decimal, ← UInt32.toNat_inj, UInt32.toNat_ofNat_of_lt' hmin]
  omega

/-! ### Searching and splitting -/

/-- `strstr`: the string from the first occurrence on. -/
def strstr (needle : CStr) : CStr → Option CStr
  | [] => if needle = [] then some [] else none
  | c :: s => if needle.isPrefixOf (c :: s) then some (c :: s) else strstr needle s

/-- `strchr`: the string from the first occurrence on. -/
def strchr (c : UInt8) (s : CStr) : Option CStr :=
  if c ∈ s then some (s.dropWhile (· ≠ c)) else none

/-- The strings that `strtok` gives one after the other, for one delimiter. -/
def strtok (c : UInt8) (s : CStr) : List CStr := (s.splitOn c).filter (· ≠ [])

/-- `snprintf` into a buffer of `size` bytes, as the string in it. -/
def snprintf (size : ℕ) (text : CStr) : CStr := text.take (size - 1)

theorem snprintf_of_length_lt {size : ℕ} {text : CStr} (h : text.length < size) :
    snprintf size text = text :=
  List.take_of_length_le (by omega)

/-- There is an occurrence. -/
theorem isSome_strstr {needle s : CStr} : (strstr needle s).isSome = true ↔ needle <:+: s := by
  induction s with
  | nil =>
    rw [strstr, List.infix_nil]
    by_cases hneedle : needle = [] <;> simp [hneedle]
  | cons c s ih =>
    rw [strstr, List.infix_cons_iff, ← List.isPrefixOf_iff_prefix, ← ih]
    cases needle.isPrefixOf (c :: s) <;> simp

/-- The search goes on after text without the first byte of what it looks for. -/
theorem strstr_append {c : UInt8} {needle front : CStr} (h : c ∉ front) (s : CStr) :
    strstr (c :: needle) (front ++ s) = strstr (c :: needle) s := by
  induction front with
  | nil => rfl
  | cons b front ih =>
    have hne : c ≠ b := fun hcb => h (hcb ▸ List.mem_cons_self)
    have hhead : List.isPrefixOf (c :: needle) (b :: (front ++ s)) = false := by
      simp [List.isPrefixOf, hne]
    rw [List.cons_append, strstr, hhead, if_neg Bool.false_ne_true]
    exact ih (fun hc => h (List.mem_cons_of_mem _ hc))

theorem strchr_append_cons {c : UInt8} {front : CStr} (h : c ∉ front) (s : CStr) :
    strchr c (front ++ c :: s) = some (c :: s) := by
  have hdrop : (front ++ c :: s).dropWhile (· ≠ c) = c :: s := by
    rw [List.dropWhile_append_of_pos]
    · exact List.dropWhile_cons_of_neg (by simp)
    · intro b hb
      exact decide_eq_true (fun hbc : b = c => h (hbc ▸ hb))
  unfold strchr
  rw [if_pos (by simp), hdrop]

theorem strtok_append_cons {c : UInt8} (s t : CStr) :
    strtok c (s ++ c :: t) = strtok c s ++ strtok c t := by
  unfold strtok
  rw [List.splitOn_append_cons_self, List.filter_append]

/-- A string that does not begin with the delimiter has a first piece. -/
theorem strtok_cons_ne_nil {b c : UInt8} (h : b ≠ c) (s : CStr) : strtok c (b :: s) ≠ [] := by
  obtain ⟨piece, pieces, hs⟩ := List.exists_cons_of_ne_nil (List.splitOn_ne_nil c s)
  unfold strtok
  rw [List.splitOn_cons_eq_if_modifyHead, if_neg (by simpa using h), hs]
  simp

theorem strtok_of_not_mem {c : UInt8} {s : CStr} (h : c ∉ s) (hne : s ≠ []) :
    strtok c s = [s] := by
  unfold strtok
  rw [List.splitOn_eq_singleton h]
  simp [hne]

end CStr
