import TollGate.Relay.Event

/-!
# Hexadecimal text

`relay_hex_to_bytes` and `relay_bytes_to_hex`. The reader gives two characters at a time to
`sscanf`, which passes over blanks, takes a sign for one of the two characters, and is content with
one digit; and it goes on in steps of two whatever was read, so that a string with an odd number
of characters is read on behind its terminator.

So the reader accepts exactly the digits, and stays inside of the string, unless a number begins in
each of the steps up to the end (`strict_hex_iff`).
-/

namespace TollGate

namespace Relay

open CStr CJson

/-! ### What is looked at -/

/-- The number of bytes that `sscanf(mem, "%02x", &byte)` looks at: the blanks, and then the
character that ends the numeral or its second one. -/
def scanExamined (mem : List UInt8) : ℕ :=
  let blanks := (mem.takeWhile isSpace).length
  match mem.dropWhile isSpace with
  | [] => blanks + 1
  | c :: _ => if c = 43 ∨ c = 45 ∨ isDigit 16 c then blanks + 2 else blanks + 1

/-- The number of bytes up to the last one that the loop of `relay_hex_to_bytes` looks at. -/
def hexExamined : ℕ → List UInt8 → ℕ
  | 0, _ => 0
  | n + 1, mem =>
    match scanHexByte mem with
    | none => scanExamined mem
    | some _ => max (scanExamined mem) (2 + hexExamined n (mem.drop 2))

/-- The first `2 * n` characters are hexadecimal digits. -/
def FirstDigits (n : ℕ) (s : CStr) : Prop :=
  2 * n ≤ s.length ∧ ∀ b ∈ s.take (2 * n), isDigit 16 b = true

/-- A number begins the text: after blanks a digit, or a sign and a digit. -/
def BeginsNumber (s : CStr) : Prop :=
  match s.dropWhile isSpace with
  | [] => False
  | c :: rest =>
    isDigit 16 c = true ∨ ((c = 43 ∨ c = 45) ∧ ∃ d ∈ rest.head?, isDigit 16 d = true)

/-- In one of the steps inside of the string no number begins. -/
def Stops (n : ℕ) (s : CStr) : Prop :=
  ∃ i < n, 2 * i ≤ s.length ∧ ¬ BeginsNumber (s.drop (2 * i))

/-! ### One step -/

section Step

variable (s mem : List UInt8)

theorem dropWhile_terminated :
    (s ++ 0 :: mem).dropWhile isSpace = s.dropWhile isSpace ++ 0 :: mem := by
  rw [List.dropWhile_append]
  split
  next hall =>
    rw [List.isEmpty_iff.mp hall]
    rfl
  · rfl

theorem takeWhile_terminated : (s ++ 0 :: mem).takeWhile isSpace = s.takeWhile isSpace := by
  have hnul : ∀ mem : List UInt8, (0 :: mem).takeWhile isSpace = [] := fun mem =>
    List.takeWhile_cons_of_neg (by decide)
  induction s with
  | nil => exact hnul mem
  | cons c s ih =>
    rw [List.cons_append, List.takeWhile_cons, List.takeWhile_cons, ih]

/-- The character after the first one, where the terminator is no digit. -/
theorem head?_terminated (P : UInt8 → Prop) (hnul : ¬ P 0) :
    (∃ d ∈ (s ++ 0 :: mem).head?, P d) ↔ ∃ d ∈ s.head?, P d := by
  cases s with
  | nil =>
    refine iff_of_false ?_ (by simp)
    rintro ⟨d, hd, hP⟩
    obtain rfl : 0 = d := Option.some.inj hd
    exact hnul hP
  | cons c s => exact Iff.rfl

/-- What stands behind the terminator does not matter for the step. -/
theorem isSome_scanHexByte : (scanHexByte (s ++ 0 :: mem)).isSome ↔ BeginsNumber s := by
  have hnul : ¬ isDigit 16 0 = true := by decide
  unfold scanHexByte BeginsNumber
  rw [dropWhile_terminated]
  cases s.dropWhile isSpace with
  | nil =>
    refine iff_of_false ?_ not_false
    exact Bool.false_ne_true
  | cons c rest =>
    dsimp only [List.cons_append]
    -- a sign needs a digit behind it, a digit needs nothing
    by_cases hsign : c = 43 ∨ c = 45
    · have hnone : ¬ isDigit 16 c = true := by
        rcases hsign with rfl | rfl <;> decide
      rw [if_pos hsign, ← head?_terminated rest mem (isDigit 16 · = true) hnul]
      cases (rest ++ 0 :: mem).head? with
      | none => simp [hnone]
      | some d => by_cases hd : isDigit 16 d = true <;> simp [hnone, hsign, hd]
    · rw [if_neg hsign]
      by_cases hc : isDigit 16 c = true
      · rw [if_pos hc]
        refine iff_of_true ?_ (.inl hc)
        cases (rest ++ 0 :: mem).head? with
        | none => rfl
        | some d => by_cases hd : isDigit 16 d = true <;> simp [hd]
      · rw [if_neg hc]
        simp [hc, hsign]

/-- A step inside of the string looks at nothing behind the terminator. -/
theorem scanExamined_le : scanExamined (s ++ 0 :: mem) ≤ s.length + 1 := by
  have hsplit := congrArg List.length (@List.takeWhile_append_dropWhile _ isSpace s)
  rw [List.length_append] at hsplit
  unfold scanExamined
  rw [dropWhile_terminated, takeWhile_terminated]
  cases hd : s.dropWhile isSpace with
  | nil =>
    have hzero : ¬ ((0 : UInt8) = 43 ∨ (0 : UInt8) = 45 ∨ isDigit 16 0 = true) := by decide
    rw [hd, List.length_nil] at hsplit
    dsimp only [List.nil_append]
    rw [if_neg hzero]
    omega
  | cons c rest =>
    rw [hd, List.length_cons] at hsplit
    dsimp only [List.cons_append]
    split <;> omega

theorem scanExamined_pos : 0 < scanExamined mem := by
  unfold scanExamined
  split
  · exact Nat.succ_pos _
  · split <;> exact Nat.succ_pos _

end Step

/-! ### The loop -/

section Loop

variable (mem : List UInt8)

/-- A step in which no number begins ends the loop, before it comes to the terminator. -/
theorem hexLoop_of_stops {n : ℕ} {s : CStr} (h : Stops n s) :
    (hexLoop n (s ++ 0 :: mem)).2 = false ∧
      hexExamined n (s ++ 0 :: mem) ≤ s.length + 1 := by
  induction n generalizing s with
  | zero =>
    obtain ⟨i, hi, -⟩ := h
    exact absurd hi (Nat.not_lt_zero i)
  | succ n ih =>
    have hfirst := scanExamined_le s mem
    rw [hexLoop, hexExamined]
    cases hscan : scanHexByte (s ++ 0 :: mem) with
    | none => exact ⟨rfl, hfirst⟩
    | some b =>
      have hbegins : BeginsNumber s := (isSome_scanHexByte s mem).mp (by rw [hscan]; rfl)
      -- a number begins here, so the step without one comes later
      obtain ⟨i, hi, hle, hstop⟩ := h
      cases i with
      | zero => exact absurd hbegins hstop
      | succ i =>
        have hdrop : (s ++ 0 :: mem).drop 2 = s.drop 2 ++ 0 :: mem :=
          List.drop_append_of_le_length (by omega)
        have hrest : Stops n (s.drop 2) := by
          refine ⟨i, Nat.lt_of_succ_lt_succ hi, ?_, ?_⟩
          · rw [List.length_drop]
            omega
          · rw [List.drop_drop, show 2 + 2 * i = 2 * (i + 1) by omega]
            exact hstop
        obtain ⟨hfalse, hexamined⟩ := ih hrest
        rw [List.length_drop] at hexamined
        dsimp only
        rw [hdrop]
        exact ⟨hfalse, max_le hfirst (by omega)⟩

/-- Without one the reader accepts, or looks behind the terminator. -/
theorem hexLoop_of_not_stops {n : ℕ} {s : CStr} (h : ¬ Stops n s) :
    (hexLoop n (s ++ 0 :: mem)).2 = true ∨
      s.length + 1 < hexExamined n (s ++ 0 :: mem) := by
  induction n generalizing s with
  | zero => exact .inl rfl
  | succ n ih =>
    have hbegins : BeginsNumber s := by
      by_contra hnot
      exact h ⟨0, Nat.succ_pos n, Nat.zero_le _, hnot⟩
    obtain ⟨b, hb⟩ := Option.isSome_iff_exists.mp ((isSome_scanHexByte s mem).mpr hbegins)
    rw [hexLoop, hexExamined, hb]
    dsimp only
    -- the string has no character left, one, or the two of a step
    rcases s with _ | ⟨c, _ | ⟨d, s⟩⟩
    · exact hbegins.elim
    · -- the second step begins behind the terminator
      cases n with
      | zero => exact .inl rfl
      | succ n =>
        right
        refine lt_max_of_lt_right ?_
        show 2 < 2 + hexExamined (n + 1) mem
        rw [hexExamined]
        have hpos := scanExamined_pos mem
        cases scanHexByte mem with
        | none => exact Nat.lt_add_of_pos_right hpos
        | some b => exact Nat.lt_add_of_pos_right (lt_max_of_lt_left hpos)
    · have hrest : ¬ Stops n s := by
        rintro ⟨i, hi, hle, hstop⟩
        refine h ⟨i + 1, Nat.succ_lt_succ hi, ?_, hstop⟩
        simp only [List.length_cons]
        omega
      rcases ih hrest with hok | hover
      · exact .inl hok
      · right
        refine lt_max_of_lt_right ?_
        show s.length + 1 + 1 + 1 < 2 + hexExamined n (s ++ 0 :: mem)
        omega

end Loop

/-! ### Digits -/

/-- The hexadecimal digits. -/
def hexDigits : CStr :=
  [48, 49, 50, 51, 52, 53, 54, 55, 56, 57, 65, 66, 67, 68, 69, 70, 97, 98, 99, 100, 101, 102]

theorem mem_hexDigits {b : UInt8} (h : isDigit 16 b = true) : b ∈ hexDigits := by
  have hvalue : digitValue b < 16 := of_decide_eq_true h
  have hb : b = UInt8.ofNat b.toNat := UInt8.ofNat_toNat.symm
  unfold digitValue at hvalue
  simp only [UInt8.le_iff_toNat_le, UInt8.reduceToNat] at hvalue
  generalize b.toNat = n at hb hvalue
  subst hb
  -- ten digits and twice six letters
  split at hvalue
  next hrange =>
    obtain ⟨hlow, hhigh⟩ := hrange
    interval_cases n <;> decide
  · split at hvalue
    next hrange =>
      obtain ⟨hlow, -⟩ := hrange
      have hhigh : n < 71 := by omega
      interval_cases n <;> decide
    · split at hvalue
      next hrange =>
        obtain ⟨hlow, -⟩ := hrange
        have hhigh : n < 103 := by omega
        interval_cases n <;> decide
      · omega

set_option maxRecDepth 4000 in
theorem digit_digitValue {b : UInt8} (h : isDigit 16 b = true) :
    digit (digitValue b) = toLower b := by
  have hall : ∀ b ∈ hexDigits, digit (digitValue b) = toLower b := by decide
  exact hall b (mem_hexDigits h)

set_option maxRecDepth 4000 in
theorem not_blank_of_isDigit {b : UInt8} (h : isDigit 16 b = true) :
    isSpace b = false ∧ b ≠ 43 ∧ b ≠ 45 := by
  have hall : ∀ b ∈ hexDigits, isSpace b = false ∧ b ≠ 43 ∧ b ≠ 45 := by decide
  exact hall b (mem_hexDigits h)

/-- Two digits are read as one byte, which is printed as the two digits. -/
theorem scanHexByte_digits {a b : UInt8} (ha : isDigit 16 a = true) (hb : isDigit 16 b = true)
    (mem : List UInt8) :
    ∃ byte, scanHexByte (a :: b :: mem) = some byte ∧
      hexPadded 2 byte.toNat = [toLower a, toLower b] ∧ scanExamined (a :: b :: mem) = 2 := by
  obtain ⟨hblank, hplus, hminus⟩ := not_blank_of_isDigit ha
  have hva : digitValue a < 16 := of_decide_eq_true ha
  have hvb : digitValue b < 16 := of_decide_eq_true hb
  have hbyte : (16 * hexDigit a + hexDigit b).toNat = 16 * digitValue a + digitValue b := by
    have hsixteen : (16 : UInt8).toNat = 16 := rfl
    simp only [hexDigit, UInt8.toNat_add, UInt8.toNat_mul, UInt8.toNat_ofNat', hsixteen]
    omega
  have hdrop : (a :: b :: mem).dropWhile isSpace = a :: b :: mem :=
    List.dropWhile_cons_of_neg (by rw [hblank]; exact Bool.false_ne_true)
  have htake : (a :: b :: mem).takeWhile isSpace = [] :=
    List.takeWhile_cons_of_neg (by rw [hblank]; exact Bool.false_ne_true)
  -- it is read, it is printed, and nothing else is looked at
  refine ⟨16 * hexDigit a + hexDigit b, ?_, ?_, ?_⟩
  · unfold scanHexByte
    rw [hdrop]
    simp [hplus, hminus, ha, hb]
  · rw [hbyte, ← digit_digitValue ha, ← digit_digitValue hb]
    have hhigh : (16 * digitValue a + digitValue b) / 16 % 16 = digitValue a := by omega
    have hlow : (16 * digitValue a + digitValue b) % 16 = digitValue b := by omega
    show [digit ((16 * digitValue a + digitValue b) / 16 % 16),
      digit ((16 * digitValue a + digitValue b) % 16)] = _
    rw [hhigh, hlow]
  · unfold scanExamined
    rw [hdrop, htake]
    dsimp only
    rw [if_pos (.inr (.inr ha))]
    rfl

/-- Digits are read and printed, and nothing else is looked at. -/
theorem hexLoop_of_digits (mem : List UInt8) {n : ℕ} {s : CStr} (h : FirstDigits n s) :
    (hexLoop n (s ++ 0 :: mem)).2 = true ∧
      hexText (hexLoop n (s ++ 0 :: mem)).1 = (s.take (2 * n)).map toLower ∧
        hexExamined n (s ++ 0 :: mem) ≤ s.length + 1 := by
  induction n generalizing s with
  | zero => exact ⟨rfl, rfl, Nat.zero_le _⟩
  | succ n ih =>
    obtain ⟨hlen, hdigits⟩ := h
    have htwo : 2 * (n + 1) = 2 * n + 1 + 1 := by omega
    rw [htwo] at hlen hdigits ⊢
    rcases s with _ | ⟨a, _ | ⟨b, s⟩⟩
    · exact absurd hlen (by simp)
    · exact absurd hlen (by simp)
    · rw [List.take_succ_cons, List.take_succ_cons, List.forall_mem_cons,
        List.forall_mem_cons] at hdigits
      obtain ⟨ha, hb, hrest⟩ := hdigits
      obtain ⟨byte, hscan, hprint, hexamined⟩ := scanHexByte_digits ha hb (s ++ 0 :: mem)
      have hfirst : FirstDigits n s := by
        refine ⟨?_, hrest⟩
        simp only [List.length_cons] at hlen
        omega
      obtain ⟨hok, hlower, hinside⟩ := ih hfirst
      have hcons : a :: b :: s ++ 0 :: mem = a :: b :: (s ++ 0 :: mem) := rfl
      rw [hcons, hexLoop, hexExamined, hscan, hexamined]
      refine ⟨hok, ?_, ?_⟩
      · show hexPadded 2 byte.toNat ++ hexText (hexLoop n (s ++ 0 :: mem)).1 = _
        rw [hprint, hlower]
        rfl
      · show max 2 (2 + hexExamined n (s ++ 0 :: mem)) ≤ s.length + 1 + 1 + 1
        omega

/-! ### Strict reading -/

/-- Exactly the digits are accepted, only the string is looked at, and what was accepted is printed
as the characters in lower case. -/
structure StrictHex (heap : CStr → List UInt8) (s : CStr) (n : ℕ) : Prop where
  accepts : (relayHexToBytes (memory heap s) (2 * n) n).2 = true ↔ FirstDigits n s
  inside : hexExamined n (memory heap s) ≤ s.length + 1
  lower : (relayHexToBytes (memory heap s) (2 * n) n).2 = true →
    hexText (relayHexToBytes (memory heap s) (2 * n) n).1 = (s.take (2 * n)).map toLower

theorem relayHexToBytes_two_mul (mem : List UInt8) (n : ℕ) :
    relayHexToBytes mem (2 * n) n = hexLoop n mem :=
  if_neg (not_not.mpr (Nat.mul_comm 2 n))

/-- **Exactly when the reader is strict**: all characters are digits, or one of the steps inside of
the string finds no number. Printed bytes are always read back. -/
theorem strict_hex_iff (heap : CStr → List UInt8) (s : CStr) (n : ℕ) :
    (StrictHex heap s n ↔ FirstDigits n s ∨ Stops n s) ∧
      ∀ bytes, relayHexToBytes (memory heap (hexText bytes)) (2 * bytes.length) bytes.length =
        (bytes, true) := by
  refine ⟨⟨fun h => ?_, ?_⟩, fun bytes => ?_⟩
  · by_contra hneither
    obtain ⟨hdigits, hstops⟩ := not_or.mp hneither
    rcases hexLoop_of_not_stops (heap s) hstops with hok | hover
    · refine hdigits (h.accepts.mp ?_)
      rw [relayHexToBytes_two_mul]
      exact hok
    · exact absurd h.inside (Nat.not_le_of_lt hover)
  · rintro (hdigits | hstops)
    · obtain ⟨hok, hlower, hinside⟩ := hexLoop_of_digits (heap s) hdigits
      refine ⟨?_, hinside, fun _ => ?_⟩
      · rw [relayHexToBytes_two_mul]
        exact iff_of_true hok hdigits
      · rw [relayHexToBytes_two_mul]
        exact hlower
    · obtain ⟨hfalse, hinside⟩ := hexLoop_of_stops (heap s) hstops
      have hrefused : ¬ (relayHexToBytes (memory heap s) (2 * n) n).2 = true := by
        rw [relayHexToBytes_two_mul]
        exact fun h => Bool.false_ne_true (hfalse.symm.trans h)
      refine ⟨iff_of_false hrefused fun hdigits => ?_, hinside, fun h => absurd h hrefused⟩
      rw [relayHexToBytes_two_mul] at hrefused
      exact hrefused (hexLoop_of_digits (heap s) hdigits).1
  · rw [relayHexToBytes_two_mul]
    exact hexLoop_hexText bytes (0 :: heap (hexText bytes))

/-- A sign and a digit are one byte. -/
theorem sign_accepted :
    relayHexToBytes (memory (fun _ => []) (cstr "+1")) 2 1 = ([1], true) ∧
      ¬ FirstDigits 1 (cstr "+1") ∧ ¬ StrictHex (fun _ => []) (cstr "+1") 1 := by
  have hread : relayHexToBytes (memory (fun _ => []) (cstr "+1")) 2 1 = ([1], true) := by decide
  have hdigits : ¬ FirstDigits 1 (cstr "+1") := fun h => absurd (h.2 43 (by decide)) (by decide)
  refine ⟨hread, hdigits, fun h => hdigits (h.accepts.mp ?_)⟩
  exact congrArg Prod.snd hread

end Relay

end TollGate
