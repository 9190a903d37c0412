import Mathlib
import TollGate.Qr.Blocks

/-!
# The segment in the data codewords

`encodeDataCodewords` takes the shortest mode that has all characters of the text: three digits in
ten bits, two characters of an alphabet of 45 in eleven, or bytes. It collects characters in
`accumData` and appends them when a group is full, and once more at the end.

`segmentBits` are the bits it appends (`holds_encodeDataCodewords`), and a reader that knows the
version reads the text from them, whatever is behind (`readSegment_segmentBits`).
-/

namespace TollGate

namespace Qr

open BitString

/-- The mode for texts of digits only. The source numbers the modes from zero, and writes the
indicator of a mode as a single bit shifted by its number. -/
def modeNumeric : ℕ := 0

/-- The mode for texts of digits, capital letters and nine other characters, which shops and phones
put on tickets. -/
def modeAlphanumeric : ℕ := 1

/-- The mode for all other texts, a byte for each character. Network names and addresses nearly
always have some small letter in them, so it is the one that the screens use. -/
def modeByte : ℕ := 2

/-- The value of a character in the alphanumeric mode, or `-1` for one that is not in its alphabet:
digits first, then capital letters, then a space and eight signs. -/
def getAlphanumeric (c : UInt8) : ℤ :=
  if 48 ≤ c ∧ c ≤ 57 then (c.toNat - 48 : ℕ)
  else if 65 ≤ c ∧ c ≤ 90 then (c.toNat - 65 + 10 : ℕ)
  else if c = 32 then 36
  else if c = 36 then 37
  else if c = 37 then 38
  else if c = 42 then 39
  else if c = 43 then 40
  else if c = 45 then 41
  else if c = 46 then 42
  else if c = 47 then 43
  else if c = 58 then 44
  else -1

/-- Whether the alphanumeric mode has all characters of a text. The empty text counts as numeric
before this is asked. -/
def isAlphanumeric (text : List UInt8) : Bool := text.all fun c => getAlphanumeric c != -1

/-- Whether a text has digits only, which is so for the empty text too; the loop of the source
leaves at the first character that is none. -/
def isNumeric (text : List UInt8) : Bool := text.all fun c => !(decide (c < 48) || decide (57 < c))

/-- The width of the count of characters, which depends on the mode and on the version. The widths
are packed in one constant, three bits for each, less eight; `15` stands for `16`. -/
def getModeBits (version mode : ℕ) : ℕ :=
  let modeInfo := 0x7bbb80a
  let modeInfo := if 9 < version then modeInfo >>> 9 else modeInfo
  let modeInfo := if 26 < version then modeInfo >>> 9 else modeInfo
  let result := 8 + ((modeInfo >>> (3 * mode)) &&& 0x07)
  if result = 15 then 16 else result

/-- The body of the loops that collect `full` characters in one number, each a digit of it to the
base `base`, and append it when it is complete: the buffer, `accumData` and `accumCount`. Both modes
have this loop, with their own numbers. -/
def accumStep (base full width : ℕ) (value : UInt8 → ℕ) (s : BitBucket × ℕ × ℕ) (c : UInt8) :
    BitBucket × ℕ × ℕ :=
  let accumData := s.2.1 * base + value c
  let accumCount := s.2.2 + 1
  if accumCount = full then (bbAppendBits s.1 accumData width, 0, 0)
  else (s.1, accumData, accumCount)

/-- The value of a digit, `text[i] - '0'`. -/
def numericValue (c : UInt8) : ℕ := c.toNat - 48

/-- The value of a character that is known to be in the alphabet, as the loop of the source adds it
up. -/
def alphanumericValue (c : UInt8) : ℕ := (getAlphanumeric c).toNat

/-- The digits of a text, three of them in ten bits, and at the end two in seven bits or one in
four. -/
def encodeNumeric (bb : BitBucket) (text : List UInt8) : BitBucket :=
  let s := text.foldl (accumStep 10 3 10 numericValue) (bb, 0, 0)
  if 0 < s.2.2 then bbAppendBits s.1 s.2.1 (s.2.2 * 3 + 1) else s.1

/-- The characters of a text, two of them in eleven bits, and at the end one in six. -/
def encodeAlphanumeric (bb : BitBucket) (text : List UInt8) : BitBucket :=
  let s := text.foldl (accumStep 45 2 11 alphanumericValue) (bb, 0, 0)
  if 0 < s.2.2 then bbAppendBits s.1 s.2.1 6 else s.1

/-- The mode of a text and the buffer after its segment was appended: the indicator of the mode, the
number of characters, and the characters. The first mode that has all of them is taken, and the byte
mode has any. -/
def encodeDataCodewords (dataCodewords : BitBucket) (text : List UInt8) (version : ℕ) :
    ℕ × BitBucket :=
  if isNumeric text then
    let bb := bbAppendBits dataCodewords (1 <<< modeNumeric) 4
    let bb := bbAppendBits bb text.length (getModeBits version modeNumeric)
    (modeNumeric, encodeNumeric bb text)
  else if isAlphanumeric text then
    let bb := bbAppendBits dataCodewords (1 <<< modeAlphanumeric) 4
    let bb := bbAppendBits bb text.length (getModeBits version modeAlphanumeric)
    (modeAlphanumeric, encodeAlphanumeric bb text)
  else
    let bb := bbAppendBits dataCodewords (1 <<< modeByte) 4
    let bb := bbAppendBits bb text.length (getModeBits version modeByte)
    (modeByte, text.foldl (fun bb c => bbAppendBits bb c.toNat 8) bb)

/-! ### The bits -/

/-- The bits that the numeric mode makes of a text, in groups as the standard has them, without a
buffer and without a number that is carried from one character to the next. -/
def numericBits : List UInt8 → List Bool
  | [] => []
  | [a] => bitsOf 4 (numericValue a)
  | [a, b] => bitsOf 7 (numericValue a * 10 + numericValue b)
  | a :: b :: c :: rest =>
    bitsOf 10 ((numericValue a * 10 + numericValue b) * 10 + numericValue c) ++ numericBits rest

/-- The bits that the alphanumeric mode makes of a text, in groups as the standard has them. -/
def alphanumericBits : List UInt8 → List Bool
  | [] => []
  | [a] => bitsOf 6 (alphanumericValue a)
  | a :: b :: rest =>
    bitsOf 11 (alphanumericValue a * 45 + alphanumericValue b) ++ alphanumericBits rest

/-- The bits of the segment of a text: the indicator of the mode, the number of characters, and the
characters. -/
def segmentBits (version : ℕ) (text : List UInt8) : List Bool :=
  if isNumeric text then
    bitsOf 4 1 ++ bitsOf (getModeBits version modeNumeric) text.length ++ numericBits text
  else if isAlphanumeric text then
    bitsOf 4 2 ++ bitsOf (getModeBits version modeAlphanumeric) text.length ++ alphanumericBits text
  else
    bitsOf 4 4 ++ bitsOf (getModeBits version modeByte) text.length ++ bitsOfBytes text

variable {bb : BitBucket} {bits : List Bool} {text : List UInt8}

/-- Three digits are appended at once, after which the loop has nothing collected and goes on with
the rest as from the start. The loops are followed in such steps, and not one character at a
time. -/
theorem encodeNumeric_three (bb : BitBucket) (a b c : UInt8) (rest : List UInt8) :
    encodeNumeric bb (a :: b :: c :: rest) =
      encodeNumeric (bbAppendBits bb
        ((numericValue a * 10 + numericValue b) * 10 + numericValue c) 10) rest := by
  have hzero : numericValue a = 0 * 10 + numericValue a := by omega
  rw [hzero]
  rfl

/-- Two characters of the alphanumeric mode are appended at once, and the loop goes on with the rest
as from the start. -/
theorem encodeAlphanumeric_two (bb : BitBucket) (a b : UInt8) (rest : List UInt8) :
    encodeAlphanumeric bb (a :: b :: rest) =
      encodeAlphanumeric (bbAppendBits bb (alphanumericValue a * 45 + alphanumericValue b) 11)
        rest := by
  have hzero : alphanumericValue a = 0 * 45 + alphanumericValue a := by omega
  rw [hzero]
  rfl

/-- What the loop of the numeric mode appends is what the standard has for the text, in a buffer
with room for it. -/
theorem holds_encodeNumeric (h : bb.Holds bits)
    (hroom : bits.length + (numericBits text).length ≤ 8 * bb.capacityBytes) :
    (encodeNumeric bb text).Holds (bits ++ numericBits text) ∧
      (encodeNumeric bb text).capacityBytes = bb.capacityBytes := by
  induction text using numericBits.induct generalizing bb bits with
  | case1 =>
    rw [numericBits, List.append_nil]
    exact ⟨h, rfl⟩
  | case2 a =>
    rw [numericBits, length_bitsOf] at hroom
    have hlast : encodeNumeric bb [a] = bbAppendBits bb (numericValue a) 4 := by
      rw [← Nat.zero_add (numericValue a), ← Nat.zero_mul 10]
      rfl
    rw [hlast, numericBits]
    exact ⟨h.appendBits _ hroom, capacity_appendBits _ _ _⟩
  | case3 a b =>
    rw [numericBits, length_bitsOf] at hroom
    have hlast : encodeNumeric bb [a, b] =
        bbAppendBits bb (numericValue a * 10 + numericValue b) 7 := by
      rw [← Nat.zero_add (numericValue a), ← Nat.zero_mul 10]
      rfl
    rw [hlast, numericBits]
    exact ⟨h.appendBits _ hroom, capacity_appendBits _ _ _⟩
  | case4 a b c rest ih =>
    rw [numericBits, List.length_append, length_bitsOf] at hroom
    have hgroup := h.appendBits ((numericValue a * 10 + numericValue b) * 10 + numericValue c)
      (show bits.length + 10 ≤ 8 * bb.capacityBytes by omega)
    have hrest := ih hgroup (by
      rw [List.length_append, length_bitsOf, capacity_appendBits]
      omega)
    rw [List.append_assoc, capacity_appendBits] at hrest
    rw [encodeNumeric_three, numericBits]
    exact hrest

/-- What the loop of the alphanumeric mode appends is what the standard has for the text, in a
buffer with room for it. -/
theorem holds_encodeAlphanumeric (h : bb.Holds bits)
    (hroom : bits.length + (alphanumericBits text).length ≤ 8 * bb.capacityBytes) :
    (encodeAlphanumeric bb text).Holds (bits ++ alphanumericBits text) ∧
      (encodeAlphanumeric bb text).capacityBytes = bb.capacityBytes := by
  induction text using alphanumericBits.induct generalizing bb bits with
  | case1 =>
    rw [alphanumericBits, List.append_nil]
    exact ⟨h, rfl⟩
  | case2 a =>
    rw [alphanumericBits, length_bitsOf] at hroom
    have hlast : encodeAlphanumeric bb [a] = bbAppendBits bb (alphanumericValue a) 6 := by
      rw [← Nat.zero_add (alphanumericValue a), ← Nat.zero_mul 45]
      rfl
    rw [hlast, alphanumericBits]
    exact ⟨h.appendBits _ hroom, capacity_appendBits _ _ _⟩
  | case3 a b rest ih =>
    rw [alphanumericBits, List.length_append, length_bitsOf] at hroom
    have hgroup := h.appendBits (alphanumericValue a * 45 + alphanumericValue b)
      (show bits.length + 11 ≤ 8 * bb.capacityBytes by omega)
    have hrest := ih hgroup (by
      rw [List.length_append, length_bitsOf, capacity_appendBits]
      omega)
    rw [List.append_assoc, capacity_appendBits] at hrest
    rw [encodeAlphanumeric_two, alphanumericBits]
    exact hrest

/-- What the loop of the byte mode appends are the bytes of the text, each with its highest bit
first. -/
theorem holds_encodeBytes (text : List UInt8) (h : bb.Holds bits)
    (hroom : bits.length + 8 * text.length ≤ 8 * bb.capacityBytes) :
    (text.foldl (fun bb c => bbAppendBits bb c.toNat 8) bb).Holds (bits ++ bitsOfBytes text) ∧
      (text.foldl (fun bb c => bbAppendBits bb c.toNat 8) bb).capacityBytes = bb.capacityBytes := by
  induction text generalizing bb bits with
  | nil =>
    rw [show bitsOfBytes [] = [] from rfl, List.append_nil]
    exact ⟨h, rfl⟩
  | cons c text ih =>
    rw [List.length_cons] at hroom
    have hroom : bits.length + 8 ≤ 8 * bb.capacityBytes := by omega
    have hrest := ih (h.appendBits c.toNat hroom) (by
      rw [List.length_append, length_bitsOf, capacity_appendBits]
      omega)
    rw [List.append_assoc, capacity_appendBits] at hrest
    exact hrest

/-- **The segment is appended** where there is room for it, whichever of the three modes the text
has, and the buffer stays as large as it was. -/
theorem holds_encodeDataCodewords (text : List UInt8) (version : ℕ) (h : bb.Holds [])
    (hroom : (segmentBits version text).length ≤ 8 * bb.capacityBytes) :
    (encodeDataCodewords bb text version).2.Holds (segmentBits version text) ∧
      (encodeDataCodewords bb text version).2.capacityBytes = bb.capacityBytes := by
  -- the mode and the count, in front of each of the three
  have hhead : ∀ mode width, 4 + width ≤ 8 * bb.capacityBytes →
      (bbAppendBits (bbAppendBits bb mode 4) text.length width).Holds
          (bitsOf 4 mode ++ bitsOf width text.length) ∧
        (bbAppendBits (bbAppendBits bb mode 4) text.length width).capacityBytes =
          bb.capacityBytes := by
    intro mode width hwidth
    have hmode := h.appendBits mode (show ([] : List Bool).length + 4 ≤ 8 * bb.capacityBytes by
      rw [List.length_nil]
      omega)
    rw [List.nil_append] at hmode
    refine ⟨hmode.appendBits text.length ?_, ?_⟩
    · rw [length_bitsOf, capacity_appendBits]
      exact hwidth
    · rw [capacity_appendBits, capacity_appendBits]
  unfold encodeDataCodewords segmentBits at *
  by_cases hnumeric : isNumeric text = true
  · simp only [if_pos hnumeric, List.length_append, length_bitsOf] at hroom ⊢
    obtain ⟨hstart, hcap⟩ := hhead 1 (getModeBits version modeNumeric) (by omega)
    have hdone := holds_encodeNumeric hstart (by
      rw [List.length_append, length_bitsOf, length_bitsOf, hcap]
      exact hroom)
    rwa [hcap] at hdone
  · by_cases halpha : isAlphanumeric text = true
    · simp only [if_neg hnumeric, if_pos halpha, List.length_append, length_bitsOf] at hroom ⊢
      obtain ⟨hstart, hcap⟩ := hhead 2 (getModeBits version modeAlphanumeric) (by omega)
      have hdone := holds_encodeAlphanumeric hstart (by
        rw [List.length_append, length_bitsOf, length_bitsOf, hcap]
        exact hroom)
      rwa [hcap] at hdone
    · simp only [if_neg hnumeric, if_neg halpha, List.length_append, length_bitsOf,
        length_bitsOfBytes] at hroom ⊢
      obtain ⟨hstart, hcap⟩ := hhead 4 (getModeBits version modeByte) (by omega)
      have hdone := holds_encodeBytes text hstart (by
        rw [List.length_append, length_bitsOf, length_bitsOf, hcap]
        exact hroom)
      rwa [hcap] at hdone

/-! ### Reading -/

/-- A digit is found again from its value, and its value is below ten, so three of them make a
number below a thousand. -/
theorem digit_numericValue {c : UInt8} (h : (!(decide (c < 48) || decide (57 < c))) = true) :
    numericValue c < 10 ∧ Reader.digit (numericValue c) = c := by
  have hall : ∀ c : UInt8, (!(decide (c < 48) || decide (57 < c))) = true →
      numericValue c < 10 ∧ Reader.digit (numericValue c) = c := forall_byte (by decide +kernel)
  exact hall c h

/-- **Digits are read from their bits**, by threes from the front, and the last one or two from the
short groups. What is behind them is left alone. -/
theorem readNumeric_numericBits (h : isNumeric text = true) (rest : List Bool) :
    Reader.readNumeric text.length (numericBits text ++ rest) = some text := by
  induction text using numericBits.induct with
  | case1 => rfl
  | case2 a =>
    simp only [isNumeric, List.all_cons, List.all_nil, Bool.and_true] at h
    obtain ⟨ha, hdigit⟩ := digit_numericValue h
    show (readBits 4 (bitsOf 4 (numericValue a) ++ rest)).map _ = _
    rw [readBits_append (by omega)]
    simp [hdigit]
  | case3 a b =>
    simp only [isNumeric, List.all_cons, List.all_nil, Bool.and_true, Bool.and_eq_true] at h
    obtain ⟨ha, hdigit⟩ := digit_numericValue h.1
    obtain ⟨hb, hdigit'⟩ := digit_numericValue h.2
    show (readBits 7 (bitsOf 7 (numericValue a * 10 + numericValue b) ++ rest)).map _ = _
    rw [readBits_append (by omega), Option.map_some]
    dsimp only
    rw [show (numericValue a * 10 + numericValue b) / 10 = numericValue a by omega,
      show (numericValue a * 10 + numericValue b) % 10 = numericValue b by omega, hdigit, hdigit']
  | case4 a b c text ih =>
    simp only [isNumeric, List.all_cons, Bool.and_eq_true] at h
    obtain ⟨ha, hdigit⟩ := digit_numericValue h.1
    obtain ⟨hb, hdigit'⟩ := digit_numericValue h.2.1
    obtain ⟨hc, hdigit''⟩ := digit_numericValue h.2.2.1
    have hrest := ih h.2.2.2
    set v := (numericValue a * 10 + numericValue b) * 10 + numericValue c with hv
    show Reader.readNumeric (text.length + 3) (bitsOf 10 v ++ numericBits text ++ rest) = _
    rw [Reader.readNumeric, List.append_assoc, readBits_append (by omega)]
    show (Reader.readNumeric text.length (numericBits text ++ rest)).bind _ = _
    rw [hrest, Option.bind_some, show v / 100 = numericValue a by omega,
      show v / 10 % 10 = numericValue b by omega, show v % 10 = numericValue c by omega, hdigit,
      hdigit', hdigit'']

/-- A character of the alphabet is found again from its value: the tests of the source and the table
of the standard have the same order. -/
theorem alphabet_alphanumericValue {c : UInt8} (h : (getAlphanumeric c != -1) = true) :
    alphanumericValue c < 45 ∧ Reader.alphabet[alphanumericValue c]? = some c := by
  have hall : ∀ c : UInt8, (getAlphanumeric c != -1) = true →
      alphanumericValue c < 45 ∧ Reader.alphabet[alphanumericValue c]? = some c :=
    forall_byte (by decide +kernel)
  exact hall c h

/-- **Characters of the alphanumeric mode are read from their bits**, by twos, and the last one from
a group of its own. -/
theorem readAlphanumeric_alphanumericBits (h : isAlphanumeric text = true) (rest : List Bool) :
    Reader.readAlphanumeric text.length (alphanumericBits text ++ rest) = some text := by
  induction text using alphanumericBits.induct with
  | case1 => rfl
  | case2 a =>
    simp only [isAlphanumeric, List.all_cons, List.all_nil, Bool.and_true] at h
    obtain ⟨ha, hchar⟩ := alphabet_alphanumericValue h
    show Reader.readAlphanumeric 1 (bitsOf 6 (alphanumericValue a) ++ rest) = _
    rw [Reader.readAlphanumeric, readBits_append (by omega)]
    show (Reader.alphabet[alphanumericValue a]?).bind _ = _
    rw [hchar]
    rfl
  | case3 a b text ih =>
    simp only [isAlphanumeric, List.all_cons, Bool.and_eq_true] at h
    obtain ⟨ha, hchar⟩ := alphabet_alphanumericValue h.1
    obtain ⟨hb, hchar'⟩ := alphabet_alphanumericValue h.2.1
    have hrest := ih h.2.2
    set v := alphanumericValue a * 45 + alphanumericValue b with hv
    show Reader.readAlphanumeric (text.length + 2)
      (bitsOf 11 v ++ alphanumericBits text ++ rest) = _
    rw [Reader.readAlphanumeric, List.append_assoc, readBits_append (by omega)]
    show (Reader.alphabet[v / 45]?).bind _ = _
    rw [show v / 45 = alphanumericValue a by omega, hchar, Option.bind_some]
    show (Reader.alphabet[v % 45]?).bind _ = _
    rw [show v % 45 = alphanumericValue b by omega, hchar', Option.bind_some]
    show (Reader.readAlphanumeric text.length (alphanumericBits text ++ rest)).bind _ = _
    rw [hrest]
    rfl

/-- The bytes of a text are read from their bits, whatever is behind them. -/
theorem readByte_bitsOfBytes (text : List UInt8) (rest : List Bool) :
    Reader.readByte text.length (bitsOfBytes text ++ rest) = some text := by
  rw [Reader.readByte, if_pos (by rw [List.length_append, length_bitsOfBytes]; omega),
    readBytes_bitsOfBytes]

/-- The widths of the counts are those of the standard, in all forty versions and for all three
modes: the constant in the source was packed without a mistake. -/
theorem getModeBits_eq : ∀ v ∈ List.range' 1 40,
    getModeBits v modeNumeric = Reader.countWidth v 1 ∧
      getModeBits v modeAlphanumeric = Reader.countWidth v 2 ∧
      getModeBits v modeByte = Reader.countWidth v 4 := by
  decide

/-- **The text is read from its segment**, whatever is behind it, as long as the number of its
characters fits the width that the version has for it in each mode. -/
theorem readSegment_segmentBits {version : ℕ} (h1 : 1 ≤ version) (h40 : version ≤ 40)
    (hcount : ∀ mode ∈ [1, 2, 4], text.length < 2 ^ Reader.countWidth version mode)
    (rest : List Bool) :
    Reader.readSegment version (segmentBits version text ++ rest) = some text := by
  obtain ⟨hnum, halph, hbyte⟩ := getModeBits_eq version (List.mem_range'_1.mpr (by omega))
  unfold segmentBits
  by_cases hnumeric : isNumeric text = true
  · rw [if_pos hnumeric, hnum, List.append_assoc, List.append_assoc, Reader.readSegment,
      readBits_append (by omega)]
    show (readBits (Reader.countWidth version 1) _).bind _ = _
    rw [readBits_append (hcount 1 (by decide)), Option.bind_some]
    exact readNumeric_numericBits hnumeric rest
  · by_cases halpha : isAlphanumeric text = true
    · rw [if_neg hnumeric, if_pos halpha, halph, List.append_assoc, List.append_assoc,
        Reader.readSegment, readBits_append (by omega)]
      show (readBits (Reader.countWidth version 2) _).bind _ = _
      rw [readBits_append (hcount 2 (by decide)), Option.bind_some]
      exact readAlphanumeric_alphanumericBits halpha rest
    · rw [if_neg hnumeric, if_neg halpha, hbyte, List.append_assoc, List.append_assoc,
        Reader.readSegment, readBits_append (by omega)]
      show (readBits (Reader.countWidth version 4) _).bind _ = _
      rw [readBits_append (hcount 4 (by decide)), Option.bind_some]
      exact readByte_bitsOfBytes text rest

/-! ### The length -/

/-- No mode makes more of a text than four bits a digit, so a text with room in the byte mode has
room in the numeric mode too. -/
theorem length_numericBits_le (text : List UInt8) :
    (numericBits text).length ≤ 4 * text.length := by
  induction text using numericBits.induct with
  | case1 => rfl
  | case2 a => rfl
  | case3 a b =>
    rw [numericBits, length_bitsOf]
    simp only [List.length_cons, List.length_nil]
    omega
  | case4 a b c rest ih =>
    rw [numericBits, List.length_append, length_bitsOf]
    simp only [List.length_cons]
    omega

/-- At most six bits a character, so a text with room in the byte mode has room in the alphanumeric
mode. -/
theorem length_alphanumericBits_le (text : List UInt8) :
    (alphanumericBits text).length ≤ 6 * text.length := by
  induction text using alphanumericBits.induct with
  | case1 => rfl
  | case2 a => rfl
  | case3 a b rest ih =>
    rw [alphanumericBits, List.length_append, length_bitsOf]
    simp only [List.length_cons]
    omega

end Qr

end TollGate
