import TollGate.Lib.CText

/-!
# JSON text

The text of a JSON value with all that its syntax leaves open: blanks between the tokens,
the order of the members, escapes in the strings and the ways to write a number. `Derives` is
its grammar. A derivation is over lexemes, which are strings and the text between them, and
it has all members in the text, at any depth, in their order.

Programs that do not parse a text look for `"name"` or `"name":` in it with `strstr`.
`strstr_quoted` says what such a search finds: the first string that is spelled like this or
ends so behind an escaped quote. With the colon it is the first member with such a name
(`strstr_member`).
-/

namespace JsonText

open CStr

/-! ### Strings -/

/-- A character of a string. -/
inductive StringChar where
  /-- A byte that stands for itself. -/
  | plain (b : UInt8) (h : 32 ≤ b ∧ b ≠ 34 ∧ b ≠ 92)
  /-- A backslash and one of `"\/bfnrt`. -/
  | escape (b : UInt8) (h : b ∈ [34, 92, 47, 98, 102, 110, 114, 116])
  /-- `\u` and four hexadecimal digits. -/
  | unicode (digits : CStr) (h : digits.length = 4 ∧ ∀ d ∈ digits, isDigit 16 d = true)
deriving DecidableEq

/-- The bytes of a character in the text. -/
def StringChar.text : StringChar → CStr
  | .plain b _ => [b]
  | .escape b _ => [92, b]
  | .unicode digits _ => 92 :: 117 :: digits

/-- The text between the quotes. -/
def rawText (raw : List StringChar) : CStr := raw.flatMap StringChar.text

/-- What an escaped letter stands for. -/
def escaped (b : UInt8) : UInt8 :=
  if b = 98 then 8 else if b = 102 then 12 else if b = 110 then 10 else if b = 114 then 13
  else if b = 116 then 9 else b

/-- A code point in UTF-8. -/
def utf8 (c : ℕ) : CStr :=
  if c < 0x80 then [UInt8.ofNat c]
  else if c < 0x800 then [UInt8.ofNat (0xC0 + c / 64), UInt8.ofNat (0x80 + c % 64)]
  else if c < 0x10000 then
    [UInt8.ofNat (0xE0 + c / 4096), UInt8.ofNat (0x80 + c / 64 % 64), UInt8.ofNat (0x80 + c % 64)]
  else
    [UInt8.ofNat (0xF0 + c / 262144), UInt8.ofNat (0x80 + c / 4096 % 64),
      UInt8.ofNat (0x80 + c / 64 % 64), UInt8.ofNat (0x80 + c % 64)]

/-- The string that is meant, after the first half of a surrogate pair if there is one. -/
def decodeFrom : Option ℕ → List StringChar → CStr
  | hi, [] => (hi.map utf8).getD []
  | hi, .plain b _ :: raw => (hi.map utf8).getD [] ++ b :: decodeFrom none raw
  | hi, .escape b _ :: raw => (hi.map utf8).getD [] ++ escaped b :: decodeFrom none raw
  | hi, .unicode digits _ :: raw =>
    let u := numeral 16 digits
    if hi.isSome ∧ 0xDC00 ≤ u ∧ u < 0xE000 then
      utf8 (0x10000 + (hi.getD 0 - 0xD800) * 1024 + (u - 0xDC00)) ++ decodeFrom none raw
    else if 0xD800 ≤ u ∧ u < 0xDC00 then (hi.map utf8).getD [] ++ decodeFrom (some u) raw
    else (hi.map utf8).getD [] ++ utf8 u ++ decodeFrom none raw

/-- The string that is meant. -/
def decode (raw : List StringChar) : CStr := decodeFrom none raw

/-- The characters of a text without quotes, backslashes and control characters. -/
def plainString (s : CStr) : List StringChar :=
  s.filterMap fun b => if h : 32 ≤ b ∧ b ≠ 34 ∧ b ≠ 92 then some (.plain b h) else none

/-! ### Numbers -/

/-- The exponent of a number. -/
structure Exponent where
  /-- `e` or `E`, and a sign that may be missing. -/
  mark : CStr
  digits : CStr
  hmark : mark ∈ [cstr "e", cstr "E", cstr "e+", cstr "E+", cstr "e-", cstr "E-"]
  hdigits : digits ≠ [] ∧ ∀ d ∈ digits, isDigit 10 d = true

/-- A number. The fraction is empty if there is none. -/
structure Numeral where
  minus : Bool
  whole : ℕ
  fraction : CStr
  exponent : Option Exponent
  hfraction : ∀ d ∈ fraction, isDigit 10 d = true

namespace Numeral

/-- The text of the exponent. -/
def exponentText (n : Numeral) : CStr :=
  (n.exponent.map fun e => e.mark ++ e.digits).getD []

/-- The text of the number. -/
def text (n : Numeral) : CStr :=
  (if n.minus then [45] else []) ++ decimal n.whole ++
    (if n.fraction = [] then [] else 46 :: n.fraction) ++ n.exponentText

/-- The power of ten. -/
def power (n : Numeral) : ℤ :=
  (n.exponent.map fun e =>
    if 45 ∈ e.mark then -(numeral 10 e.digits : ℤ) else numeral 10 e.digits).getD 0

/-- The number that is meant. -/
def value (n : Numeral) : ℚ :=
  (if n.minus then -1 else 1) * (n.whole + numeral 10 n.fraction / 10 ^ n.fraction.length) *
    10 ^ n.power

end Numeral

/-! ### Lexemes -/

/-- A string, or text without a quote. -/
inductive Lexeme where
  | str (raw : List StringChar)
  | other (text : CStr)

/-- The text of a lexeme. -/
def Lexeme.text : Lexeme → CStr
  | .str raw => 34 :: rawText raw ++ [34]
  | .other text => text

/-- The text of lexemes. -/
def print (ls : List Lexeme) : CStr := ls.flatMap Lexeme.text

/-! ### The grammar -/

/-- A member of an object: its name, the blanks before the colon and behind it, and the value. -/
structure Member where
  name : List StringChar
  before : CStr
  gap : CStr
  value : List Lexeme

/-- The lexemes of a member. -/
def Member.lexemes (m : Member) : List Lexeme :=
  .str m.name :: .other m.before :: .other [58] :: .other m.gap :: m.value

/-- A blank of JSON. -/
def isBlank (b : UInt8) : Bool := b = 32 || b = 9 || b = 10 || b = 13

/-- There are only blanks. -/
def Blank (s : CStr) : Prop := ∀ b ∈ s, isBlank b = true

instance (s : CStr) : Decidable (Blank s) := List.decidableBAll _ s

/-- What is derived. -/
inductive Nonterminal where
  | value
  /-- The items of an array. -/
  | items
  /-- These members of an object. -/
  | members (top : List Member)

/-- The lexemes are derived from the nonterminal, and these are all members in them. -/
inductive Derives : Nonterminal → List Lexeme → List Member → Prop where
  | string (raw : List StringChar) : Derives .value [.str raw] []
  | number (n : Numeral) : Derives .value [.other n.text] []
  | literal {t : CStr} (h : t ∈ [cstr "true", cstr "false", cstr "null"]) :
    Derives .value [.other t] []
  | emptyArray {a : CStr} (ha : Blank a) :
    Derives .value [.other [91], .other a, .other [93]] []
  | array {ls : List Lexeme} {ms : List Member} (h : Derives .items ls ms) :
    Derives .value (.other [91] :: (ls ++ [.other [93]])) ms
  | emptyObject {a : CStr} (ha : Blank a) :
    Derives .value [.other [123], .other a, .other [125]] []
  | object {top ms : List Member} {ls : List Lexeme} (h : Derives (.members top) ls ms) :
    Derives .value (.other [123] :: (ls ++ [.other [125]])) ms
  | item {a b : CStr} {v : List Lexeme} {ms : List Member} (ha : Blank a) (hb : Blank b)
    (hv : Derives .value v ms) : Derives .items (.other a :: (v ++ [.other b])) ms
  | items {a b : CStr} {v ls : List Lexeme} {ms ms' : List Member} (ha : Blank a) (hb : Blank b)
    (hv : Derives .value v ms) (hls : Derives .items ls ms') :
    Derives .items (.other a :: (v ++ .other b :: .other [44] :: ls)) (ms ++ ms')
  | member {a b : CStr} {m : Member} {ms : List Member} (ha : Blank a) (hb : Blank b)
    (hbefore : Blank m.before) (hgap : Blank m.gap) (hv : Derives .value m.value ms) :
    Derives (.members [m]) (.other a :: (m.lexemes ++ [.other b])) (m :: ms)
  | members {a b : CStr} {m : Member} {ls : List Lexeme} {ms top ms' : List Member}
    (ha : Blank a) (hb : Blank b) (hbefore : Blank m.before) (hgap : Blank m.gap)
    (hv : Derives .value m.value ms) (hls : Derives (.members top) ls ms') :
    Derives (.members (m :: top)) (.other a :: (m.lexemes ++ .other b :: .other [44] :: ls))
      (m :: (ms ++ ms'))

/-- The lexemes are an object with the members `top`, and `ms` are all members in it. -/
def IsDocument (ls : List Lexeme) (top ms : List Member) : Prop :=
  ∃ a inner b, Blank a ∧ Derives (.members top) inner ms ∧ Blank b ∧
    ls = .other a :: .other [123] :: (inner ++ [.other [125], .other b])

/-- The text is an object with the members `top`, and `ms` are all members in it. -/
def IsObject (text : CStr) (top ms : List Member) : Prop :=
  ∃ ls, IsDocument ls top ms ∧ text = print ls

/-- The members with a name. -/
def named (top : List Member) (name : String) : List Member :=
  top.filter fun m => decode m.name = cstr name

/-- There is one member with the name, a string with this text. -/
def StringField (top : List Member) (name : String) (text : CStr) : Prop :=
  ∃ (m : Member) (raw : List StringChar), named top name = [m] ∧ m.value = [.str raw] ∧
    decode raw = text

/-- There is one member with the name, this number. -/
def NumberField (top : List Member) (name : String) (q : ℚ) : Prop :=
  ∃ (m : Member) (n : Numeral), named top name = [m] ∧ m.value = [.other n.text] ∧ n.value = q

/-! ### Plain strings -/

/-- A text without quotes, backslashes and control characters. -/
def IsPlain (s : CStr) : Prop := ∀ b ∈ s, 32 ≤ b ∧ b ≠ 34 ∧ b ≠ 92

instance (s : CStr) : Decidable (IsPlain s) := List.decidableBAll _ s

theorem plainString_cons {b : UInt8} (h : 32 ≤ b ∧ b ≠ 34 ∧ b ≠ 92) (s : CStr) :
    plainString (b :: s) = .plain b h :: plainString s := by
  unfold plainString
  rw [List.filterMap_cons, dif_pos h]

theorem rawText_plainString {s : CStr} (h : IsPlain s) : rawText (plainString s) = s := by
  induction s with
  | nil => rfl
  | cons b s ih =>
    rw [plainString_cons (h b List.mem_cons_self), rawText, List.flatMap_cons, ← rawText,
      ih fun c hc => h c (List.mem_cons_of_mem b hc)]
    rfl

theorem decode_plainString {s : CStr} (h : IsPlain s) : decode (plainString s) = s := by
  unfold decode
  induction s with
  | nil => rfl
  | cons b s ih =>
    rw [plainString_cons (h b List.mem_cons_self), decodeFrom,
      ih fun c hc => h c (List.mem_cons_of_mem b hc)]
    rfl

/-- A string of digits is plain. -/
theorem isPlain_of_digits {t : CStr} (h : ∀ b ∈ t, isDigit 16 b = true) : IsPlain t := by
  intro b hb
  have hdigit := h b hb
  refine ⟨?_, ?_, ?_⟩
  · by_contra hlow
    rw [UInt8.le_iff_toNat_le, not_le] at hlow
    have hvalue : digitValue b = 36 := by
      have hlow : b.toNat < 32 := hlow
      unfold digitValue
      simp only [UInt8.le_iff_toNat_le]
      rw [if_neg, if_neg, if_neg]
      all_goals
        rintro ⟨hge, -⟩
        exact absurd (hge.trans_lt hlow) (by decide)
    rw [isDigit, hvalue] at hdigit
    exact absurd hdigit (by decide)
  · rintro rfl
    exact absurd hdigit (by decide)
  · rintro rfl
    exact absurd hdigit (by decide)

/-! ### Searching for a name -/

/-- The string is the name from its beginning or from an escaped quote on. -/
def endsIn (name : CStr) : List StringChar → Bool
  | [] => false
  | .escape b _ :: raw => (b = 34 && rawText raw = name) || endsIn name raw
  | _ :: raw => endsIn name raw

/-- A quote and the name are the end of the string with its opening quote. -/
def spelled (name : CStr) (raw : List StringChar) : Bool := rawText raw = name || endsIn name raw

/-- What stands behind the first string that is spelled so and followed by `tail`. -/
def behind (name tail : CStr) : List Lexeme → Option CStr
  | [] => none
  | .str raw :: ls =>
    if spelled name raw && tail.isPrefixOf (print ls) then some (print ls) else behind name tail ls
  | .other _ :: ls => behind name tail ls

/-- What may follow a string: a blank, `:`, `,`, `]` or `}`. -/
def mayFollow (b : UInt8) : Bool := isBlank b || b = 58 || b = 44 || b = 93 || b = 125

/-- A name that can be searched for: it begins with a byte that follows no string, and has no
quotes and backslashes. -/
def IsName (name : CStr) : Prop :=
  mayFollow (name.headD 32) = false ∧ ∀ b ∈ name, b ≠ 34 ∧ b ≠ 92

instance (name : CStr) : Decidable (IsName name) :=
  @instDecidableAnd _ _ _ (List.decidableBAll _ name)

/-- Strings are followed by what may follow them, and no other text has a quote. -/
def Spaced : List Lexeme → Prop
  | [] => True
  | .str _ :: ls => (∀ b ∈ (print ls).head?, mayFollow b = true) ∧ Spaced ls
  | .other t :: ls => 34 ∉ t ∧ Spaced ls

section Search

variable {name tail : CStr}

theorem rawText_cons (c : StringChar) (raw : List StringChar) :
    rawText (c :: raw) = c.text ++ rawText raw := List.flatMap_cons

theorem print_cons (l : Lexeme) (ls : List Lexeme) : print (l :: ls) = l.text ++ print ls :=
  List.flatMap_cons

theorem print_append (ls ls' : List Lexeme) : print (ls ++ ls') = print ls ++ print ls' :=
  List.flatMap_append

/-- A name and a quote stand in front of a string's rest only as the whole of it. -/
theorem name_prefix_iff (hname : ∀ b ∈ name, b ≠ 34 ∧ b ≠ 92) (raw : List StringChar)
    (rest : CStr) :
    name ++ 34 :: tail <+: rawText raw ++ 34 :: rest ↔ rawText raw = name ∧ tail <+: rest := by
  induction raw generalizing name with
  | nil =>
    cases name with
    | nil => simp [rawText]
    | cons b name =>
      have hb := (hname b List.mem_cons_self).1
      simp [rawText, hb]
  | cons c raw ih =>
    rw [rawText_cons]
    cases name with
    | nil =>
      -- no character begins with a quote
      cases c with
      | plain b h => simp [StringChar.text, h.2.1.symm]
      | escape b h => simp [StringChar.text]
      | unicode digits h => simp [StringChar.text]
    | cons b name =>
      obtain ⟨⟨-, hslash⟩, hrest⟩ := List.forall_mem_cons.mp hname
      cases c with
      | plain b' h =>
        simp only [StringChar.text, List.cons_append, List.nil_append, List.cons_prefix_cons,
          List.cons.injEq, ih hrest, and_assoc, eq_comm (a := b)]
      | escape b' h => simp [StringChar.text, hslash, hslash.symm]
      | unicode digits h => simp [StringChar.text, hslash, hslash.symm]

/-- At its first byte a search compares and goes on. -/
theorem strstr_cons_self (c : UInt8) (needle s : CStr) :
    strstr (c :: needle) (c :: s) =
      if needle <+: s then some (c :: s) else strstr (c :: needle) s := by
  have hhead : (c :: needle).isPrefixOf (c :: s) = true ↔ needle <+: s := by
    rw [List.isPrefixOf_iff_prefix, List.cons_prefix_cons, and_iff_right rfl]
  rw [strstr]
  simp only [hhead]

/-- A search that begins in a string finds its end, or goes on behind it. -/
theorem strstr_raw (hname : ∀ b ∈ name, b ≠ 34 ∧ b ≠ 92) (raw : List StringChar) (rest : CStr) :
    strstr (34 :: (name ++ 34 :: tail)) (rawText raw ++ 34 :: rest) =
      if endsIn name raw = true ∧ tail <+: rest then some (34 :: (name ++ 34 :: rest))
      else strstr (34 :: (name ++ 34 :: tail)) (34 :: rest) := by
  induction raw with
  | nil => simp [rawText, endsIn]
  | cons c raw ih =>
    rw [rawText_cons]
    cases c with
    | plain b h =>
      have hb : (34 : UInt8) ∉ (StringChar.plain b h).text := by simp [StringChar.text, h.2.1.symm]
      rw [List.append_assoc, strstr_append hb, ih]
      rfl
    | unicode digits h =>
      have hdigits : (34 : UInt8) ∉ digits := fun hmem => absurd (h.2 34 hmem) (by decide)
      have hb : (34 : UInt8) ∉ (StringChar.unicode digits h).text := by
        simp [StringChar.text, hdigits]
      rw [List.append_assoc, strstr_append hb, ih]
      rfl
    | escape b h =>
      by_cases hquote : b = 34
      · -- the search stops here if the rest of the string is the name
        subst hquote
        have hslash : (34 : UInt8) ∉ [(92 : UInt8)] := by decide
        have htext : (StringChar.escape 34 h).text ++ rawText raw ++ 34 :: rest =
            [92] ++ 34 :: (rawText raw ++ 34 :: rest) := rfl
        rw [htext, strstr_append hslash, strstr_cons_self, ih]
        simp only [name_prefix_iff hname, endsIn, decide_true, Bool.true_and, Bool.or_eq_true,
          decide_eq_true_eq]
        by_cases hraw : rawText raw = name
        · by_cases htail : tail <+: rest
          · simp [hraw, htail]
          · simp [htail]
        · simp [hraw]
      · have hb : (34 : UInt8) ∉ (StringChar.escape b h).text := by
          simp [StringChar.text, Ne.symm hquote]
        rw [List.append_assoc, strstr_append hb, ih]
        simp [endsIn, hquote]

/-- **What a search for a name finds.** -/
theorem strstr_quoted (hname : IsName name) {ls : List Lexeme} (h : Spaced ls) :
    strstr (34 :: (name ++ 34 :: tail)) (print ls) =
      (behind name tail ls).map fun rest => 34 :: (name ++ 34 :: rest) := by
  obtain ⟨hhead, hbytes⟩ := hname
  induction ls with
  | nil => rfl
  | cons l ls ih =>
    rw [print_cons]
    cases l with
    | other t =>
      rw [Lexeme.text, strstr_append h.1, ih h.2]
      rfl
    | str raw =>
      -- what follows the string is not the beginning of the name
      have hclose : ¬ name ++ 34 :: tail <+: print ls := by
        rintro ⟨rest, hrest⟩
        cases name with
        | nil => exact Bool.noConfusion hhead
        | cons b name =>
          have hfollows := h.1 b (by rw [← hrest]; rfl)
          exact Bool.noConfusion (hhead.symm.trans hfollows)
      have htext : (Lexeme.str raw).text ++ print ls =
          34 :: (rawText raw ++ 34 :: print ls) := by
        simp [Lexeme.text]
      rw [htext, strstr_cons_self, strstr_raw hbytes, strstr_cons_self, if_neg hclose, ih h.2]
      simp only [name_prefix_iff hbytes, behind, spelled, Bool.and_eq_true, Bool.or_eq_true,
        decide_eq_true_eq, List.isPrefixOf_iff_prefix]
      by_cases htail : tail <+: print ls
      · by_cases hraw : rawText raw = name
        · simp [hraw, htail]
        · by_cases hends : endsIn name raw = true
          · simp [hraw, htail, hends]
          · simp [hraw, hends]
      · simp [htail]

/-- The search passes over strings that are spelled otherwise. -/
theorem behind_append {front : List Lexeme}
    (hfront : ∀ raw, Lexeme.str raw ∈ front → spelled name raw = false) (ls : List Lexeme) :
    behind name tail (front ++ ls) = behind name tail ls := by
  induction front with
  | nil => rfl
  | cons l front ih =>
    have hrest := ih fun raw hraw => hfront raw (List.mem_cons_of_mem l hraw)
    cases l with
    | other t => exact hrest
    | str raw =>
      rw [List.cons_append, behind, hfront raw List.mem_cons_self]
      exact hrest

end Search

/-! ### Texts of the grammar -/

/-- What may stand behind a value: blanks, and then `,`, `]`, `}` or nothing. -/
def Follows (s : CStr) : Prop :=
  ∀ b ∈ (s.dropWhile isBlank).head?, b = 44 ∨ b = 93 ∨ b = 125

theorem follows_append {a rest : CStr} (ha : Blank a) (h : Follows rest) : Follows (a ++ rest) := by
  unfold Follows
  rwa [List.dropWhile_append_of_pos ha]

theorem follows_cons {b : UInt8} (hb : b = 44 ∨ b = 93 ∨ b = 125) (rest : CStr) :
    Follows (b :: rest) := by
  have hblank : ¬ isBlank b = true := by
    rcases hb with rfl | rfl | rfl <;> decide
  intro c hc
  rw [List.dropWhile_cons_of_neg hblank, List.head?_cons] at hc
  exact Option.some.inj hc ▸ hb

theorem follows_print_cons {b : UInt8} (hb : b = 44 ∨ b = 93 ∨ b = 125) (R : List Lexeme) :
    Follows (print (.other [b] :: R)) :=
  follows_cons hb (print R)

theorem follows_print_blank {a : CStr} (ha : Blank a) {R : List Lexeme} (h : Follows (print R)) :
    Follows (print (.other a :: R)) :=
  follows_append ha h

theorem mayFollow_of_blank {b : UInt8} (h : isBlank b = true) : mayFollow b = true := by
  simp [mayFollow, h]

/-- The first byte is a blank or one of the three. -/
theorem Follows.head {s : CStr} (h : Follows s) {b : UInt8} (hb : b ∈ s.head?) :
    isBlank b = true ∨ b = 44 ∨ b = 93 ∨ b = 125 := by
  cases s with
  | nil => cases hb
  | cons c s =>
    obtain rfl := Option.some.inj hb
    by_cases hblank : isBlank c = true
    · exact .inl hblank
    · refine .inr (h c ?_)
      rw [List.dropWhile_cons_of_neg hblank]
      exact rfl

theorem Follows.not_digit {s : CStr} (h : Follows s) {b : UInt8} (hb : b ∈ s.head?) :
    isDigit 10 b = false := by
  rcases h.head hb with hblank | rfl | rfl | rfl
  · simp only [isBlank, Bool.or_eq_true, decide_eq_true_eq] at hblank
    obtain ((rfl | rfl) | rfl) | rfl := hblank
    all_goals rfl
  all_goals rfl

theorem Follows.mayFollow {s : CStr} (h : Follows s) {b : UInt8} (hb : b ∈ s.head?) :
    mayFollow b = true := by
  rcases h.head hb with hblank | rfl | rfl | rfl
  · exact mayFollow_of_blank hblank
  · rfl
  · rfl
  · rfl

/-! ### Text without quotes -/

theorem not_mem_of_blank {s : CStr} (h : Blank s) : (34 : UInt8) ∉ s :=
  fun hmem => absurd (h 34 hmem) (by decide)

theorem not_mem_of_digits {s : CStr} (h : ∀ d ∈ s, isDigit 10 d = true) : (34 : UInt8) ∉ s :=
  fun hmem => absurd (h 34 hmem) (by decide)

theorem Numeral.not_mem_text (n : Numeral) : (34 : UInt8) ∉ n.text := by
  have hexponent : (34 : UInt8) ∉ n.exponentText := by
    unfold Numeral.exponentText
    cases n.exponent with
    | none => exact List.not_mem_nil
    | some e =>
      have hmark : ∀ mark ∈ [cstr "e", cstr "E", cstr "e+", cstr "E+", cstr "e-", cstr "E-"],
          (34 : UInt8) ∉ mark := by
        decide
      exact fun hmem => (List.mem_append.mp hmem).elim (hmark e.mark e.hmark)
        (not_mem_of_digits e.hdigits.2)
  have hfraction := not_mem_of_digits n.hfraction
  have hwhole : (34 : UInt8) ∉ decimal n.whole := not_mem_decimal (by decide) _
  unfold Numeral.text
  cases n.minus with
  | true => split <;> simp [hwhole, hfraction, hexponent]
  | false => split <;> simp [hwhole, hfraction, hexponent]

/-- A number begins with its sign or a digit. -/
theorem Numeral.text_head (n : Numeral) :
    ∃ b rest, n.text = b :: rest ∧ isSpace b = false := by
  obtain ⟨d, digits, hwhole⟩ := List.exists_cons_of_ne_nil (decimal_ne_nil n.whole)
  have hd : isSpace d = false := by
    have hdigit : isDigit 10 d = true := isDigit_decimal (hwhole ▸ List.mem_cons_self)
    by_contra hspace
    rw [Bool.not_eq_false] at hspace
    rw [isDigit, digitValue_of_isSpace hspace] at hdigit
    exact absurd hdigit (by decide)
  unfold Numeral.text
  rw [hwhole]
  cases n.minus with
  | true => exact ⟨45, _, rfl, rfl⟩
  | false => exact ⟨d, _, rfl, hd⟩

/-! ### Strings in derived text -/

section Derived

variable {nt : Nonterminal} {ls R : List Lexeme} {ms : List Member}

/-- Behind blanks stands the colon. -/
theorem spaced_member {m : Member} (hbefore : Blank m.before) (hgap : Blank m.gap)
    (h : Spaced (m.value ++ R)) : Spaced (m.lexemes ++ R) := by
  refine ⟨?_, not_mem_of_blank hbefore, by decide, not_mem_of_blank hgap, h⟩
  intro b hb
  change b ∈ (m.before ++ print (.other [58] :: .other m.gap :: (m.value ++ R))).head? at hb
  cases hm : m.before with
  | nil =>
    rw [hm] at hb
    obtain rfl := Option.some.inj hb
    rfl
  | cons c before =>
    rw [hm] at hb hbefore
    obtain rfl := Option.some.inj hb
    exact mayFollow_of_blank (hbefore _ List.mem_cons_self)

/-- Text of the grammar is spaced, if what comes next is and may follow. -/
theorem Derives.spaced (h : Derives nt ls ms) (hR : Spaced R) (hfollows : Follows (print R)) :
    Spaced (ls ++ R) := by
  -- by cases of the grammar, from the end of the text
  induction h generalizing R with
  | string raw => exact ⟨fun b hb => hfollows.mayFollow hb, hR⟩
  | number n => exact ⟨n.not_mem_text, hR⟩
  | literal ht =>
    have hliteral : ∀ t ∈ [cstr "true", cstr "false", cstr "null"], (34 : UInt8) ∉ t := by decide
    exact ⟨hliteral _ ht, hR⟩
  | emptyArray ha => exact ⟨by decide, not_mem_of_blank ha, by decide, hR⟩
  | array h ih =>
    rw [List.cons_append, List.append_assoc]
    exact ⟨by decide, ih ⟨by decide, hR⟩ (follows_cons (by decide) _)⟩
  | emptyObject ha => exact ⟨by decide, not_mem_of_blank ha, by decide, hR⟩
  | object h ih =>
    rw [List.cons_append, List.append_assoc]
    exact ⟨by decide, ih ⟨by decide, hR⟩ (follows_cons (by decide) _)⟩
  | item ha hb hv ih =>
    rw [List.cons_append, List.append_assoc]
    exact ⟨not_mem_of_blank ha, ih ⟨not_mem_of_blank hb, hR⟩ (follows_append hb hfollows)⟩
  | items ha hb hv hls ihv ih =>
    rw [List.cons_append, List.append_assoc]
    refine ⟨not_mem_of_blank ha, ihv ⟨not_mem_of_blank hb, by decide, ih hR hfollows⟩ ?_⟩
    exact follows_append hb (follows_cons (by decide) _)
  | member ha hb hbefore hgap hv ih =>
    rw [List.cons_append, List.append_assoc]
    refine ⟨not_mem_of_blank ha, spaced_member hbefore hgap ?_⟩
    exact ih ⟨not_mem_of_blank hb, hR⟩ (follows_append hb hfollows)
  | members ha hb hbefore hgap hv hls ihv ih =>
    rw [List.cons_append, List.append_assoc]
    refine ⟨not_mem_of_blank ha, spaced_member hbefore hgap ?_⟩
    refine ihv ⟨not_mem_of_blank hb, by decide, ih hR hfollows⟩ ?_
    exact follows_append hb (follows_cons (by decide) _)

theorem IsDocument.spaced {top : List Member} (h : IsDocument ls top ms) : Spaced ls := by
  obtain ⟨a, inner, b, ha, hinner, hb, rfl⟩ := h
  refine ⟨not_mem_of_blank ha, by decide, hinner.spaced ?_ (follows_print_cons (by decide) _)⟩
  exact ⟨by decide, not_mem_of_blank hb, trivial⟩

/-! ### The member that a search finds -/

/-- A value has a first byte, which is no blank. -/
theorem Derives.value_head {v : List Lexeme} (h : Derives .value v ms) :
    ∃ b rest, print v = b :: rest ∧ isSpace b = false := by
  cases h with
  | string raw => exact ⟨34, _, rfl, rfl⟩
  | number n =>
    obtain ⟨b, rest, hn⟩ := n.text_head
    exact ⟨b, rest, by rw [print_cons, Lexeme.text, hn.1]; exact List.append_nil _, hn.2⟩
  | literal ht =>
    simp only [List.mem_cons, List.not_mem_nil, or_false] at ht
    obtain rfl | rfl | rfl := ht
    · exact ⟨116, _, rfl, rfl⟩
    · exact ⟨102, _, rfl, rfl⟩
    · exact ⟨110, _, rfl, rfl⟩
  | emptyArray ha => exact ⟨91, _, rfl, rfl⟩
  | array h => exact ⟨91, _, rfl, rfl⟩
  | emptyObject ha => exact ⟨123, _, rfl, rfl⟩
  | object h => exact ⟨123, _, rfl, rfl⟩

theorem Derives.value_ne {v : List Lexeme} (h : Derives .value v ms) : print v ≠ [] := by
  obtain ⟨b, rest, hv, -⟩ := h.value_head
  rw [hv]
  exact List.cons_ne_nil b rest

end Derived

/-- The member has this name, directly in front of the colon, and the text behind the colon
begins with `tail`. -/
def Member.found (name tail : CStr) (m : Member) : Bool :=
  spelled name m.name && m.before = [] && tail.isPrefixOf (m.gap ++ print m.value)

/-- Behind the first member that is found the search finds its value, and if there is none it
goes on. -/
structure Finds (name tail : CStr) (ls : List Lexeme) (ms : List Member) (R : List Lexeme) :
    Prop where
  passes : ms.find? (·.found name tail) = none → behind name (58 :: tail) ls =
    behind name (58 :: tail) R
  stops : ∀ m, ms.find? (·.found name tail) = some m → ∃ rest, Follows rest ∧
    behind name (58 :: tail) ls = some (58 :: (m.gap ++ print m.value ++ rest))

namespace Finds

variable {name tail : CStr} {ls R R' : List Lexeme} {ms ms' : List Member}

theorem refl : Finds name tail R [] R := ⟨fun _ => rfl, fun _ h => absurd h (by simp)⟩

theorem other {t : CStr} (h : Finds name tail ls ms R) : Finds name tail (.other t :: ls) ms R :=
  ⟨h.passes, h.stops⟩

theorem trans (h : Finds name tail ls ms R') (h' : Finds name tail R' ms' R) :
    Finds name tail ls (ms ++ ms') R where
  passes := by
    intro hnone
    rw [List.find?_append, Option.or_eq_none_iff] at hnone
    exact (h.passes hnone.1).trans (h'.passes hnone.2)
  stops := by
    intro m hm
    rw [List.find?_append] at hm
    cases hfirst : ms.find? (·.found name tail) with
    | some m' =>
      rw [hfirst, Option.some_or] at hm
      exact Option.some.inj hm ▸ h.stops m' hfirst
    | none =>
      rw [hfirst, Option.none_or] at hm
      rw [h.passes hfirst]
      exact h'.stops m hm

/-- Behind a string comes a value's end, no colon. -/
theorem string (raw : List StringChar) (hR : Follows (print R)) :
    Finds name tail (.str raw :: R) [] R := by
  have hcolon : ¬ (58 :: tail).isPrefixOf (print R) = true := by
    rw [List.isPrefixOf_iff_prefix]
    rintro ⟨rest, hrest⟩
    rcases hR.head (b := 58) (by rw [← hrest]; exact rfl) with h | h | h | h
    · exact absurd h (by decide)
    all_goals exact absurd h (by decide)
  refine ⟨fun _ => ?_, fun _ h => absurd h (by simp)⟩
  rw [behind, if_neg (by simp [hcolon])]

theorem last {t : CStr} (h : Finds name tail ls ms (.other t :: R)) : Finds name tail ls ms R :=
  ⟨h.passes, h.stops⟩

/-- A member comes before those in its value. -/
theorem member {m : Member} (htail : tail.length ≤ 1) (hbefore : Blank m.before)
    (hvalue : print m.value ≠ []) (hR : Follows (print R))
    (h : Finds name tail (m.value ++ R) ms R) :
    Finds name tail (m.lexemes ++ R) (m :: ms) R := by
  have htext : print (.other m.before :: .other [58] :: .other m.gap :: (m.value ++ R)) =
      m.before ++ 58 :: (m.gap ++ print m.value ++ print R) := by
    simp [print_cons, print_append, Lexeme.text]
  -- the search stops at the name exactly if the member is found
  have hstop : (58 :: tail).isPrefixOf (m.before ++ 58 :: (m.gap ++ print m.value ++ print R)) =
      (decide (m.before = []) && tail.isPrefixOf (m.gap ++ print m.value)) := by
    cases hm : m.before with
    | nil =>
      have hlength : tail.length ≤ (m.gap ++ print m.value).length := by
        have := List.length_pos_iff.mpr hvalue
        rw [List.length_append]
        omega
      rw [Bool.eq_iff_iff]
      simp only [List.isPrefixOf_iff_prefix, List.nil_append, List.cons_prefix_cons, true_and,
        decide_true, Bool.true_and]
      exact List.isPrefix_append_of_length hlength
    | cons c before =>
      have hc : (58 : UInt8) ≠ c := by
        rintro rfl
        exact absurd (hbefore 58 (hm ▸ List.mem_cons_self)) (by decide)
      simp [List.isPrefixOf, hc]
  have hbehind : behind name (58 :: tail) (m.lexemes ++ R) =
      if m.found name tail then some (m.before ++ 58 :: (m.gap ++ print m.value ++ print R))
      else behind name (58 :: tail) (m.value ++ R) := by
    have hname : m.lexemes ++ R =
        .str m.name :: .other m.before :: .other [58] :: .other m.gap :: (m.value ++ R) := rfl
    rw [hname, behind, htext, hstop, ← Bool.and_assoc]
    rfl
  have hblank : m.found name tail = true → m.before = [] := by
    intro hfound
    simp only [Member.found, Bool.and_eq_true, decide_eq_true_eq] at hfound
    exact hfound.1.2
  cases hfound : m.found name tail with
  | true =>
    refine ⟨fun hnone => ?_, fun m' hm' => ?_⟩
    · rw [List.find?_cons_of_pos hfound] at hnone
      cases hnone
    · rw [List.find?_cons_of_pos hfound] at hm'
      obtain rfl := Option.some.inj hm'
      refine ⟨print R, hR, ?_⟩
      rw [hbehind, if_pos hfound, hblank hfound]
      rfl
  | false =>
    have hmiss : ¬ m.found name tail = true := by rw [hfound]; exact Bool.false_ne_true
    refine ⟨fun hnone => ?_, fun m' hm' => ?_⟩
    · rw [List.find?_cons_of_neg hmiss] at hnone
      rw [hbehind, if_neg hmiss]
      exact h.passes hnone
    · rw [List.find?_cons_of_neg hmiss] at hm'
      rw [hbehind, if_neg hmiss]
      exact h.stops m' hm'

end Finds

section Derived

variable {nt : Nonterminal} {name tail : CStr} {ls R : List Lexeme} {ms : List Member}

/-- A search in text of the grammar finds the first of its members, or goes on behind it. -/
theorem Derives.finds (h : Derives nt ls ms) (htail : tail.length ≤ 1) (hR : Follows (print R)) :
    Finds name tail (ls ++ R) ms R := by
  induction h generalizing R with
  | string raw => exact .string raw hR
  | number n => exact Finds.refl.other
  | literal ht => exact Finds.refl.other
  | emptyArray ha => exact Finds.refl.other.other.other
  | array h ih =>
    rw [List.cons_append, List.append_assoc]
    exact (ih (follows_print_cons (by decide) R)).last.other
  | emptyObject ha => exact Finds.refl.other.other.other
  | object h ih =>
    rw [List.cons_append, List.append_assoc]
    exact (ih (follows_print_cons (by decide) R)).last.other
  | item ha hb hv ih =>
    rw [List.cons_append, List.append_assoc]
    exact (ih (follows_print_blank hb hR)).last.other
  | items ha hb hv hls ihv ih =>
    rw [List.cons_append, List.append_assoc]
    refine ((ihv ?_).trans (ih hR).other.other).other
    exact follows_print_blank hb (follows_print_cons (.inl rfl) _)
  | member ha hb hbefore hgap hv ih =>
    rw [List.cons_append, List.append_assoc]
    have hb' := follows_print_blank hb hR
    exact (Finds.member htail hbefore hv.value_ne hb' (ih hb')).last.other
  | members ha hb hbefore hgap hv hls ihv ih =>
    rw [List.cons_append, List.append_assoc]
    have hcomma := fun ls => follows_print_blank hb (follows_print_cons (.inl rfl) ls)
    refine ((Finds.member htail hbefore hv.value_ne (hcomma _) (ihv (hcomma _))).trans ?_).other
    exact (ih hR).other.other

end Derived

/-- **What a search for a member finds.** For a name and a colon, and maybe the first byte of
the value, `strstr` finds the first member in the text, at any depth, with this name. -/
theorem strstr_member {text name : CStr} {top ms : List Member} (h : IsObject text top ms)
    (hname : IsName name) (tail : CStr) (htail : tail.length ≤ 1) :
    (ms.find? (·.found name tail) = none →
        strstr (34 :: (name ++ 34 :: 58 :: tail)) text = none) ∧
      ∀ m, ms.find? (·.found name tail) = some m → ∃ rest, Follows rest ∧
        strstr (34 :: (name ++ 34 :: 58 :: tail)) text =
          some (34 :: (name ++ 34 :: 58 :: (m.gap ++ print m.value ++ rest))) := by
  obtain ⟨ls, hdocument, rfl⟩ := h
  rw [strstr_quoted hname hdocument.spaced]
  obtain ⟨a, inner, b, -, hinner, -, rfl⟩ := hdocument
  have hend : Follows (print [.other [125], .other b]) := follows_print_cons (by decide) _
  have hfinds : Finds name tail (.other a :: .other [123] :: (inner ++ [.other [125], .other b])) ms
      [.other [125], .other b] := (hinner.finds htail hend).other.other
  refine ⟨fun hnone => ?_, fun m hm => ?_⟩
  · rw [hfinds.passes hnone]
    rfl
  · obtain ⟨rest, hrest, hbehind⟩ := hfinds.stops m hm
    exact ⟨rest, hrest, by rw [hbehind]; rfl⟩

/-- The blanks and the value of a member in the text are such. -/
theorem Derives.of_mem {nt : Nonterminal} {ls : List Lexeme} {ms : List Member}
    (h : Derives nt ls ms) {m : Member} (hm : m ∈ ms) :
    Blank m.before ∧ Blank m.gap ∧ ∃ inner, Derives .value m.value inner := by
  induction h with
  | string | number | literal | emptyArray | emptyObject => exact absurd hm List.not_mem_nil
  | array h ih => exact ih hm
  | object h ih => exact ih hm
  | item ha hb hv ih => exact ih hm
  | items ha hb hv hls ihv ih => exact (List.mem_append.mp hm).elim ihv ih
  | member ha hb hbefore hgap hv ih =>
    obtain rfl | hm := List.mem_cons.mp hm
    · exact ⟨hbefore, hgap, _, hv⟩
    · exact ih hm
  | members ha hb hbefore hgap hv hls ihv ih =>
    obtain rfl | hm := List.mem_cons.mp hm
    · exact ⟨hbefore, hgap, _, hv⟩
    · exact (List.mem_append.mp hm).elim ihv ih

/-- The members of an object are among those in its text. -/
theorem Derives.mem_of_top {top : List Member} {ls : List Lexeme} {ms : List Member}
    (h : Derives (.members top) ls ms) {m : Member} (hm : m ∈ top) : m ∈ ms := by
  generalize hnt : Nonterminal.members top = nt at h
  induction h generalizing top with
  | string | number | literal | emptyArray | array | emptyObject | object | item | items =>
    cases hnt
  | member ha hb hbefore hgap hv ih =>
    obtain rfl := Nonterminal.members.inj hnt
    exact List.mem_cons.mpr (.inl (List.mem_singleton.mp hm))
  | members ha hb hbefore hgap hv hls ihv ih =>
    obtain rfl := Nonterminal.members.inj hnt
    obtain rfl | hm := List.mem_cons.mp hm
    · exact List.mem_cons_self
    · exact List.mem_cons_of_mem _ (List.mem_append.mpr (.inr (ih hm rfl)))

/-- A member with a name of its own stands between blanks. -/
theorem IsDocument.blank_of_named {ls : List Lexeme} {top ms : List Member}
    (h : IsDocument ls top ms) {name : String} {m : Member} (hm : named top name = [m]) :
    Blank m.before ∧ Blank m.gap := by
  obtain ⟨-, inner, -, -, hinner, -⟩ := h
  have hmem : m ∈ named top name := hm ▸ List.mem_singleton_self m
  obtain ⟨hbefore, hgap, -⟩ := hinner.of_mem (hinner.mem_of_top (List.mem_of_mem_filter hmem))
  exact ⟨hbefore, hgap⟩

theorem IsObject.of_mem {text : CStr} {top ms : List Member} (h : IsObject text top ms)
    {m : Member} (hm : m ∈ ms) :
    Blank m.before ∧ Blank m.gap ∧ ∃ inner, Derives .value m.value inner := by
  obtain ⟨-, ⟨-, inner, -, -, hinner, -⟩, -⟩ := h
  exact hinner.of_mem hm

/-- A value that begins with a quote is a string. -/
theorem Derives.exists_string {v : List Lexeme} {ms : List Member} (h : Derives .value v ms)
    (hquote : (print v).head? = some 34) : ∃ raw, v = [.str raw] := by
  cases h with
  | string raw => exact ⟨raw, rfl⟩
  | number n =>
    obtain ⟨b, rest, hn, -⟩ := n.text_head
    have hb : print [.other n.text] = n.text := List.append_nil _
    rw [hb, hn] at hquote
    obtain rfl := Option.some.inj hquote
    exact absurd (hn ▸ List.mem_cons_self) n.not_mem_text
  | literal ht =>
    simp only [List.mem_cons, List.not_mem_nil, or_false] at ht
    obtain rfl | rfl | rfl := ht
    all_goals exact absurd (Option.some.inj hquote) (by decide)
  | emptyArray ha => exact absurd (Option.some.inj hquote) (by decide)
  | array h => exact absurd (Option.some.inj hquote) (by decide)
  | emptyObject ha => exact absurd (Option.some.inj hquote) (by decide)
  | object h => exact absurd (Option.some.inj hquote) (by decide)

/-- A member found with a quote is a string without a gap. -/
theorem IsObject.string_of_found {text name : CStr} {top ms : List Member}
    (h : IsObject text top ms) {m : Member}
    (hm : ms.find? (·.found name [34]) = some m) : m.gap = [] ∧ ∃ raw, m.value = [.str raw] := by
  obtain ⟨-, hgap, inner, hvalue⟩ := h.of_mem (List.mem_of_find?_eq_some hm)
  have hfound := List.find?_some hm
  simp only [Member.found, Bool.and_eq_true, List.isPrefixOf_iff_prefix] at hfound
  obtain ⟨rest, hrest⟩ := hfound.2
  cases hg : m.gap with
  | nil =>
    rw [hg] at hrest
    refine ⟨rfl, hvalue.exists_string ?_⟩
    rw [← List.nil_append (print m.value), ← hrest]
    rfl
  | cons b gap =>
    -- a blank is no quote
    rw [hg] at hrest hgap
    have hb : (34 : UInt8) = b := (List.cons.inj hrest).1
    exact absurd (hgap b List.mem_cons_self) (by rw [← hb]; decide)

/-! ### Texts without blanks -/

/-- The lexemes of members without blanks around them. -/
def compact : List Member → List Lexeme
  | [] => []
  | [m] => .other [] :: (m.lexemes ++ [.other []])
  | m :: m' :: top => .other [] :: (m.lexemes ++ .other [] :: .other [44] :: compact (m' :: top))

/-- An object without blanks around its members. -/
def compactObject (top : List Member) : List Lexeme :=
  .other [] :: .other [123] :: (compact top ++ [.other [125], .other []])

/-- Its text. -/
def compactText (top : List Member) : CStr := print (compactObject top)

/-- The part of a compact object with some members in front of others. -/
def compactFront (front : List Member) : List Lexeme :=
  front.flatMap fun m => .other [] :: (m.lexemes ++ [.other [], .other [44]])

/-- The part of a compact object behind a member. -/
def compactBehind : List Member → List Lexeme
  | [] => [.other [], .other [125], .other []]
  | m :: top => .other [] :: .other [44] :: (compact (m :: top) ++ [.other [125], .other []])

theorem compact_append (front back : List Member) (m : Member) :
    compact (front ++ m :: back) ++ [.other [125], .other []] =
      compactFront front ++ .other [] :: (m.lexemes ++ compactBehind back) := by
  induction front with
  | nil =>
    cases back with
    | nil => simp [compact, compactFront, compactBehind]
    | cons m' back => simp [compact, compactFront, compactBehind]
  | cons p front ih =>
    obtain ⟨q, rest, hrest⟩ : ∃ q rest, front ++ m :: back = q :: rest :=
      List.exists_cons_of_ne_nil (List.append_ne_nil_of_right_ne_nil _ (List.cons_ne_nil m back))
    rw [hrest] at ih
    rw [List.cons_append, hrest, compact, compactFront, List.flatMap_cons, ← compactFront]
    simp [ih]

/-- A member with a plain name and no blanks around the colon. -/
def plainMember (name : String) (value : List Lexeme) : Member :=
  ⟨plainString (cstr name), [], [], value⟩

theorem blank_nil : Blank [] := fun _ h => absurd h List.not_mem_nil

/-- Members with those that are in their values. -/
theorem derives_compact {top : List (Member × List Member)} (hne : top ≠ [])
    (h : ∀ p ∈ top, Blank p.1.before ∧ Blank p.1.gap ∧ Derives .value p.1.value p.2) :
    Derives (.members (top.map Prod.fst)) (compact (top.map Prod.fst))
      (top.flatMap fun p => p.1 :: p.2) := by
  induction top with
  | nil => exact absurd rfl hne
  | cons p top ih =>
    obtain ⟨hbefore, hgap, hvalue⟩ := h p List.mem_cons_self
    cases top with
    | nil =>
      have hone := Derives.member blank_nil blank_nil hbefore hgap hvalue
      simpa [compact] using hone
    | cons p' top =>
      have hrest := ih (List.cons_ne_nil p' top) fun q hq => h q (List.mem_cons_of_mem p hq)
      exact Derives.members blank_nil blank_nil hbefore hgap hvalue hrest

theorem isDocument_compactObject {top : List (Member × List Member)} (hne : top ≠ [])
    (h : ∀ p ∈ top, Blank p.1.before ∧ Blank p.1.gap ∧ Derives .value p.1.value p.2) :
    IsDocument (compactObject (top.map Prod.fst)) (top.map Prod.fst)
      (top.flatMap fun p => p.1 :: p.2) :=
  ⟨[], _, [], blank_nil, derives_compact hne h, blank_nil, rfl⟩

/-- If there are no objects in the values, the members of the object are all. -/
theorem isDocument_flat {top : List Member} (hne : top ≠ [])
    (h : ∀ m ∈ top, Blank m.before ∧ Blank m.gap ∧ Derives .value m.value []) :
    IsDocument (compactObject top) top top := by
  have hpairs := @isDocument_compactObject (top.map fun m => (m, []))
    (fun hnil => hne (List.map_eq_nil_iff.mp hnil)) ?_
  · simpa [Function.comp_def, List.flatMap_map] using hpairs
  · intro p hp
    obtain ⟨m, hm, rfl⟩ := List.mem_map.mp hp
    exact h m hm

theorem no_digits : ∀ d ∈ ([] : CStr), isDigit 10 d = true := fun _ h => absurd h List.not_mem_nil

/-- A natural number in its usual digits. -/
def plainNumeral (k : ℕ) : Numeral := ⟨false, k, [], none, no_digits⟩

theorem value_plainNumeral (k : ℕ) : (plainNumeral k).value = k := by
  simp [plainNumeral, Numeral.value, Numeral.power, numeral]

/-! ### Reading a value where it stands -/

theorem readSign_append {t : CStr} (ht : t ≠ []) (rest : CStr) :
    readSign (t ++ rest) = ((readSign t).1, (readSign t).2 ++ rest) := by
  obtain ⟨b, t, rfl⟩ := List.exists_cons_of_ne_nil ht
  by_cases hminus : b = 45
  · rw [hminus]
    rfl
  · by_cases hplus : b = 43
    · rw [hplus]
      rfl
    · have hsign : ∀ s, readSign (b :: s) = (false, b :: s) := by
        intro s
        unfold readSign
        split
        · next heq => exact absurd (List.cons.inj heq).1 hminus
        · next heq => exact absurd (List.cons.inj heq).1 hplus
        · rfl
      rw [List.cons_append, hsign, hsign]
      rfl

theorem skipHexMark_ten (s : CStr) : skipHexMark 10 s = s := by
  unfold skipHexMark
  split <;> rfl

/-- A decimal numeral is read up to the value's end, whatever stands around it. -/
theorem readNumeral_between {gap t rest : CStr} (hgap : ∀ b ∈ gap, isSpace b = true)
    (ht : ∃ b s, t = b :: s ∧ isSpace b = false)
    (hrest : ∀ b ∈ rest.head?, isDigit 10 b = false) :
    readNumeral 10 (gap ++ t ++ rest) = readNumeral 10 t := by
  obtain ⟨b, s, rfl, hb⟩ := ht
  have hskip : ∀ s, (b :: s).dropWhile isSpace = b :: s := fun s =>
    List.dropWhile_cons_of_neg (by rw [hb]; exact Bool.false_ne_true)
  have hstop : rest.takeWhile (isDigit 10) = [] := by
    cases rest with
    | nil => rfl
    | cons c rest =>
      refine List.takeWhile_cons_of_neg ?_
      rw [hrest c rfl]
      exact Bool.false_ne_true
  unfold readNumeral
  rw [List.append_assoc, List.dropWhile_append_of_pos hgap, List.cons_append, hskip, hskip,
    ← List.cons_append, readSign_append (List.cons_ne_nil b s)]
  simp only [skipHexMark_ten, List.takeWhile_append, hstop, List.append_nil]
  split
  · next hall => rw [(List.takeWhile_prefix _).eq_of_length hall]
  · rfl

/-- A numeral in the digits of a base, without blanks before it. -/
def unsignedPart (base : ℕ) (s : CStr) : Bool × ℕ :=
  ((readSign s).1, numeral base ((skipHexMark base (readSign s).2).takeWhile (isDigit base)))

theorem readNumeral_eq (base : ℕ) (s : CStr) :
    readNumeral base s = unsignedPart base (s.dropWhile isSpace) := rfl

/-- A byte that ends a numeral of the base. -/
def Ends (base : ℕ) (c : UInt8) : Prop :=
  isDigit base c = false ∧ c ∉ [(43 : UInt8), 45, 88, 120]

/-- Only `0x` is skipped. -/
theorem skipHexMark_of_ne {base : ℕ} {a b : UInt8} (h : a = 48 → b ≠ 120 ∧ b ≠ 88) (s : CStr) :
    skipHexMark base (a :: b :: s) = a :: b :: s := by
  unfold skipHexMark
  split
  · next heq =>
    obtain ⟨rfl, htail⟩ := List.cons.inj heq
    exact absurd (List.cons.inj htail).1 (h rfl).1
  · next heq =>
    obtain ⟨rfl, htail⟩ := List.cons.inj heq
    exact absurd (List.cons.inj htail).1 (h rfl).2
  · rfl

theorem skipHexMark_single (base : ℕ) (a : UInt8) : skipHexMark base [a] = [a] := by
  unfold skipHexMark
  split
  · next heq => exact absurd (List.cons.inj heq).2 (List.cons_ne_nil _ _).symm
  · next heq => exact absurd (List.cons.inj heq).2 (List.cons_ne_nil _ _).symm
  · rfl

theorem readSign_of_ends {base : ℕ} {c : UInt8} (hc : Ends base c) (t : CStr) :
    readSign (c :: t) = (false, c :: t) := by
  unfold readSign
  split
  · next heq => exact absurd ((List.cons.inj heq).1 ▸ hc.2) (by decide)
  · next heq => exact absurd ((List.cons.inj heq).1 ▸ hc.2) (by decide)
  · rfl

theorem skipHexMark_append {base : ℕ} (hbase : 0 < base) {c : UInt8} (hc : Ends base c)
    (s t : CStr) :
    skipHexMark base (s ++ c :: t) = skipHexMark base s ++ c :: t := by
  obtain ⟨hdigit, hmark⟩ := hc
  match s with
  | [] =>
    have hzero : c ≠ 48 := by
      rintro rfl
      exact Bool.noConfusion (hdigit.symm.trans (decide_eq_true hbase))
    cases t with
    | nil => exact skipHexMark_single base c
    | cons d t => exact skipHexMark_of_ne (fun h => absurd h hzero) t
  | [a] =>
    have hx : c ≠ 120 ∧ c ≠ 88 := by
      refine ⟨?_, ?_⟩
      · rintro rfl
        exact hmark (by decide)
      · rintro rfl
        exact hmark (by decide)
    rw [skipHexMark_single]
    exact skipHexMark_of_ne (fun _ => hx) t
  | a :: b :: s =>
    by_cases h : a = 48 → b ≠ 120 ∧ b ≠ 88
    · rw [skipHexMark_of_ne h]
      exact skipHexMark_of_ne h (s ++ c :: t)
    · rw [Classical.not_imp, not_and_or, not_ne_iff, not_ne_iff] at h
      obtain ⟨rfl, rfl | rfl⟩ := h
      · change (if base = 16 then _ else _) = (if base = 16 then _ else _) ++ _
        split <;> rfl
      · change (if base = 16 then _ else _) = (if base = 16 then _ else _) ++ _
        split <;> rfl

/-- What stands behind such a byte is not read. -/
theorem unsignedPart_append {base : ℕ} (hbase : 0 < base) {c : UInt8} (hc : Ends base c)
    (s t : CStr) :
    unsignedPart base (s ++ c :: t) = unsignedPart base s := by
  have hsign : readSign (s ++ c :: t) = ((readSign s).1, (readSign s).2 ++ c :: t) := by
    cases s with
    | nil => exact readSign_of_ends hc t
    | cons b s => exact readSign_append (List.cons_ne_nil b s) (c :: t)
  have hstop : (c :: t).takeWhile (isDigit base) = [] :=
    List.takeWhile_cons_of_neg (by rw [hc.1]; decide)
  unfold unsignedPart
  rw [hsign]
  simp only [skipHexMark_append hbase hc, List.takeWhile_append, hstop, List.append_nil]
  split
  · next hall => rw [(List.takeWhile_prefix _).eq_of_length hall]
  · rfl

/-- A byte that is no blank either ends the numeral wherever it stands. -/
theorem readNumeral_append {base : ℕ} (hbase : 0 < base) {c : UInt8} (hc : Ends base c)
    (hspace : isSpace c = false) (s t : CStr) :
    readNumeral base (s ++ c :: t) = readNumeral base s := by
  rw [readNumeral_eq, readNumeral_eq, List.dropWhile_append]
  split
  · next hall =>
    rw [List.isEmpty_iff.mp hall, List.dropWhile_cons_of_neg (by rw [hspace]; decide)]
    exact unsignedPart_append hbase hc [] t
  · exact unsignedPart_append hbase hc _ t

/-- A byte at the end of the string that ends the numeral does not matter. -/
theorem readNumeral_concat {base : ℕ} (hbase : 0 < base) {c : UInt8} (hc : Ends base c) (s : CStr) :
    readNumeral base (s ++ [c]) = readNumeral base s := by
  cases hspace : isSpace c with
  | false => exact readNumeral_append hbase hc hspace s []
  | true =>
    rw [readNumeral_eq, readNumeral_eq, List.dropWhile_append]
    split
    · next hall =>
      rw [List.isEmpty_iff.mp hall, List.dropWhile_cons_of_pos hspace]
      rfl
    · exact unsignedPart_append hbase hc _ []

/-- Neither do several such bytes. -/
theorem readNumeral_rdropWhile {base : ℕ} (hbase : 0 < base) {p : UInt8 → Bool}
    (hp : ∀ c, p c = true → Ends base c) (s t : CStr) :
    readNumeral base (s ++ t.rdropWhile p) = readNumeral base (s ++ t) := by
  induction t using List.reverseRecOn with
  | nil => rfl
  | append_singleton t c ih =>
    by_cases hc : p c = true
    · rw [List.rdropWhile_concat_pos p t c hc, ih, ← List.append_assoc]
      exact (readNumeral_concat hbase (hp c hc) _).symm
    · rw [List.rdropWhile_concat_neg p t c hc]

theorem readNumeral_cons_of_isSpace {base : ℕ} {b : UInt8} (hb : isSpace b = true) (s : CStr) :
    readNumeral base (b :: s) = readNumeral base s := by
  rw [readNumeral_eq, readNumeral_eq, List.dropWhile_cons_of_pos hb]

theorem isSpace_of_isBlank {b : UInt8} (h : isBlank b = true) : isSpace b = true := by
  simp only [isBlank, Bool.or_eq_true, decide_eq_true_eq] at h
  obtain ((rfl | rfl) | rfl) | rfl := h
  all_goals rfl

theorem readNumeral_blank {base : ℕ} {s : CStr} (h : Blank s) :
    readNumeral base s = readNumeral base [] := by
  induction s with
  | nil => rfl
  | cons b s ih =>
    rw [readNumeral_cons_of_isSpace (isSpace_of_isBlank (h b List.mem_cons_self))]
    exact ih fun c hc => h c (List.mem_cons_of_mem b hc)

/-- Of a number the sign and the whole part are read. -/
theorem Numeral.readNumeral_text (n : Numeral) : readNumeral 10 n.text = (n.minus, n.whole) := by
  have hunsigned : ∀ tail : CStr, (∀ b ∈ tail.head?, Ends 10 b ∧ isSpace b = false) →
      readNumeral 10 ((if n.minus then [45] else []) ++ decimal n.whole ++ tail) =
        (n.minus, n.whole) := by
    intro tail htail
    have hplain : readNumeral 10 ((if n.minus then [45] else []) ++ decimal n.whole) =
        (n.minus, n.whole) := by
      cases n.minus with
      | true =>
        exact (readNumeral_minus_cons (by decide) fun _ => isDigit_decimal).trans
          (by rw [numeral_decimal])
      | false =>
        exact (readNumeral_of_digits (by decide) fun _ => isDigit_decimal).trans
          (by rw [numeral_decimal])
    cases tail with
    | nil => rwa [List.append_nil]
    | cons c tail =>
      obtain ⟨hends, hspace⟩ := htail c rfl
      rw [readNumeral_append (by decide) hends hspace, hplain]
  unfold Numeral.text
  rw [List.append_assoc]
  refine hunsigned _ ?_
  -- behind the digits stands the point, the mark of the exponent or nothing
  intro b hb
  have hdot : Ends 10 46 := ⟨rfl, by decide⟩
  have hlower : Ends 10 101 := ⟨rfl, by decide⟩
  have hupper : Ends 10 69 := ⟨rfl, by decide⟩
  by_cases hfraction : n.fraction = []
  · rw [if_pos hfraction, List.nil_append, Numeral.exponentText] at hb
    cases he : n.exponent with
    | none =>
      rw [he] at hb
      cases hb
    | some e =>
      rw [he] at hb
      have hmark := e.hmark
      simp only [List.mem_cons, List.not_mem_nil, or_false] at hmark
      obtain hm | hm | hm | hm | hm | hm := hmark
      all_goals
        rw [Option.map_some, Option.getD_some, hm] at hb
        obtain rfl := Option.some.inj hb
        first
          | exact ⟨hlower, rfl⟩
          | exact ⟨hupper, rfl⟩
  · rw [if_neg hfraction] at hb
    obtain rfl := Option.some.inj hb
    exact ⟨hdot, rfl⟩

/-- Without escapes a string stands for itself. -/
theorem decode_of_no_escape {raw : List StringChar} (h : (92 : UInt8) ∉ rawText raw) :
    decode raw = rawText raw ∧ (34 : UInt8) ∉ rawText raw := by
  unfold decode
  induction raw with
  | nil => exact ⟨rfl, List.not_mem_nil⟩
  | cons c raw ih =>
    rw [rawText_cons, List.mem_append, not_or] at h
    obtain ⟨hdecode, hquote⟩ := ih h.2
    cases c with
    | plain b hb =>
      refine ⟨?_, ?_⟩
      · rw [rawText_cons, decodeFrom, hdecode]
        rfl
      · rw [rawText_cons]
        exact List.not_mem_append (List.not_mem_cons_of_ne_of_not_mem hb.2.1.symm List.not_mem_nil)
          hquote
    | escape b hb => exact absurd List.mem_cons_self h.1
    | unicode digits hb => exact absurd List.mem_cons_self h.1

end JsonText
