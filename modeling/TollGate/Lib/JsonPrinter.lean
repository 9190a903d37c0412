import TollGate.Lib.CJson
import TollGate.Lib.JsonArray

/-!
# Printing JSON without blanks

`Unformatted` is what programs rely on of a printer like `cJSON_PrintUnformatted`: a string is
printed as a string of JSON that means it, a plain one as it is, and arrays and objects as what
they contain, with commas between. `unformatted` is such a printer.
-/

namespace JsonText

open CStr CJson

/-- The texts with a comma between every two. -/
def commas (texts : List CStr) : CStr := List.intercalate [44] texts

@[simp] theorem commas_nil : commas [] = [] := rfl

@[simp] theorem commas_singleton (t : CStr) : commas [t] = t := by
  simp [commas]

@[simp] theorem commas_cons_cons (t t' : CStr) (texts : List CStr) :
    commas (t :: t' :: texts) = t ++ 44 :: commas (t' :: texts) := by
  simp [commas]

/-- The commas are one less than the texts. -/
theorem length_commas (texts : List CStr) :
    (commas texts).length = (texts.map fun t => t.length + 1).sum - 1 := by
  induction texts with
  | nil => rfl
  | cons t texts ih =>
    cases texts with
    | nil => simp
    | cons t' texts =>
      rw [commas_cons_cons, List.length_append, List.length_cons, ih]
      simp only [List.map_cons, List.sum_cons]
      omega

/-- The text of a member. -/
def memberText (printer : Json → CStr) (m : CStr × Json) : CStr :=
  printer (.string m.1) ++ 58 :: printer m.2

/-- The printer writes JSON without blanks. -/
structure Unformatted (printer : Json → CStr) : Prop where
  string : ∀ s, ∃ raw, decode raw = s ∧ printer (.string s) = print [.str raw]
  plain : ∀ s, IsPlain s → printer (.string s) = 34 :: (s ++ [34])
  array : ∀ items, printer (.array items) = 91 :: (commas (items.map printer) ++ [93])
  object : ∀ members,
    printer (.object members) = 123 :: (commas (members.map (memberText printer)) ++ [125])

/-- The strings are printed one by one. -/
theorem Unformatted.exists_raws {printer : Json → CStr} (h : Unformatted printer)
    (texts : List CStr) : ∃ raws : List (List StringChar), raws.map decode = texts ∧
      (texts.map Json.string).map printer = raws.map fun raw => print [.str raw] := by
  induction texts with
  | nil => exact ⟨[], rfl, rfl⟩
  | cons t texts ih =>
    obtain ⟨raws, hdecode, hprint⟩ := ih
    obtain ⟨raw, hraw, htext⟩ := h.string t
    refine ⟨raw :: raws, ?_, ?_⟩
    · rw [List.map_cons, hraw, hdecode]
    · rw [List.map_cons, List.map_cons, htext, hprint, List.map_cons]

theorem print_stringItems (raws : List (List StringChar)) :
    print (stringItems raws) = commas (raws.map fun raw => print [.str raw]) := by
  induction raws with
  | nil => rfl
  | cons raw raws ih =>
    cases raws with
    | nil => simp [stringItems, print, Lexeme.text]
    | cons raw' raws =>
      rw [List.map_cons] at ih
      rw [List.map_cons, List.map_cons, commas_cons_cons, ← ih]
      simp [stringItems, print, Lexeme.text]

/-- The printer writes a number as a numeral of JSON. -/
def PrintsNumbers (printer : Json → CStr) : Prop :=
  ∀ n, ∃ numeral : Numeral, printer (.number n) = numeral.text

/-- A printed member with a plain name. -/
theorem Unformatted.memberText_eq {printer : Json → CStr} (h : Unformatted printer) {name : String}
    (hname : IsPlain (cstr name)) {j : Json} {v : List Lexeme} (hv : printer j = print v) :
    memberText printer (cstr name, j) = print (plainMember name v).lexemes := by
  unfold memberText
  rw [h.plain _ hname, hv]
  simp [plainMember, Member.lexemes, print, Lexeme.text, rawText_plainString hname]

theorem commas_lexemes (top : List Member) :
    commas (top.map fun m => print m.lexemes) = print (compact top) := by
  induction top with
  | nil => rfl
  | cons m top ih =>
    cases top with
    | nil => simp [compact, print, Lexeme.text]
    | cons m' top =>
      rw [List.map_cons] at ih
      rw [List.map_cons, List.map_cons, commas_cons_cons, ih]
      simp [compact, print, Lexeme.text]

/-- An object is printed without blanks. -/
theorem Unformatted.object_eq {printer : Json → CStr} (h : Unformatted printer)
    {members : List (CStr × Json)} {top : List Member}
    (hmembers : members.map (memberText printer) = top.map fun m => print m.lexemes) :
    printer (.object members) = compactText top := by
  rw [h.object, hmembers, commas_lexemes]
  simp [compactText, compactObject, print, Lexeme.text]

/-! ### A printer -/

/-- A character of a printed string. -/
def escapeChar (b : UInt8) : StringChar :=
  if h : 32 ≤ b ∧ b ≠ 34 ∧ b ≠ 92 then .plain b h
  else if b = 34 then .escape 34 (by decide)
  else if b = 92 then .escape 92 (by decide)
  else if b = 8 then .escape 98 (by decide)
  else if b = 12 then .escape 102 (by decide)
  else if b = 10 then .escape 110 (by decide)
  else if b = 13 then .escape 114 (by decide)
  else if b = 9 then .escape 116 (by decide)
  else .unicode (hexPadded 4 b.toNat) ⟨length_hexPadded 4 _, fun _ => isDigit_hexPadded⟩

theorem decodeFrom_escapeChar (b : UInt8) (raw : List StringChar) :
    decodeFrom none (escapeChar b :: raw) = b :: decodeFrom none raw := by
  unfold escapeChar
  split
  · rfl
  next hplain =>
    split_ifs with hquote hslash hb hf hn hr ht
    -- seven bytes have a letter for their escape
    · rw [hquote]; rfl
    · rw [hslash]; rfl
    · rw [hb]; rfl
    · rw [hf]; rfl
    · rw [hn]; rfl
    · rw [hr]; rfl
    · rw [ht]; rfl
    · -- a control character is its own code point
      have hlow : b.toNat < 32 := by
        by_contra hge
        exact hplain ⟨UInt8.le_iff_toNat_le.mpr (not_lt.mp hge), hquote, hslash⟩
      have hvalue : numeral 16 (hexPadded 4 b.toNat) = b.toNat :=
        numeral_hexPadded 4 b.toNat (by omega)
      have hutf : utf8 b.toNat = [b] := by
        rw [utf8, if_pos (by omega), UInt8.ofNat_toNat]
      rw [decodeFrom]
      simp only [hvalue, Option.isSome_none, Bool.false_eq_true, false_and, if_false,
        Option.map_none, Option.getD_none, List.nil_append, hutf]
      rw [if_neg (by omega)]
      rfl

/-- A string is read back. -/
theorem decode_map_escapeChar (s : CStr) : decode (s.map escapeChar) = s := by
  unfold decode
  induction s with
  | nil => rfl
  | cons b s ih => rw [List.map_cons, decodeFrom_escapeChar, ih]

theorem map_escapeChar {s : CStr} (h : IsPlain s) : s.map escapeChar = plainString s := by
  induction s with
  | nil => rfl
  | cons b s ih =>
    have hb := h b List.mem_cons_self
    rw [List.map_cons, plainString_cons hb, ih fun c hc => h c (List.mem_cons_of_mem b hc),
      escapeChar, dif_pos hb]

/-- A string with its quotes. -/
def quoted (s : CStr) : CStr := print [.str (s.map escapeChar)]

mutual

/-- A printer, for numbers that are integers. -/
def unformatted : Json → CStr
  | .null => cstr "null"
  | .bool b => cstr (if b then "true" else "false")
  | .number n => signedDecimal n.valuedouble.num
  | .string s => quoted s
  | .array items => 91 :: (commas (unformattedItems items) ++ [93])
  | .object members => 123 :: (commas (unformattedMembers members) ++ [125])

/-- The texts of the items. -/
def unformattedItems : List Json → List CStr
  | [] => []
  | j :: items => unformatted j :: unformattedItems items

/-- The texts of the members. -/
def unformattedMembers : List (CStr × Json) → List CStr
  | [] => []
  | (name, j) :: members => (quoted name ++ 58 :: unformatted j) :: unformattedMembers members

end

theorem unformattedItems_eq (items : List Json) :
    unformattedItems items = items.map unformatted := by
  induction items with
  | nil => rfl
  | cons j items ih => rw [unformattedItems, ih, List.map_cons]

theorem unformattedMembers_eq (members : List (CStr × Json)) :
    unformattedMembers members = members.map (memberText unformatted) := by
  induction members with
  | nil => rfl
  | cons m members ih => rw [unformattedMembers, ih, List.map_cons]; rfl

/-- **The printer is one without blanks.** -/
theorem unformatted_unformatted : Unformatted unformatted where
  string s := ⟨s.map escapeChar, decode_map_escapeChar s, rfl⟩
  plain s h := by
    rw [unformatted, quoted, map_escapeChar h, print_cons, Lexeme.text, rawText_plainString h]
    exact List.append_nil _
  array items := by rw [unformatted, unformattedItems_eq]
  object members := by rw [unformatted, unformattedMembers_eq]

/-- It writes the numerals that it needs. -/
theorem printsNumbers_unformatted : PrintsNumbers unformatted := by
  intro n
  refine ⟨⟨n.valuedouble.num < 0, n.valuedouble.num.natAbs, [], none, no_digits⟩, ?_⟩
  rw [unformatted, signedDecimal]
  split_ifs with hsign <;> simp [Numeral.text, Numeral.exponentText, hsign]

end JsonText
