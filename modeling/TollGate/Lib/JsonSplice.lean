import TollGate.Lib.JsonPrinter

/-!
# A string put between quotes as it is

Programs that write JSON with `"%s"` copy a string into the text. What is read there is the
string itself exactly if it is plain: an escape takes more bytes in the text than it stands for
(`plain_of_length_le`), so a text that is no longer than what it means has none.
`eventArray_iff` says so of an array of a name, such a string and a value.
-/

namespace JsonText

open CStr

/-! ### The length of what is meant -/

/-- The bytes of the first half of a surrogate pair that gets no second. -/
def pending (hi : Option ℕ) : ℕ := if hi.isSome then 4 else 0

theorem length_utf8_le (c : ℕ) : (utf8 c).length ≤ 4 := by
  unfold utf8
  split_ifs
  all_goals simp only [List.length_cons, List.length_nil]
  all_goals omega

theorem length_getD_utf8_le (hi : Option ℕ) : ((hi.map utf8).getD []).length ≤ pending hi := by
  cases hi with
  | none => exact le_rfl
  | some c => exact length_utf8_le c

section Length

variable {raw : List StringChar}

/-- An escape by its number stands for fewer bytes than it has. -/
theorem length_decodeFrom_unicode
    (h : ∀ hi, (decodeFrom hi raw).length ≤ (rawText raw).length + pending hi) (hi : Option ℕ)
    {digits : CStr} (hdigits : digits.length = 4 ∧ ∀ d ∈ digits, isDigit 16 d = true) :
    (decodeFrom hi (.unicode digits hdigits :: raw)).length ≤
      (rawText raw).length + 4 + pending hi := by
  have hfirst := length_getD_utf8_le hi
  have hnone : (decodeFrom none raw).length ≤ (rawText raw).length := h none
  rw [decodeFrom]
  split_ifs
  · -- the second half makes one code point with the first
    rw [List.length_append]
    have hpair := length_utf8_le
      (0x10000 + (hi.getD 0 - 0xD800) * 1024 + (numeral 16 digits - 0xDC00))
    omega
  · -- a first half waits for the next character
    rw [List.length_append]
    have hsome : (decodeFrom (some (numeral 16 digits)) raw).length ≤ (rawText raw).length + 4 :=
      h (some (numeral 16 digits))
    omega
  · rw [List.length_append, List.length_append]
    have hpoint := length_utf8_le (numeral 16 digits)
    omega

theorem length_unicode_text {digits : CStr}
    (hdigits : digits.length = 4 ∧ ∀ d ∈ digits, isDigit 16 d = true) :
    (rawText (.unicode digits hdigits :: raw)).length = 6 + (rawText raw).length := by
  rw [rawText_cons, List.length_append]
  show digits.length + 1 + 1 + _ = _
  rw [hdigits.1]

/-- What is meant has no more bytes than the text. -/
theorem length_decodeFrom_le (hi : Option ℕ) (raw : List StringChar) :
    (decodeFrom hi raw).length ≤ (rawText raw).length + pending hi := by
  induction raw generalizing hi with
  | nil =>
    refine (length_getD_utf8_le hi).trans ?_
    exact Nat.le_add_left _ _
  | cons c raw ih =>
    have hfirst := length_getD_utf8_le hi
    have hnone : (decodeFrom none raw).length ≤ (rawText raw).length := ih none
    cases c with
    | plain b h =>
      rw [decodeFrom, rawText_cons, List.length_append, List.length_append, List.length_cons]
      show _ ≤ 1 + _ + _
      omega
    | escape b h =>
      rw [decodeFrom, rawText_cons, List.length_append, List.length_append, List.length_cons]
      show _ ≤ 2 + _ + _
      omega
    | unicode digits h =>
      have hshort := length_decodeFrom_unicode ih hi h
      rw [length_unicode_text]
      omega

/-- **A text that is no longer than what it means is plain.** -/
theorem plain_of_length_le (h : (rawText raw).length ≤ (decode raw).length) :
    rawText raw = decode raw ∧ IsPlain (rawText raw) := by
  unfold decode at h ⊢
  induction raw with
  | nil => exact ⟨rfl, nofun⟩
  | cons c raw ih =>
    have hnone : (decodeFrom none raw).length ≤ (rawText raw).length :=
      length_decodeFrom_le none raw
    cases c with
    | plain b hb =>
      have hle : (rawText raw).length ≤ (decodeFrom none raw).length := Nat.le_of_succ_le_succ h
      obtain ⟨htext, hplain⟩ := ih hle
      refine ⟨congrArg (b :: ·) htext, ?_⟩
      exact List.forall_mem_cons.mpr ⟨hb, hplain⟩
    | escape b hb =>
      -- two bytes for one, and the rest cannot make up for it
      have hle : (rawText raw).length + 2 ≤ (decodeFrom none raw).length + 1 := h
      omega
    | unicode digits hdigits =>
      have hshort : _ ≤ (rawText raw).length + 4 :=
        length_decodeFrom_unicode (length_decodeFrom_le · raw) none hdigits
      rw [length_unicode_text] at h
      omega

end Length

/-! ### Arrays of strings -/

/-- The text is an array of these strings. -/
def IsStrings (text : CStr) (texts : List CStr) : Prop :=
  ∃ (ls : List Lexeme) (raws : List (List StringChar)), text = print ls ∧
    IsArray ls (raws.map fun raw => [.str raw]) ∧ raws.map decode = texts

/-- A printer writes an array of strings as one. -/
theorem Unformatted.isStrings {printer : CJson.Json → CStr} (h : Unformatted printer)
    {texts : List CStr} (hne : texts ≠ []) :
    IsStrings (printer (.array (texts.map CJson.Json.string))) texts := by
  obtain ⟨raws, hdecode, hprint⟩ := h.exists_raws texts
  have hraws : raws ≠ [] := by
    rintro rfl
    exact hne hdecode.symm
  refine ⟨_, raws, ?_, ⟨stringItems raws, items_stringItems hraws, rfl⟩, hdecode⟩
  rw [h.array, hprint, ← print_stringItems]
  simp [print, Lexeme.text]

/-! ### An array of a name, a string and a value -/

/-- The text is a value. -/
def IsValue (text : CStr) : Prop := ∃ v ms, Derives .value v ms ∧ print v = text

theorem isValue_compactText {top : List Member} (hne : top ≠ [])
    (h : ∀ m ∈ top, Blank m.before ∧ Blank m.gap ∧ Derives .value m.value []) :
    IsValue (compactText top) := by
  have hpairs := @derives_compact (top.map fun m => (m, []))
    (fun hnil => hne (List.map_eq_nil_iff.mp hnil)) ?_
  · refine ⟨_, _, .object hpairs, ?_⟩
    simp [compactText, compactObject, print, Lexeme.text, Function.comp_def]
  · intro p hp
    obtain ⟨m, hm, rfl⟩ := List.mem_map.mp hp
    exact h m hm

/-- The text is an array of the two strings and the value. -/
def IsEventArray (text name s value : CStr) : Prop :=
  ∃ (ls : List Lexeme) (raw raw' : List StringChar) (v : List Lexeme), text = print ls ∧
    IsArray ls [[.str raw], [.str raw'], v] ∧ decode raw = name ∧ decode raw' = s ∧
    print v = value

/-- What `["%s","%s",%s]` writes. -/
def eventArray (name s value : CStr) : CStr :=
  91 :: 34 :: (name ++ 34 :: 44 :: 34 :: (s ++ 34 :: 44 :: (value ++ [93])))

theorem isEventArray_of_plain {name s value : CStr} (hname : IsPlain name) (hs : IsPlain s)
    (hvalue : IsValue value) : IsEventArray (eventArray name s value) name s value := by
  obtain ⟨v, ms, hv, rfl⟩ := hvalue
  refine ⟨_, plainString name, plainString s, v, ?_, ⟨_, .cons blank_nil blank_nil (.string _)
    (.cons blank_nil blank_nil (.string _) (.one blank_nil blank_nil hv)), rfl⟩,
    decode_plainString hname, decode_plainString hs, rfl⟩
  simp [eventArray, print, Lexeme.text, rawText_plainString hname, rawText_plainString hs]

/-- Blanks in front of a byte that is none are not there. -/
theorem eq_nil_of_blank {a rest rest' : CStr} {b : UInt8} (ha : Blank a)
    (hb : isBlank b = false) (h : a ++ rest = b :: rest') : a = [] := by
  cases a with
  | nil => rfl
  | cons c a =>
    obtain ⟨rfl, -⟩ := List.cons.inj h
    exact absurd (ha c List.mem_cons_self) (by rw [hb]; exact Bool.false_ne_true)

/-- A plain text and a string that end at the same quote. -/
theorem split_at_quote {name rest rest' : CStr} (hname : IsPlain name) {raw : List StringChar}
    (h : rawText raw ++ 34 :: rest = name ++ 34 :: rest') :
    rawText raw = name ∧ rest = rest' := by
  have hfront : name ++ 34 :: rest' <+: rawText raw ++ 34 :: rest := by
    rw [h]
  obtain ⟨hraw, -⟩ := (name_prefix_iff (fun b hb => (hname b hb).2) raw rest).mp hfront
  rw [hraw] at h
  exact ⟨hraw, (List.cons.inj (List.append_cancel_left h)).2⟩

/-- **What `"%s"` writes into an array.** With a string that is no longer than what should be
read, it is that string and it is plain. -/
theorem eventArray_iff {name s stored value : CStr} (hname : IsPlain name)
    (hvalue : IsValue value) (hlength : stored.length ≤ s.length) :
    IsEventArray (eventArray name stored value) name s value ↔ stored = s ∧ IsPlain s := by
  refine ⟨?_, fun ⟨hstored, hplain⟩ => hstored ▸ isEventArray_of_plain hname (hstored ▸ hplain)
    hvalue⟩
  rintro ⟨ls, raw, raw', v, htext, ⟨inner, hitems, rfl⟩, hraw, hdecode, hv⟩
  -- three items, with blanks around each
  cases hitems with
  | @cons a b _ _ _ _ ha hb _ hitems =>
  cases hitems with
  | @cons c d _ _ _ _ hc hd _ hitems =>
  cases hitems with
  | cons _ _ _ hitems => cases hitems
  | @one e f _ _ he hf _ =>
  -- the bytes of the text, from its beginning
  have hbytes : a ++ 34 :: (rawText raw ++ 34 :: (b ++ 44 :: (c ++ 34 :: (rawText raw' ++ 34 ::
      (d ++ 44 :: (e ++ (value ++ (f ++ [93])))))))) =
      34 :: (name ++ 34 :: 44 :: 34 :: (stored ++ 34 :: 44 :: (value ++ [93]))) := by
    have hprint := (List.cons.inj htext).2
    simpa [print, Lexeme.text, ← hv, List.flatMap_def] using hprint.symm
  -- the text has no blanks in front of its quotes and commas
  obtain rfl := eq_nil_of_blank ha rfl hbytes
  obtain ⟨-, hbytes⟩ := split_at_quote hname (List.cons.inj hbytes).2
  obtain rfl := eq_nil_of_blank hb rfl hbytes
  have hbytes := (List.cons.inj hbytes).2
  obtain rfl := eq_nil_of_blank hc rfl hbytes
  have hbytes := (List.cons.inj hbytes).2
  -- both have the value, so the string has no room for an escape
  have hsame := congrArg List.length hbytes
  simp only [List.length_append, List.length_cons, List.length_nil] at hsame
  have hmeant : (decode raw').length = s.length := congrArg List.length hdecode
  obtain ⟨htext', hplain⟩ := @plain_of_length_le raw' (by omega)
  have hread : rawText raw' = s := htext'.trans hdecode
  have hshort : (rawText raw').length = s.length := congrArg List.length hread
  obtain ⟨hstored, -⟩ := List.append_inj hbytes (by omega)
  exact ⟨hstored.symm.trans hread, hread ▸ hplain⟩

end JsonText
