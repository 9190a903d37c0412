import TollGate.Lib.JsonText

/-!
# JSON texts that are cut off

A scan of a text counts the brackets that are open, outside of strings. A value of JSON leaves the
count as it was and never goes below it (`Derives.level`). So in front of the last bracket of an
array or an object one is open, and no text that is cut off there is JSON
(`not_isText_of_cut_bracket`). An object in a buffer is JSON only as a whole
(`isText_snprintf_iff`).
-/

namespace JsonText

open CStr

/-- A text of JSON: a value between blanks. -/
def IsText (text : CStr) : Prop :=
  ∃ a v b ms, Blank a ∧ Derives .value v ms ∧ Blank b ∧
    text = print (.other a :: (v ++ [.other b]))

/-! ### The scan -/

/-- Where the scan stands with regard to strings. -/
inductive Mode where
  | outside
  | inside
  /-- Behind a backslash. -/
  | escaped
deriving DecidableEq

/-- The open brackets, and where the scan stands. -/
structure Scan where
  depth : ℕ
  mode : Mode

/-- A byte outside of strings. -/
def scanOutside (depth : ℕ) (b : UInt8) : Scan :=
  if b = 34 then ⟨depth, .inside⟩
  else if b = 91 ∨ b = 123 then ⟨depth + 1, .outside⟩
  else if b = 93 ∨ b = 125 then ⟨depth - 1, .outside⟩
  else ⟨depth, .outside⟩

/-- One byte. -/
def scanByte (s : Scan) (b : UInt8) : Scan :=
  match s.mode with
  | .outside => scanOutside s.depth b
  | .inside =>
    if b = 34 then ⟨s.depth, .outside⟩
    else if b = 92 then ⟨s.depth, .escaped⟩
    else s
  | .escaped => ⟨s.depth, .inside⟩

/-- A text. -/
def scan (s : Scan) (text : CStr) : Scan := text.foldl scanByte s

@[simp] theorem scan_nil (s : Scan) : scan s [] = s := rfl

@[simp] theorem scan_cons (s : Scan) (b : UInt8) (text : CStr) :
    scan s (b :: text) = scan (scanByte s b) text := rfl

@[simp] theorem scan_append (s : Scan) (text text' : CStr) :
    scan s (text ++ text') = scan (scan s text) text' := List.foldl_append

/-- The scan never goes below the count. -/
def Above (d : ℕ) (s : Scan) : CStr → Prop
  | [] => d ≤ s.depth
  | b :: text => d ≤ s.depth ∧ Above d (scanByte s b) text

section Above

variable {d : ℕ} {s : Scan} {text : CStr}

theorem above_append (text text' : CStr) :
    Above d s (text ++ text') ↔ Above d s text ∧ Above d (scan s text) text' := by
  induction text generalizing s with
  | nil =>
    refine ⟨fun h => ⟨?_, h⟩, fun h => h.2⟩
    cases text' with
    | nil => exact h
    | cons b text' => exact h.1
  | cons b text ih =>
    rw [List.cons_append, Above, Above, ih, scan_cons, and_assoc]

theorem Above.mono {d' : ℕ} (hd : d' ≤ d) (h : Above d s text) : Above d' s text := by
  induction text generalizing s with
  | nil => exact hd.trans h
  | cons b text ih => exact ⟨hd.trans h.1, ih h.2⟩

theorem Above.front {front : CStr} (h : Above d s text) (hfront : front <+: text) :
    d ≤ (scan s front).depth := by
  obtain ⟨back, rfl⟩ := hfront
  obtain ⟨hfront, -⟩ := (above_append front back).mp h
  clear h
  induction front generalizing s with
  | nil => exact hfront
  | cons b front ih => exact ih hfront.2

end Above

/-- The byte is neither a quote nor a bracket. -/
def isPlainByte (b : UInt8) : Bool := b ≠ 34 && b ≠ 91 && b ≠ 93 && b ≠ 123 && b ≠ 125

/-- Scanned from outside of strings, the text ends where it began and goes never below. -/
structure Level (text : CStr) : Prop where
  ends : ∀ d, scan ⟨d, .outside⟩ text = ⟨d, .outside⟩
  above : ∀ d, Above d ⟨d, .outside⟩ text

namespace Level

variable {text text' : CStr}

theorem nil : Level [] := ⟨fun _ => rfl, fun d => le_refl d⟩

theorem append (h : Level text) (h' : Level text') : Level (text ++ text') := by
  refine ⟨fun d => ?_, fun d => (above_append text text').mpr ⟨h.above d, ?_⟩⟩
  · rw [scan_append, h.ends, h'.ends]
  · rw [h.ends]
    exact h'.above d

/-- Between brackets. -/
theorem bracket (h : Level text) {left right : UInt8} (hleft : left = 91 ∨ left = 123)
    (hright : right = 93 ∨ right = 125) : Level (left :: (text ++ [right])) := by
  have hopen : ∀ d, scanByte ⟨d, .outside⟩ left = ⟨d + 1, .outside⟩ := by
    intro d
    rcases hleft with rfl | rfl <;> rfl
  have hclose : ∀ d, scanByte ⟨d + 1, .outside⟩ right = ⟨d, .outside⟩ := by
    intro d
    rcases hright with rfl | rfl <;> rfl
  refine ⟨fun d => ?_, fun d => ⟨le_refl d, ?_⟩⟩
  · rw [scan_cons, hopen, scan_append, h.ends, scan_cons, hclose, scan_nil]
  · rw [hopen, above_append, h.ends, Above, hclose]
    exact ⟨(h.above (d + 1)).mono (Nat.le_succ d), Nat.le_succ d, le_refl d⟩

/-- Bytes that are neither quotes nor brackets. -/
theorem plain (h : text.all isPlainByte = true) : Level text := by
  induction text with
  | nil => exact nil
  | cons b text ih =>
    rw [List.all_cons, Bool.and_eq_true] at h
    obtain ⟨hb, htext⟩ := h
    have hrest := ih htext
    have hstep : ∀ d, scanByte ⟨d, .outside⟩ b = ⟨d, .outside⟩ := by
      intro d
      simp only [isPlainByte, Bool.and_eq_true, decide_eq_true_eq] at hb
      show scanOutside d b = _
      unfold scanOutside
      rw [if_neg hb.1.1.1.1, if_neg (by tauto), if_neg (by tauto)]
    refine ⟨fun d => ?_, fun d => ⟨le_refl d, ?_⟩⟩
    · rw [scan_cons, hstep, hrest.ends]
    · rw [hstep]
      exact hrest.above d

end Level

/-! ### The grammar -/

/-- A hexadecimal digit is neither a quote nor a backslash. -/
theorem ne_of_isHexDigit {b : UInt8} (h : isDigit 16 b = true) : b ≠ 34 ∧ b ≠ 92 := by
  refine ⟨?_, ?_⟩
  · rintro rfl
    exact absurd h (by decide)
  · rintro rfl
    exact absurd h (by decide)

/-- In a string nothing is counted. -/
theorem scan_char (d : ℕ) (c : StringChar) :
    scan ⟨d, .inside⟩ c.text = ⟨d, .inside⟩ ∧ Above d ⟨d, .inside⟩ c.text := by
  have hplain : ∀ t : CStr, (∀ b ∈ t, b ≠ 34 ∧ b ≠ 92) →
      scan ⟨d, .inside⟩ t = ⟨d, .inside⟩ ∧ Above d ⟨d, .inside⟩ t := by
    intro t ht
    induction t with
    | nil => exact ⟨rfl, le_refl d⟩
    | cons b t ih =>
      obtain ⟨⟨hquote, hslash⟩, ht⟩ := List.forall_mem_cons.mp ht
      have hstep : scanByte ⟨d, .inside⟩ b = ⟨d, .inside⟩ := by
        show (if b = 34 then _ else _) = _
        rw [if_neg hquote, if_neg hslash]
      rw [scan_cons, Above, hstep]
      exact ⟨(ih ht).1, le_refl d, (ih ht).2⟩
  cases c with
  | plain b h => exact hplain [b] (List.forall_mem_singleton.mpr h.2)
  | escape b h =>
    -- the byte behind the backslash is passed over, also when it is a quote
    exact ⟨rfl, le_refl d, le_refl d, le_refl d⟩
  | unicode digits h =>
    obtain ⟨hends, habove⟩ := hplain digits fun b hb => ne_of_isHexDigit (h.2 b hb)
    exact ⟨hends, le_refl d, le_refl d, habove⟩

theorem level_string (raw : List StringChar) : Level (34 :: (rawText raw ++ [34])) := by
  have hraw : ∀ d, scan ⟨d, .inside⟩ (rawText raw) = ⟨d, .inside⟩ ∧
      Above d ⟨d, .inside⟩ (rawText raw) := by
    intro d
    induction raw with
    | nil => exact ⟨rfl, le_refl d⟩
    | cons c raw ih =>
      obtain ⟨hends, habove⟩ := scan_char d c
      rw [rawText_cons, scan_append, above_append, hends]
      exact ⟨ih.1, habove, ih.2⟩
  -- the first quote goes inside, the last one outside again
  refine ⟨fun d => ?_, fun d => ⟨le_refl d, ?_⟩⟩
  · show scan ⟨d, .inside⟩ (rawText raw ++ [34]) = _
    rw [scan_append, (hraw d).1]
    rfl
  · show Above d ⟨d, .inside⟩ (rawText raw ++ [34])
    rw [above_append, (hraw d).1]
    exact ⟨(hraw d).2, le_refl d, le_refl d⟩

theorem level_blank {a : CStr} (ha : Blank a) : Level a := by
  refine Level.plain (List.all_eq_true.mpr fun b hb => ?_)
  have hblank := ha b hb
  simp only [isBlank, Bool.or_eq_true, decide_eq_true_eq] at hblank
  obtain ((rfl | rfl) | rfl) | rfl := hblank
  all_goals rfl

theorem level_digits {s : CStr} (h : ∀ d ∈ s, isDigit 10 d = true) : Level s := by
  refine Level.plain (List.all_eq_true.mpr fun b hb => ?_)
  have hdigit := h b hb
  simp only [isPlainByte, Bool.and_eq_true, decide_eq_true_eq]
  refine ⟨⟨⟨⟨?_, ?_⟩, ?_⟩, ?_⟩, ?_⟩
  all_goals
    rintro rfl
    exact absurd hdigit (by decide)

theorem level_numeral (n : Numeral) : Level n.text := by
  have hminus : Level (if n.minus then [45] else []) := by
    cases n.minus with
    | true => exact Level.plain rfl
    | false => exact Level.nil
  have hfraction : Level (if n.fraction = [] then [] else 46 :: n.fraction) := by
    split
    · exact Level.nil
    · exact (@Level.plain [46] rfl).append (level_digits n.hfraction)
  have hexponent : Level n.exponentText := by
    unfold Numeral.exponentText
    cases n.exponent with
    | none => exact Level.nil
    | some e =>
      have hmark : ∀ mark ∈ [cstr "e", cstr "E", cstr "e+", cstr "E+", cstr "e-", cstr "E-"],
          mark.all isPlainByte = true := by
        decide
      exact (Level.plain (hmark e.mark e.hmark)).append (level_digits e.hdigits.2)
  exact ((hminus.append (level_digits fun _ => isDigit_decimal)).append hfraction).append hexponent

section Lexemes

variable {ls ls' : List Lexeme} {t : CStr}

theorem level_other (ht : Level t) (h : Level (print ls)) : Level (print (.other t :: ls)) := by
  rw [print_cons]
  exact ht.append h

theorem level_append (h : Level (print ls)) (h' : Level (print ls')) :
    Level (print (ls ++ ls')) := by
  rw [print_append]
  exact h.append h'

theorem level_str {raw : List StringChar} (h : Level (print ls)) :
    Level (print (.str raw :: ls)) := by
  rw [print_cons]
  exact (level_string raw).append h

theorem level_between {left right : UInt8} (h : Level (print ls)) (hleft : left = 91 ∨ left = 123)
    (hright : right = 93 ∨ right = 125) :
    Level (print (.other [left] :: (ls ++ [.other [right]]))) := by
  have htext : print (.other [left] :: (ls ++ [.other [right]])) =
      left :: (print ls ++ [right]) := by
    simp [Lexeme.text, print]
  rw [htext]
  exact h.bracket hleft hright

/-- A comma, a colon. -/
theorem level_mark {b : UInt8} (hb : b = 44 ∨ b = 58) : Level [b] := by
  refine Level.plain ?_
  rcases hb with rfl | rfl <;> rfl

theorem level_member {m : Member} (hbefore : Blank m.before) (hgap : Blank m.gap)
    (hvalue : Level (print m.value)) : Level (print m.lexemes) :=
  level_str (level_other (level_blank hbefore) (level_other (level_mark (.inr rfl))
    (level_other (level_blank hgap) hvalue)))

end Lexemes

/-- **Values of JSON are level.** -/
theorem Derives.level {nt : Nonterminal} {ls : List Lexeme} {ms : List Member}
    (h : Derives nt ls ms) : Level (print ls) := by
  -- by cases of the grammar; only the brackets of arrays and objects change the count
  induction h with
  | string raw => exact level_str Level.nil
  | number n => exact level_other (level_numeral n) Level.nil
  | literal ht =>
    have hliteral : ∀ t ∈ [cstr "true", cstr "false", cstr "null"],
        t.all isPlainByte = true := by
      decide
    exact level_other (Level.plain (hliteral _ ht)) Level.nil
  | emptyArray ha =>
    exact @level_between [.other _] _ _ (level_other (level_blank ha) Level.nil) (.inl rfl)
      (.inl rfl)
  | array h ih => exact level_between ih (.inl rfl) (.inl rfl)
  | emptyObject ha =>
    exact @level_between [.other _] _ _ (level_other (level_blank ha) Level.nil) (.inr rfl)
      (.inr rfl)
  | object h ih => exact level_between ih (.inr rfl) (.inr rfl)
  | item ha hb hv ih =>
    exact level_other (level_blank ha) (level_append ih (level_other (level_blank hb) Level.nil))
  | items ha hb hv hls ihv ih =>
    exact level_other (level_blank ha) (level_append ihv
      (level_other (level_blank hb) (level_other (level_mark (.inl rfl)) ih)))
  | member ha hb hbefore hgap hv ih =>
    exact level_other (level_blank ha) (level_append (level_member hbefore hgap ih)
      (level_other (level_blank hb) Level.nil))
  | members ha hb hbefore hgap hv hls ihv ih =>
    exact level_other (level_blank ha) (level_append (level_member hbefore hgap ihv)
      (level_other (level_blank hb) (level_other (level_mark (.inl rfl)) ih)))

theorem IsText.level {text : CStr} (h : IsText text) : Level text := by
  obtain ⟨a, v, b, ms, ha, hv, hb, rfl⟩ := h
  exact level_other (level_blank ha)
    (level_append hv.level (level_other (level_blank hb) Level.nil))

theorem IsText.ne_nil {text : CStr} (h : IsText text) : text ≠ [] := by
  obtain ⟨a, v, b, ms, ha, hv, hb, rfl⟩ := h
  intro hnil
  rw [print_cons, print_append, List.append_eq_nil_iff, List.append_eq_nil_iff] at hnil
  exact hv.value_ne hnil.2.1

/-- **Cut texts.** What is in front of the last bracket of an array or an object is no text of
JSON. -/
theorem not_isText_of_cut_bracket {left right : UInt8} {inner front : CStr}
    (hleft : left = 91 ∨ left = 123) (h : Level inner)
    (hfront : front <+: left :: (inner ++ [right])) (hcut : front ≠ left :: (inner ++ [right])) :
    ¬ IsText front := by
  intro htext
  cases front with
  | nil => exact htext.ne_nil rfl
  | cons b front =>
    obtain ⟨rfl, hprefix⟩ := List.cons_prefix_cons.mp hfront
    rcases List.prefix_concat_iff.mp hprefix with rfl | hinner
    · exact hcut rfl
    · -- the first bracket is still open
      have hopens : scanByte ⟨0, .outside⟩ b = ⟨1, .outside⟩ := by
        rcases hleft with rfl | rfl <;> rfl
      have hopen : 1 ≤ (scan ⟨1, .outside⟩ front).depth := (h.above 1).front hinner
      have hlevel : scan (scanByte ⟨0, .outside⟩ b) front = ⟨0, .outside⟩ := htext.level.ends 0
      rw [hopens] at hlevel
      rw [hlevel] at hopen
      exact absurd hopen (by decide)

/-- What is in front of the last bracket of an array is no text of JSON. -/
theorem not_isText_of_cut {inner front : CStr} (h : Level inner)
    (hfront : front <+: 91 :: (inner ++ [93])) (hcut : front ≠ 91 :: (inner ++ [93])) :
    ¬ IsText front :=
  not_isText_of_cut_bracket (.inl rfl) h hfront hcut

/-- An object is a text of JSON. -/
theorem IsObject.isText {text : CStr} {top ms : List Member} (h : IsObject text top ms) :
    IsText text := by
  obtain ⟨ls, ⟨a, inner, b, ha, hinner, hb, rfl⟩, rfl⟩ := h
  refine ⟨a, _, b, ms, ha, .object hinner, hb, ?_⟩
  rw [List.cons_append, List.append_assoc]
  rfl

/-- What is in front of the last bracket of an object without blanks is no text of JSON. -/
theorem not_isText_of_cut_compact {front : CStr} {top ms : List Member}
    (h : IsDocument (compactObject top) top ms) (hfront : front <+: compactText top)
    (hcut : front ≠ compactText top) : ¬ IsText front := by
  obtain ⟨a, inner, b, -, hinner, -, heq⟩ := h
  have hmembers : compact top ++ [.other [125], .other []] = inner ++ [.other [125], .other b] :=
    (List.cons.inj (List.cons.inj heq).2).2
  obtain ⟨rfl, -⟩ := List.append_inj' hmembers rfl
  have htext : compactText top = 123 :: (print (compact top) ++ [125]) := by
    simp [compactText, compactObject, print, Lexeme.text]
  rw [htext] at hfront hcut
  exact not_isText_of_cut_bracket (.inr rfl) hinner.level hfront hcut

/-- **In a buffer** an object without blanks is a text of JSON if and only if it is not cut off. -/
theorem isText_snprintf_iff {size : ℕ} (hsize : 0 < size) {top ms : List Member}
    (h : IsDocument (compactObject top) top ms) :
    IsText (snprintf size (compactText top)) ↔ (compactText top).length < size := by
  constructor
  · intro htext
    by_contra hlong
    have hlength : (snprintf size (compactText top)).length = size - 1 :=
      List.length_take_of_le (by omega)
    refine not_isText_of_cut_compact h (List.take_prefix _ _) ?_ htext
    change snprintf size (compactText top) ≠ compactText top
    intro hwhole
    rw [hwhole] at hlength
    omega
  · intro hfits
    rw [snprintf_of_length_lt hfits]
    exact IsObject.isText ⟨_, h, rfl⟩

end JsonText
