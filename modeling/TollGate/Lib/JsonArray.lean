import TollGate.Lib.JsonNesting

/-!
# Arrays, and the strings of a text

`IsArray` gives the items of an array of JSON. `stringItems` are the items of an array of strings
without blanks.

A text of lexemes may be read in one way only as far as its strings are concerned: `quotedParts`
finds them without the grammar (`quotedParts_print`), and `rawText` is injective. So two
derivations of one text have the same strings (`strings_eq_of_print_eq`).
-/

namespace JsonText

open CStr

/-! ### Arrays -/

/-- The lexemes are these values with commas between. -/
inductive Items : List Lexeme → List (List Lexeme) → Prop where
  | one {a b : CStr} {v : List Lexeme} {ms : List Member} (ha : Blank a) (hb : Blank b)
    (hv : Derives .value v ms) : Items (.other a :: (v ++ [.other b])) [v]
  | cons {a b : CStr} {v ls : List Lexeme} {ms : List Member} {vs : List (List Lexeme)}
    (ha : Blank a) (hb : Blank b) (hv : Derives .value v ms) (hls : Items ls vs) :
    Items (.other a :: (v ++ .other b :: .other [44] :: ls)) (v :: vs)

/-- The lexemes are an array of these values. -/
def IsArray (ls : List Lexeme) (vs : List (List Lexeme)) : Prop :=
  ∃ inner, Items inner vs ∧ ls = .other [91] :: (inner ++ [.other [93]])

variable {ls ls' inner : List Lexeme} {vs : List (List Lexeme)}

theorem Items.derives (h : Items ls vs) : ∃ ms, Derives .items ls ms := by
  induction h with
  | one ha hb hv => exact ⟨_, .item ha hb hv⟩
  | cons ha hb hv hls ih =>
    obtain ⟨ms, hms⟩ := ih
    exact ⟨_, .items ha hb hv hms⟩

theorem IsArray.derives (h : IsArray ls vs) : ∃ ms, Derives .value ls ms := by
  obtain ⟨inner, hinner, rfl⟩ := h
  obtain ⟨ms, hms⟩ := hinner.derives
  exact ⟨ms, .array hms⟩

/-- An item's lexemes are among those of the array. -/
theorem Items.subset (h : Items ls vs) {v : List Lexeme} (hv : v ∈ vs) : v ⊆ ls := by
  induction h with
  | one ha hb hderives =>
    obtain rfl := List.mem_singleton.mp hv
    exact fun l hl => List.mem_cons_of_mem _ (List.mem_append_left _ hl)
  | cons ha hb hderives hls ih =>
    obtain rfl | hv := List.mem_cons.mp hv
    · exact fun l hl => List.mem_cons_of_mem _ (List.mem_append_left _ hl)
    · intro l hl
      refine List.mem_cons_of_mem _ (List.mem_append_right _ ?_)
      exact List.mem_cons_of_mem _ (List.mem_cons_of_mem _ (ih hv hl))

theorem IsArray.subset (h : IsArray ls vs) {v : List Lexeme} (hv : v ∈ vs) : v ⊆ ls := by
  obtain ⟨inner, hinner, rfl⟩ := h
  exact fun l hl => List.mem_cons_of_mem _ (List.mem_append_left _ (hinner.subset hv hl))

/-- A member's lexemes are among those of the object. -/
theorem Derives.value_subset {top : List Member} {ms : List Member}
    (h : Derives (.members top) ls ms) {m : Member} (hm : m ∈ top) : m.value ⊆ ls := by
  have hmember : ∀ m : Member, m.value ⊆ m.lexemes := fun m l hl =>
    List.mem_cons_of_mem _ (List.mem_cons_of_mem _ (List.mem_cons_of_mem _
      (List.mem_cons_of_mem _ hl)))
  generalize hnt : Nonterminal.members top = nt at h
  induction h generalizing top with
  | string | number | literal | emptyArray | array | emptyObject | object | item | items =>
    -- these rules derive other nonterminals
    cases hnt
  | member ha hb hbefore hgap hv ih =>
    obtain rfl := Nonterminal.members.inj hnt
    obtain rfl := List.mem_singleton.mp hm
    exact fun l hl => List.mem_cons_of_mem _ (List.mem_append_left _ (hmember _ hl))
  | members ha hb hbefore hgap hv hls ihv ih =>
    obtain rfl := Nonterminal.members.inj hnt
    obtain rfl | hm := List.mem_cons.mp hm
    · exact fun l hl => List.mem_cons_of_mem _ (List.mem_append_left _ (hmember _ hl))
    · intro l hl
      refine List.mem_cons_of_mem _ (List.mem_append_right _ ?_)
      exact List.mem_cons_of_mem _ (List.mem_cons_of_mem _ (ih hm rfl hl))

/-! ### The strings of a text -/

/-- The strings among the lexemes. -/
def strings (ls : List Lexeme) : List (List StringChar) :=
  ls.filterMap fun l => match l with
    | .str raw => some raw
    | .other _ => none

theorem strings_append (ls ls' : List Lexeme) : strings (ls ++ ls') = strings ls ++ strings ls' :=
  List.filterMap_append

theorem strings_cons_str (raw : List StringChar) (ls : List Lexeme) :
    strings (.str raw :: ls) = raw :: strings ls := rfl

theorem strings_cons_other (t : CStr) (ls : List Lexeme) :
    strings (.other t :: ls) = strings ls := rfl

theorem mem_strings {raw : List StringChar} : raw ∈ strings ls ↔ .str raw ∈ ls := by
  unfold strings
  rw [List.mem_filterMap]
  refine ⟨?_, fun h => ⟨_, h, rfl⟩⟩
  rintro ⟨l, hl, hraw⟩
  cases l with
  | str raw' => exact Option.some.inj hraw ▸ hl
  | other t => exact absurd hraw nofun

/-- What stands between quotes, from outside of strings or with the part of a string that was
read. -/
def quotedParts : Option CStr → CStr → List CStr
  | _, [] => []
  | none, b :: text => if b = 34 then quotedParts (some []) text else quotedParts none text
  | some part, 92 :: b :: text => quotedParts (some (part ++ [92, b])) text
  | some part, b :: text =>
    if b = 34 then part :: quotedParts none text else quotedParts (some (part ++ [b])) text

theorem quotedParts_other {t : CStr} (h : 34 ∉ t) (rest : CStr) :
    quotedParts none (t ++ rest) = quotedParts none rest := by
  induction t with
  | nil => rfl
  | cons b t ih =>
    rw [List.mem_cons, not_or] at h
    obtain ⟨hb, ht⟩ := h
    rw [List.cons_append, quotedParts, if_neg (Ne.symm hb), ih ht]

/-- Inside of a string a byte other than the backslash stands for itself. -/
theorem quotedParts_inside (part : CStr) {b : UInt8} (hb : b ≠ 92) (text : CStr) :
    quotedParts (some part) (b :: text) =
      if b = 34 then part :: quotedParts none text else quotedParts (some (part ++ [b])) text := by
  rw [quotedParts]
  exact fun _ _ h => absurd h hb

/-- A character belongs to the string. -/
theorem quotedParts_char (part : CStr) (c : StringChar) (rest : CStr) :
    quotedParts (some part) (c.text ++ rest) = quotedParts (some (part ++ c.text)) rest := by
  have hplain : ∀ (t part : CStr), (∀ b ∈ t, b ≠ 34 ∧ b ≠ 92) →
      quotedParts (some part) (t ++ rest) = quotedParts (some (part ++ t)) rest := by
    intro t
    induction t with
    | nil => exact fun part _ => by rw [List.nil_append, List.append_nil]
    | cons b t ih =>
      intro part ht
      obtain ⟨⟨hquote, hslash⟩, ht⟩ := List.forall_mem_cons.mp ht
      rw [List.cons_append, quotedParts_inside part hslash, if_neg hquote, ih _ ht,
        List.append_assoc, List.singleton_append]
  cases c with
  | plain b h => exact hplain [b] part (List.forall_mem_singleton.mpr h.2)
  | escape b h => rfl
  | unicode digits h =>
    show quotedParts (some (part ++ [92, 117])) (digits ++ rest) = _
    rw [hplain digits _ fun b hb => ne_of_isHexDigit (h.2 b hb), List.append_assoc]
    rfl

theorem quotedParts_raw (part : CStr) (raw : List StringChar) (rest : CStr) :
    quotedParts (some part) (rawText raw ++ 34 :: rest) =
      (part ++ rawText raw) :: quotedParts none rest := by
  induction raw generalizing part with
  | nil =>
    show quotedParts (some part) (34 :: rest) = _
    rw [show rawText [] = [] from rfl, List.append_nil]
    rfl
  | cons c raw ih =>
    rw [rawText_cons, List.append_assoc, quotedParts_char, ih, List.append_assoc]

/-- **The strings of a text.** They are found without the grammar. -/
theorem quotedParts_print (h : Spaced ls) :
    quotedParts none (print ls) = (strings ls).map rawText := by
  induction ls with
  | nil => rfl
  | cons l ls ih =>
    rw [print_cons]
    cases l with
    | other t =>
      -- there are no quotes outside of strings
      rw [Lexeme.text, quotedParts_other h.1, ih h.2]
      rfl
    | str raw =>
      have htext : (Lexeme.str raw).text ++ print ls =
          34 :: (rawText raw ++ 34 :: print ls) := by
        simp [Lexeme.text]
      rw [htext]
      show quotedParts (some []) (rawText raw ++ 34 :: print ls) = _
      rw [quotedParts_raw, List.nil_append, ih h.2]
      rfl

/-- A string is written in one way only with the same bytes. -/
theorem rawText_injective : Function.Injective rawText := by
  intro raw raw' heq
  induction raw generalizing raw' with
  | nil =>
    cases raw' with
    | nil => rfl
    | cons c raw' => cases c <;> exact absurd heq nofun
  | cons c raw ih =>
    cases raw' with
    | nil => cases c <;> exact absurd heq nofun
    | cons c' raw' =>
      rw [rawText_cons, rawText_cons] at heq
      -- a backslash tells the two forms of an escape from a byte, and `u` the one from the other
      cases c with
      | plain b h =>
        cases c' with
        | plain b' h' =>
          obtain ⟨rfl, hrest⟩ := List.cons.inj heq
          rw [ih hrest]
        | escape b' h' => exact absurd (List.cons.inj heq).1 h.2.2
        | unicode digits' h' => exact absurd (List.cons.inj heq).1 h.2.2
      | escape b h =>
        cases c' with
        | plain b' h' => exact absurd (List.cons.inj heq).1.symm h'.2.2
        | escape b' h' =>
          obtain ⟨rfl, hrest⟩ := List.cons.inj (List.cons.inj heq).2
          rw [ih hrest]
        | unicode digits' h' =>
          have hb : b = 117 := (List.cons.inj (List.cons.inj heq).2).1
          exact absurd (hb ▸ h) (by decide)
      | unicode digits h =>
        cases c' with
        | plain b' h' => exact absurd (List.cons.inj heq).1.symm h'.2.2
        | escape b' h' =>
          have hb : 117 = b' := (List.cons.inj (List.cons.inj heq).2).1
          exact absurd (hb ▸ h') (by decide)
        | unicode digits' h' =>
          have htail := (List.cons.inj (List.cons.inj heq).2).2
          obtain ⟨rfl, hrest⟩ := List.append_inj htail (h.1.trans h'.1.symm)
          rw [ih hrest]

/-- **One text has one list of strings.** -/
theorem strings_eq_of_print_eq (h : Spaced ls) (h' : Spaced ls') (heq : print ls = print ls') :
    strings ls = strings ls' := by
  refine rawText_injective.list_map ?_
  rw [← quotedParts_print h, heq, quotedParts_print h']

/-- A value between blanks is spaced. -/
theorem Derives.spaced_between {v : List Lexeme} {ms : List Member} (h : Derives .value v ms)
    {a b : CStr} (ha : Blank a) (hb : Blank b) : Spaced (.other a :: (v ++ [.other b])) :=
  ⟨not_mem_of_blank ha, h.spaced ⟨not_mem_of_blank hb, trivial⟩
    (follows_print_blank hb (show Follows (print []) from nofun))⟩

/-! ### Arrays of strings without blanks -/

/-- The lexemes of strings with commas between. -/
def stringItems : List (List StringChar) → List Lexeme
  | [] => []
  | [raw] => [.other [], .str raw, .other []]
  | raw :: raw' :: raws =>
    .other [] :: .str raw :: .other [] :: .other [44] :: stringItems (raw' :: raws)

theorem items_stringItems {raws : List (List StringChar)} (hne : raws ≠ []) :
    Items (stringItems raws) (raws.map fun raw => [.str raw]) := by
  induction raws with
  | nil => exact absurd rfl hne
  | cons raw raws ih =>
    cases raws with
    | nil => exact .one blank_nil blank_nil (.string raw)
    | cons raw' raws => exact .cons blank_nil blank_nil (.string raw) (ih (List.cons_ne_nil _ _))

theorem strings_stringItems (raws : List (List StringChar)) :
    strings (stringItems raws) = raws := by
  induction raws with
  | nil => rfl
  | cons raw raws ih =>
    cases raws with
    | nil => rfl
    | cons raw' raws => exact congrArg (raw :: ·) ih

end JsonText
