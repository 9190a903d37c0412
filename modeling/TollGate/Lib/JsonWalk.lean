import TollGate.Lib.JsonSplice

/-!
# Reading an object from its beginning

What the members of an object are, from a text that is known up to some place. `IsObject.open_`
goes behind the brace, `Derives.first_member` reads the name of the next member, and behind it
`string_value` and `number_value` read a value that is known, up to the comma.
-/

namespace JsonText

open CStr

variable {v ls : List Lexeme} {ms top : List Member} {rest : CStr}

/-! ### Strings -/

/-- A plain text is written in one way only. -/
theorem decode_of_rawText {raw : List StringChar} {s : CStr} (hs : IsPlain s)
    (h : rawText raw = s) : decode raw = s := by
  have hraw : raw = plainString s :=
    rawText_injective (h.trans (rawText_plainString hs).symm)
  rw [hraw, decode_plainString hs]

/-- A value that begins with a quote is a string. -/
theorem Derives.string_of_quote (h : Derives .value v ms) {x : CStr}
    (hv : print v ++ x = 34 :: rest) : ∃ raw, v = [.str raw] := by
  cases h with
  | string raw => exact ⟨raw, rfl⟩
  | number n =>
    have hbytes : n.text ++ x = 34 :: rest := by
      simpa [print, Lexeme.text] using hv
    -- a numeral has no quote in it
    obtain ⟨b, s, hn, -⟩ := n.text_head
    refine absurd ?_ n.not_mem_text
    rw [hn] at hbytes ⊢
    exact (List.cons.inj hbytes).1 ▸ List.mem_cons_self
  | literal ht =>
    simp only [List.mem_cons, List.not_mem_nil, or_false] at ht
    obtain rfl | rfl | rfl := ht
    all_goals exact absurd (List.cons.inj hv).1 (by decide)
  | emptyArray ha => exact absurd (List.cons.inj hv).1 (by decide)
  | array h => exact absurd (List.cons.inj hv).1 (by decide)
  | emptyObject ha => exact absurd (List.cons.inj hv).1 (by decide)
  | object h => exact absurd (List.cons.inj hv).1 (by decide)

/-- A string that is known. -/
theorem Derives.string_value (h : Derives .value v ms) {s x : CStr} (hs : IsPlain s)
    (hv : print v ++ x = 34 :: (s ++ 34 :: rest)) :
    ∃ raw, v = [.str raw] ∧ decode raw = s ∧ x = rest := by
  obtain ⟨raw, rfl⟩ := h.string_of_quote hv
  have hbytes : rawText raw ++ 34 :: x = s ++ 34 :: rest := by
    have htail := (List.cons.inj hv).2
    simpa [print, Lexeme.text] using htail
  obtain ⟨hraw, hrest⟩ := split_at_quote hs hbytes
  exact ⟨raw, rfl, decode_of_rawText hs hraw, hrest⟩

/-! ### Numbers -/

/-- A byte that stands in numbers. -/
def inNumber (b : UInt8) : Bool := isDigit 10 b || b = 45 || b = 43 || b = 46 || b = 101 || b = 69

theorem inNumber_of_digit {b : UInt8} (h : isDigit 10 b = true) : inNumber b = true := by
  simp [inNumber, h]

theorem Numeral.inNumber_of_mem (n : Numeral) : ∀ b ∈ n.text, inNumber b = true := by
  have hexponent : ∀ b ∈ n.exponentText, inNumber b = true := by
    unfold Numeral.exponentText
    cases n.exponent with
    | none => exact nofun
    | some e =>
      have hmark : ∀ mark ∈ [cstr "e", cstr "E", cstr "e+", cstr "E+", cstr "e-", cstr "E-"],
          mark.all inNumber = true := by
        decide
      intro b hb
      rcases List.mem_append.mp hb with hb | hb
      · exact List.all_eq_true.mp (hmark e.mark e.hmark) b hb
      · exact inNumber_of_digit (e.hdigits.2 b hb)
  have hfraction : ∀ b ∈ n.fraction, inNumber b = true :=
    fun b hb => inNumber_of_digit (n.hfraction b hb)
  have hwhole : ∀ b ∈ decimal n.whole, inNumber b = true :=
    fun b hb => inNumber_of_digit (isDigit_decimal hb)
  intro b hb
  simp only [Numeral.text, List.mem_append] at hb
  rcases hb with ((hb | hb) | hb) | hb
  · split at hb
    · rw [List.mem_singleton.mp hb]
      decide
    · cases hb
  · exact hwhole b hb
  · split at hb
    · cases hb
    · rcases List.mem_cons.mp hb with rfl | hb
      · decide
      · exact hfraction b hb
  · exact hexponent b hb

/-- What ends a value stands in no number. -/
theorem Follows.not_inNumber {s : CStr} (h : Follows s) {b : UInt8} (hb : b ∈ s.head?) :
    inNumber b = false := by
  rcases h.head hb with hblank | rfl | rfl | rfl
  · simp only [isBlank, Bool.or_eq_true, decide_eq_true_eq] at hblank
    obtain ((rfl | rfl) | rfl) | rfl := hblank
    all_goals decide
  all_goals decide

/-- The part of a text that is a number. -/
theorem takeWhile_inNumber {s t : CStr} (hs : ∀ b ∈ s, inNumber b = true)
    (ht : ∀ b ∈ t.head?, inNumber b = false) : (s ++ t).takeWhile inNumber = s := by
  rw [List.takeWhile_append_of_pos hs]
  cases t with
  | nil => exact List.append_nil s
  | cons b t =>
    rw [List.takeWhile_cons_of_neg (by rw [ht b rfl]; exact Bool.false_ne_true), List.append_nil]

/-- A numeral does not begin with a blank. -/
theorem decimal_head (k : ℕ) : ∃ d digits, decimal k = d :: digits ∧ isBlank d = false := by
  obtain ⟨d, digits, hdecimal⟩ := List.exists_cons_of_ne_nil (decimal_ne_nil k)
  have hdigit : isDigit 10 d = true := isDigit_decimal (hdecimal ▸ List.mem_cons_self)
  refine ⟨d, digits, hdecimal, ?_⟩
  by_contra hblank
  rw [Bool.not_eq_false] at hblank
  simp only [isBlank, Bool.or_eq_true, decide_eq_true_eq] at hblank
  obtain ((rfl | rfl) | rfl) | rfl := hblank
  all_goals exact absurd hdigit (by decide)

/-- A number that is known. -/
theorem Derives.number_value (h : Derives .value v ms) {k : ℕ} {x : CStr} (hx : Follows x)
    (hrest : Follows rest) (hv : print v ++ x = decimal k ++ rest) :
    print v = decimal k ∧ x = rest := by
  have hdigits : ∀ b ∈ decimal k, inNumber b = true :=
    fun b hb => inNumber_of_digit (isDigit_decimal hb)
  have hnumber : ∀ b ∈ print v, inNumber b = true := by
    obtain ⟨d, digits, hdecimal⟩ := List.exists_cons_of_ne_nil (decimal_ne_nil k)
    have hd : inNumber d = true := hdigits d (hdecimal ▸ List.mem_cons_self)
    -- no other value begins with a digit
    have hother : ∀ b s, print v = b :: s → inNumber b = true := by
      intro b s hs
      rw [hs, hdecimal] at hv
      exact (List.cons.inj hv).1 ▸ hd
    cases h with
    | number n =>
      intro b hb
      exact n.inNumber_of_mem b (by simpa [print, Lexeme.text] using hb)
    | literal ht =>
      simp only [List.mem_cons, List.not_mem_nil, or_false] at ht
      obtain rfl | rfl | rfl := ht
      · exact absurd (hother 116 _ rfl) (by decide)
      · exact absurd (hother 102 _ rfl) (by decide)
      · exact absurd (hother 110 _ rfl) (by decide)
    | string raw => exact absurd (hother 34 _ rfl) (by decide)
    | emptyArray ha => exact absurd (hother 91 _ rfl) (by decide)
    | array h => exact absurd (hother 91 _ rfl) (by decide)
    | emptyObject ha => exact absurd (hother 123 _ rfl) (by decide)
    | object h => exact absurd (hother 123 _ rfl) (by decide)
  -- both sides have the same bytes in front that can stand in a number
  have hpart := congrArg (List.takeWhile inNumber) hv
  rw [takeWhile_inNumber hnumber fun b hb => hx.not_inNumber hb,
    takeWhile_inNumber hdigits fun b hb => hrest.not_inNumber hb] at hpart
  rw [hpart] at hv
  exact ⟨hpart, List.append_cancel_left hv⟩

/-! ### Members -/

/-- Behind the brace of an object stand its members and the other brace. -/
theorem IsObject.open_ {text : CStr} (h : IsObject text top ms) (htext : text = 123 :: rest) :
    ∃ inner b, Derives (.members top) inner ms ∧ rest = print inner ++ 125 :: b := by
  obtain ⟨ls, ⟨a, inner, b, ha, hinner, -, rfl⟩, rfl⟩ := h
  have hbytes : a ++ 123 :: (print inner ++ 125 :: b) = 123 :: rest := by
    rw [← htext]
    simp [print, Lexeme.text]
  obtain rfl := eq_nil_of_blank ha rfl hbytes
  exact ⟨inner, b, hinner, (List.cons.inj hbytes).2.symm⟩

/-- The text is the end of the object, or a comma and these members. -/
def Remains (top : List Member) (back x : CStr) : Prop :=
  top = [] ∧ x = 125 :: back ∨
    ∃ ls ms, Derives (.members top) ls ms ∧ x = 44 :: (print ls ++ 125 :: back)

theorem Remains.follows {back b x : CStr} (h : Remains top back x) (hb : Blank b) :
    Follows (b ++ x) := by
  refine follows_append hb ?_
  rcases h with ⟨-, rfl⟩ | ⟨ls, ms, -, rfl⟩
  · exact follows_cons (.inr (.inr rfl)) _
  · exact follows_cons (.inl rfl) _

/-- Behind a comma there are other members. -/
theorem Remains.members {back b x : CStr} (h : Remains top back x) (hb : Blank b)
    (hx : b ++ x = 44 :: rest) :
    ∃ ls ms, Derives (.members top) ls ms ∧ print ls ++ 125 :: back = rest := by
  obtain rfl := eq_nil_of_blank hb rfl hx
  rcases h with ⟨-, rfl⟩ | ⟨ls, ms, hls, rfl⟩
  · exact absurd (List.cons.inj hx).1 (by decide)
  · exact ⟨ls, ms, hls, (List.cons.inj hx).2⟩

/-- **The next member.** Its name is known, and its value begins behind the colon. Behind the
value the object ends, or there are a comma and other members. -/
theorem Derives.first_member (h : Derives (.members top) ls ms) {name value back : CStr}
    (hname : IsPlain name) (hvalue : ∃ c rest, value = c :: rest ∧ isBlank c = false)
    (htext : print ls ++ 125 :: back = 34 :: (name ++ 34 :: 58 :: value)) :
    ∃ m top' ms' b x, top = m :: top' ∧ decode m.name = name ∧ Derives .value m.value ms' ∧
      Blank b ∧ print m.value ++ (b ++ x) = value ∧ Remains top' back x := by
  obtain ⟨c, rest, rfl, hc⟩ := hvalue
  -- the name and the colon are the same in both rules
  have hmember : ∀ (a tail : CStr) (m : Member), Blank a → Blank m.before → Blank m.gap →
      a ++ (print m.lexemes ++ tail) = 34 :: (name ++ 34 :: 58 :: c :: rest) →
      decode m.name = name ∧ print m.value ++ tail = c :: rest := by
    intro a tail m ha hbefore hgap hbytes
    have hlexemes : a ++ 34 :: (rawText m.name ++ 34 :: (m.before ++ 58 :: (m.gap ++
        (print m.value ++ tail)))) = 34 :: (name ++ 34 :: 58 :: c :: rest) := by
      rw [← hbytes]
      simp [Member.lexemes, print, Lexeme.text]
    obtain rfl := eq_nil_of_blank ha rfl hlexemes
    obtain ⟨hraw, hcolon⟩ := split_at_quote hname (List.cons.inj hlexemes).2
    have hbefore := eq_nil_of_blank hbefore rfl hcolon
    rw [hbefore] at hcolon
    have hvalue := (List.cons.inj hcolon).2
    have hgap := eq_nil_of_blank hgap hc hvalue
    rw [hgap] at hvalue
    exact ⟨decode_of_rawText hname hraw, hvalue⟩
  cases h with
  | @member a b m _ ha hb hbefore hgap hv =>
    obtain ⟨hdecode, hvalue⟩ := hmember _ (b ++ 125 :: back) _ ha hbefore hgap
      (by rw [← htext]; simp [print, Lexeme.text])
    exact ⟨m, [], _, b, _, rfl, hdecode, hv, hb, hvalue, .inl ⟨rfl, rfl⟩⟩
  | @members a b m ls' _ top' _ ha hb hbefore hgap hv hls =>
    obtain ⟨hdecode, hvalue⟩ := hmember _ (b ++ 44 :: (print ls' ++ 125 :: back)) _ ha
      hbefore hgap (by rw [← htext]; simp [print, Lexeme.text])
    exact ⟨m, top', _, b, _, rfl, hdecode, hv, hb, hvalue, .inr ⟨ls', _, hls, rfl⟩⟩

end JsonText
