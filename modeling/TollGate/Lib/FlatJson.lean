import TollGate.Lib.CJson
import TollGate.Lib.CText

/-!
# Flat JSON objects as text

The text of an object whose members are strings, numbers and nulls, as a JSON library
prints it without blanks or as C code writes it with `%lu`. How a library prints a number
that is not given as digits is a parameter; `FlatJson.Exact` says what such a text must
come to when it is parsed: names and strings as they were, and of the numbers at least the
integers below `2^53`, exactly.

`FlatJson.readFlat` is a reader of these texts, `FlatJson.exact_readFlat` its round trip.
-/

namespace FlatJson

open CStr CJson

/-- The value of a member. -/
inductive Value where
  | text (s : CStr)
  /-- A number that the library prints. -/
  | number (q : ℚ)
  /-- A number that is written in decimal digits. -/
  | numeral (n : ℕ)
  | null

/-- The text stands for itself between quotes. -/
def Plain (s : CStr) : Prop := ∀ b ∈ s, 32 ≤ b ∧ b < 127 ∧ b ≠ 34 ∧ b ≠ 92

instance (s : CStr) : Decidable (Plain s) := List.decidableBAll _ s

/-- A name or a string, between quotes. -/
def inQuotes (s : CStr) : CStr := 34 :: s ++ [34]

section Print

variable (number : ℚ → CStr)

/-- The text of a value. -/
def Value.print : Value → CStr
  | .text s => inQuotes s
  | .number q => number q
  | .numeral n => decimal n
  | .null => cstr "null"

/-- The text of a member. -/
def printMember (m : CStr × Value) : CStr := inQuotes m.1 ++ 58 :: m.2.print number

/-- The text of the members after the first, to the end of the object. -/
def printRest : List (CStr × Value) → CStr
  | [] => [125]
  | m :: members => 44 :: (printMember number m ++ printRest members)

/-- The text of an object. -/
def printFlat : List (CStr × Value) → CStr
  | [] => [123, 125]
  | m :: members => 123 :: (printMember number m ++ printRest number members)

end Print

/-- The parsed node is what was printed, as far as that is asked. -/
def ReadsAs : Value → Json → Prop
  | .text s, j => j = .string s
  | .number q, j => ∀ k : ℕ, q = k → k < 2 ^ 53 → ∃ n, j = .number n ∧ n.valuedouble = k
  | .numeral k, j => ∃ n, j = .number n ∧ n.valuedouble = k
  | .null, j => j = .null

/-- The members are those that were printed. -/
def ReadAll (members : List (CStr × Value)) (nodes : List (CStr × Json)) : Prop :=
  List.Forall₂ (fun m node => node.1 = m.1 ∧ ReadsAs m.2 node.2) members nodes

theorem ReadAll.exists_cons {name : CStr} {v : Value} {members : List (CStr × Value)}
    {nodes : List (CStr × Json)} (h : ReadAll ((name, v) :: members) nodes) :
    ∃ j rest, ReadsAs v j ∧ ReadAll members rest ∧ nodes = (name, j) :: rest := by
  obtain ⟨⟨_, j⟩, rest, ⟨rfl, hj⟩, hrest, rfl⟩ := List.forall₂_cons_left_iff.mp h
  exact ⟨j, rest, hj, hrest, rfl⟩

/-- A string stands for itself, and a numeral for a number that a double holds. -/
def Value.Plain : Value → Prop
  | .text s => FlatJson.Plain s
  | .numeral n => n < 2 ^ 53
  | _ => True

/-- The names and the values of the members stand for themselves. -/
def AllPlain (members : List (CStr × Value)) : Prop := ∀ m ∈ members, Plain m.1 ∧ m.2.Plain

/-- A JSON library that prints a number in at most 25 characters, and that parses the text of
a flat object into its members, with the integers below `2^53` exact. -/
structure Exact (number : ℚ → CStr) (parse : CStr → Option Json) : Prop where
  length_number : ∀ q, (number q).length ≤ 25
  parse_flat : ∀ members, AllPlain members →
    ∃ nodes, parse (printFlat number members) = some (.object nodes) ∧ ReadAll members nodes

theorem AllPlain.nil : AllPlain [] := fun _ hm => absurd hm List.not_mem_nil

theorem AllPlain.cons {name : CStr} {v : Value} {members : List (CStr × Value)}
    (hname : Plain name) (hvalue : v.Plain) (h : AllPlain members) :
    AllPlain ((name, v) :: members) :=
  List.forall_mem_cons.mpr ⟨⟨hname, hvalue⟩, h⟩

section Length

variable (number : ℚ → CStr)

theorem length_printMember (m : CStr × Value) :
    (printMember number m).length = m.1.length + 3 + (m.2.print number).length := by
  unfold printMember inQuotes
  simp only [List.length_append, List.length_cons, List.length_nil]
  omega

theorem length_printRest_le {k : ℕ} {members : List (CStr × Value)}
    (h : ∀ m ∈ members, (printMember number m).length ≤ k) :
    (printRest number members).length ≤ members.length * (k + 1) + 1 := by
  induction members with
  | nil => exact Nat.le_add_left 1 _
  | cons m members ih =>
    have hm := h m List.mem_cons_self
    have hrest := ih fun m hm => h m (List.mem_cons_of_mem _ hm)
    rw [printRest, List.length_cons, List.length_append, List.length_cons, Nat.succ_mul]
    omega

/-- The text is no longer than its longest member allows. -/
theorem length_printFlat_le {k : ℕ} {members : List (CStr × Value)}
    (h : ∀ m ∈ members, (printMember number m).length ≤ k) :
    (printFlat number members).length ≤ members.length * (k + 1) + 2 := by
  cases members with
  | nil => exact Nat.le_add_left 2 _
  | cons m members =>
    have hm := h m List.mem_cons_self
    have hrest := length_printRest_le number fun m hm => h m (List.mem_cons_of_mem _ hm)
    rw [printFlat, List.length_cons, List.length_append, List.length_cons, Nat.succ_mul]
    omega

end Length

/-! ### A reader -/

/-- The node of an integer. -/
def natNode (n : ℕ) : Json :=
  .number ⟨if n ≥ 2147483647 then 2147483647 else Int32.ofNat n, UInt64.ofNat n, n⟩

/-- A text in quotes, and what follows it. -/
def readText : CStr → Option (CStr × CStr)
  | 34 :: s =>
    match s.dropWhile (· ≠ 34) with
    | _ :: rest => some (s.takeWhile (· ≠ 34), rest)
    | [] => none
  | _ => none

/-- A value, and what follows it. -/
def readValue : CStr → Option (Json × CStr)
  | 110 :: 117 :: 108 :: 108 :: rest => some (.null, rest)
  | 34 :: s => (readText (34 :: s)).map fun r => (.string r.1, r.2)
  | s => some (natNode (numeral 10 (s.takeWhile (isDigit 10))), s.dropWhile (isDigit 10))

/-- At most so many members, up to the end of the object. -/
def readMembers : ℕ → CStr → Option (List (CStr × Json))
  | 0, _ => none
  | fuel + 1, s =>
    match readText s with
    | some (name, 58 :: s) =>
      match readValue s with
      | some (value, [125]) => some [(name, value)]
      | some (value, 44 :: s) => (readMembers fuel s).map ((name, value) :: ·)
      | _ => none
    | _ => none

/-- A flat object. -/
def readFlat : CStr → Option Json
  | [123, 125] => some (.object [])
  | 123 :: s => (readMembers s.length s).map .object
  | _ => none

/-- Numbers as their integral part below `2^53`. -/
def truncated (q : ℚ) : CStr := decimal (q.num.toNat % 2 ^ 53)

theorem readText_inQuotes {s : CStr} (h : Plain s) (rest : CStr) :
    readText (inQuotes s ++ rest) = some (s, rest) := by
  have hne : ∀ b ∈ s, (decide (b ≠ 34)) = true := fun b hb => decide_eq_true (h b hb).2.2.1
  have hdrop : (s ++ 34 :: rest).dropWhile (· ≠ 34) = 34 :: rest := by
    rw [List.dropWhile_append_of_pos hne]
    rfl
  have htake : (s ++ 34 :: rest).takeWhile (· ≠ 34) = s := by
    rw [List.takeWhile_append_of_pos hne, List.takeWhile_cons_of_neg (by decide), List.append_nil]
  have htext : inQuotes s ++ rest = 34 :: (s ++ 34 :: rest) := by simp [inQuotes]
  rw [htext, readText, hdrop, htake]

theorem readValue_decimal (n : ℕ) {rest : CStr}
    (hrest : ∀ b, rest.head? = some b → isDigit 10 b = false) :
    readValue (decimal n ++ rest) = some (natNode n, rest) := by
  have hdigit : ∀ b ∈ decimal n, isDigit 10 b = true := fun b => isDigit_decimal
  have htake : (decimal n ++ rest).takeWhile (isDigit 10) = decimal n := by
    rw [List.takeWhile_append_of_pos hdigit]
    cases rest with
    | nil => rw [List.takeWhile_nil, List.append_nil]
    | cons b rest =>
      rw [List.takeWhile_cons_of_neg (by simp [hrest b rfl]), List.append_nil]
  have hdrop : (decimal n ++ rest).dropWhile (isDigit 10) = rest := by
    rw [List.dropWhile_append_of_pos hdigit]
    cases rest with
    | nil => rfl
    | cons b rest => exact List.dropWhile_cons_of_neg (by simp [hrest b rfl])
  -- the text begins with a digit, so it is neither `null` nor a string
  obtain ⟨d, digits, hd⟩ : ∃ d digits, decimal n = d :: digits :=
    List.exists_cons_of_ne_nil (decimal_ne_nil n)
  have hfirst : isDigit 10 d = true := hdigit d (hd ▸ List.mem_cons_self)
  have hlast : readValue (decimal n ++ rest)
      = some (natNode (numeral 10 ((decimal n ++ rest).takeWhile (isDigit 10))),
          (decimal n ++ rest).dropWhile (isDigit 10)) := by
    rw [hd, List.cons_append]
    unfold readValue
    split
    next heq =>
      obtain rfl := (List.cons_eq_cons.mp heq).1
      exact absurd hfirst (by decide)
    next heq =>
      obtain rfl := (List.cons_eq_cons.mp heq).1
      exact absurd hfirst (by decide)
    next => rfl
  rw [hlast, htake, hdrop, numeral_decimal]

/-- What the reader makes of a value. -/
def Value.node : Value → Json
  | .text s => .string s
  | .number q => natNode (q.num.toNat % 2 ^ 53)
  | .numeral n => natNode n
  | .null => .null

theorem readValue_print {v : Value} (hv : v.Plain) {rest : CStr}
    (hrest : ∀ b, rest.head? = some b → isDigit 10 b = false) :
    readValue (v.print truncated ++ rest) = some (v.node, rest) := by
  cases v with
  | text s =>
    change readValue (34 :: (s ++ [34] ++ rest)) = _
    rw [readValue, show 34 :: (s ++ [34] ++ rest) = inQuotes s ++ rest from rfl,
      readText_inQuotes hv]
    rfl
  | number q => exact readValue_decimal _ hrest
  | numeral n => exact readValue_decimal n hrest
  | null => rfl

theorem readsAs_node (v : Value) : ReadsAs v v.node := by
  cases v with
  | text s => exact rfl
  | number q =>
    rintro k rfl hk
    refine ⟨_, rfl, ?_⟩
    change (((k : ℚ).num.toNat % 2 ^ 53 : ℕ) : ℚ) = k
    rw [Rat.num_natCast, Int.toNat_natCast, Nat.mod_eq_of_lt hk]
  | numeral k => exact ⟨_, rfl, rfl⟩
  | null => exact rfl

theorem head_printRest (number : ℚ → CStr) (members : List (CStr × Value)) (b : UInt8)
    (h : (printRest number members).head? = some b) : isDigit 10 b = false := by
  cases members with
  | nil =>
    obtain rfl : 125 = b := Option.some.inj h
    decide
  | cons m members =>
    obtain rfl : 44 = b := Option.some.inj h
    decide

theorem length_printRest (number : ℚ → CStr) (members : List (CStr × Value)) :
    members.length < (printRest number members).length := by
  induction members with
  | nil => exact Nat.zero_lt_one
  | cons m members ih =>
    rw [printRest, List.length_cons, List.length_cons, List.length_append]
    omega

/-- One member after the other is read. -/
theorem readMembers_print {m : CStr × Value} {members : List (CStr × Value)}
    (h : AllPlain (m :: members)) {fuel : ℕ} (hfuel : members.length < fuel) :
    readMembers fuel (printMember truncated m ++ printRest truncated members)
      = some ((m :: members).map fun m => (m.1, m.2.node)) := by
  induction members generalizing m fuel with
  | nil =>
    obtain ⟨fuel, rfl⟩ := Nat.exists_eq_succ_of_ne_zero (Nat.ne_of_gt hfuel)
    obtain ⟨hname, hvalue⟩ := h m List.mem_cons_self
    have htext : printMember truncated m ++ printRest truncated []
        = inQuotes m.1 ++ 58 :: (m.2.print truncated ++ printRest truncated []) := by
      simp [printMember]
    rw [htext, readMembers, readText_inQuotes hname]
    simp only [readValue_print hvalue (head_printRest truncated [])]
    rfl
  | cons m' members ih =>
    obtain ⟨fuel, rfl⟩ := Nat.exists_eq_succ_of_ne_zero (Nat.ne_of_gt (Nat.zero_lt_of_lt hfuel))
    obtain ⟨hname, hvalue⟩ := h m List.mem_cons_self
    have htext : printMember truncated m ++ printRest truncated (m' :: members)
        = inQuotes m.1 ++ 58 :: (m.2.print truncated ++ printRest truncated (m' :: members)) := by
      simp [printMember]
    have hrest := ih (fun m hm => h m (List.mem_cons_of_mem _ hm)) (Nat.succ_lt_succ_iff.mp hfuel)
    rw [htext, readMembers, readText_inQuotes hname]
    simp only [readValue_print hvalue (head_printRest truncated (m' :: members))]
    simp only [printRest, hrest, Option.map_some, List.map_cons]

/-- **Round trip.** The reader is exact on what is printed with digits. -/
theorem exact_readFlat : Exact truncated readFlat where
  length_number q :=
    (length_decimal_le (by decide : 0 < 16)
      ((Nat.mod_lt _ (by decide)).trans (by decide))).trans (by decide)
  parse_flat members h := by
    refine ⟨members.map fun m => (m.1, m.2.node), ?_, ?_⟩
    · cases members with
      | nil => rfl
      | cons m members =>
        have hfuel : members.length
            < (printMember truncated m ++ printRest truncated members).length := by
          rw [List.length_append]
          exact (length_printRest truncated members).trans_le (Nat.le_add_left _ _)
        have hread : readFlat (printFlat truncated (m :: members))
            = (readMembers (printMember truncated m ++ printRest truncated members).length
                (printMember truncated m ++ printRest truncated members)).map Json.object := rfl
        rw [hread, readMembers_print h hfuel]
        rfl
    · rw [ReadAll, List.forall₂_map_right_iff]
      exact List.forall₂_same.mpr fun m _ => ⟨rfl, readsAs_node m.2⟩

end FlatJson
