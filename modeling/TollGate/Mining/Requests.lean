import TollGate.Lib.JsonText
import TollGate.Mining.Gateway

/-!
# Requests as JSON

A line of a miner is a JSON-RPC request, and JSON leaves open how it is written: the order of
the members and others among them, blanks between the tokens, escapes in the strings.
`handle_line` looks for the names of the three members in quotes, for the next `":"` behind
`"method"`, the next colon behind `"id"` and the next bracket behind `"params"`, and cuts the
parameters at the commas.

`handleLine_acts` says for which ways of writing a request this comes to its method, id and
parameters: each name is the first such string in the text, nothing stands around the colon
of the method, and the strings are written plainly and without commas.
-/

namespace TollGate

namespace Mining

open CStr JsonText TollGate.Core

/-! ### Requests -/

/-- A request. -/
structure Request where
  method : CStr
  id : ℤ
  params : List CStr

/-- A string in an array, with the blanks around it. -/
structure Param where
  lead : CStr
  raw : List StringChar
  trail : CStr

/-- The lexemes of the items. -/
def itemLexemes : List Param → List Lexeme
  | [] => []
  | [p] => [.other p.lead, .str p.raw, .other p.trail]
  | p :: p' :: ps =>
    .other p.lead :: .str p.raw :: .other p.trail :: .other [44] :: itemLexemes (p' :: ps)

/-- The lexemes of an array; the blanks stand in it if there are no items. -/
def arrayLexemes (blanks : CStr) : List Param → List Lexeme
  | [] => [.other [91], .other blanks, .other [93]]
  | p :: ps => .other [91] :: (itemLexemes (p :: ps) ++ [.other [93]])

/-- The value is an array of these strings. -/
def StringArray (value : List Lexeme) (blanks : CStr) (ps : List Param) : Prop :=
  Blank blanks ∧ (∀ p ∈ ps, Blank p.lead ∧ Blank p.trail) ∧ value = arrayLexemes blanks ps

/-- A request as it is written: all lexemes, and the three members. -/
structure Written where
  ls : List Lexeme
  method : Member
  methodRaw : List StringChar
  id : Member
  idNumeral : Numeral
  params : Member
  blanks : CStr
  items : List Param

/-- The lexemes are an object with the three members, once each. -/
structure Written.Says (w : Written) (req : Request) : Prop where
  object : ∃ top ms, IsDocument w.ls top ms ∧ named top "method" = [w.method] ∧
    named top "id" = [w.id] ∧ named top "params" = [w.params]
  method : w.method.value = [.str w.methodRaw] ∧ decode w.methodRaw = req.method
  id : w.id.value = [.other w.idNumeral.text] ∧ w.idNumeral.value = req.id
  params : StringArray w.params.value w.blanks w.items ∧
    w.items.map (fun p => decode p.raw) = req.params

/-- The text of the request. -/
def Written.text (w : Written) : CStr := print w.ls

/-! ### What the proxy should do -/

/-- The parameters of a submission, with the version of the job if there is none. -/
def submitOf (jobVersion : UInt32) (params : List CStr) : Submit where
  jobId := (params[1]?.map (strtoul 10)).getD 0
  ntime := (params[2]?.map (strtoul 16)).getD 0
  nonce := (params[3]?.map (strtoul 16)).getD 0
  version := (params[4]?.map (strtoul 16)).getD jobVersion

/-- What `handle_line` reads of the line is the method, the id and, as far as the method has
any use for them, the parameters of the request. -/
structure ReadsAs (line : CStr) (req : Request) : Prop where
  method : methodOf line = some req.method
  id : ((idOf line).toNat : ℤ) = req.id
  worker : req.method = cstr "mining.authorize" →
    ∀ worker, workerOf worker line = req.params.head?.getD worker
  submit : req.method = cstr "mining.submit" →
    ∀ jobVersion, submitParams jobVersion line = submitOf jobVersion req.params

/-- `handle_line` for the request itself. -/
def actOn (p : Platform) (env : Env) (g : Gateway) (i : Fin maxMiners) (miner : Miner)
    (req : Request) : Gateway × List CStr :=
  let id := UInt32.ofNat req.id.toNat
  if req.method = cstr "mining.subscribe" then
    (g, subscribeLines g.job miner.ip id ++ [difficultyLine p g.difficulty])
  else if req.method = cstr "mining.authorize" then
    let miner :=
      { miner with worker := req.params.head?.getD miner.worker, authorized := true }
    ({ g with miners := Function.update g.miners i (some miner) }, [sendResponse id "true" false])
  else if req.method = cstr "mining.submit" then
    handleSubmit p env g miner id (submitOf g.job.version req.params)
  else if req.method = cstr "mining.extranonce.subscribe" then (g, [sendResponse id "true" false])
  else if req.method = cstr "mining.suggest_difficulty" then (g, [sendResponse id "true" false])
  else (g, [sendResponse id "unknown method" true])

/-! ### How a request has to be written -/

/-- The member stands in the text in front of `back`, and its name in no string before it. -/
def StandsFirst (name : String) (ls : List Lexeme) (m : Member) (back : List Lexeme) : Prop :=
  ∃ front, ls = front ++ (m.lexemes ++ back) ∧ Follows (print back) ∧
    rawText m.name = cstr name ∧ ∀ raw, Lexeme.str raw ∈ front → spelled (cstr name) raw = false

/-- The base in which a parameter of a submission is read. -/
def paramBase (i : ℕ) : ℕ := if i = 1 then 10 else 16

/-- The worker name is the first item: after spaces only, without escapes, not empty, not
beginning with a space and not too long. -/
def PlainWorker (ps : List Param) : Prop :=
  ∃ p rest, ps = p :: rest ∧ (∀ b ∈ p.lead, b = 32) ∧ (92 : UInt8) ∉ rawText p.raw ∧
    (∃ b name, rawText p.raw = b :: name ∧ b ≠ 32) ∧ (rawText p.raw).length ≤ 63

/-- The first five items have no commas, and those that are read stand after spaces only and
read in their text as in what they mean; if there are fewer, no comma comes behind them. -/
structure PlainSubmit (ps : List Param) (back : CStr) : Prop where
  commas : ∀ p ∈ ps.take 5, (44 : UInt8) ∉ rawText p.raw
  reads : ∀ i p, 1 ≤ i → i < 5 → ps[i]? = some p → (∀ b ∈ p.lead, b = 32) ∧
    strtoul (paramBase i) (rawText p.raw) = strtoul (paramBase i) (decode p.raw)
  last : ps.length < 5 → (44 : UInt8) ∉ back

/-- The searches of `handle_line` come to the members of the request, and what they read there
is written as it is meant. -/
structure Written.Plain (w : Written) (req : Request) : Prop where
  method : ∃ back, StandsFirst "method" w.ls w.method back ∧ w.method.before = [] ∧
    w.method.gap = [] ∧ (92 : UInt8) ∉ rawText w.methodRaw ∧ (rawText w.methodRaw).length ≤ 63
  id : ∃ back, StandsFirst "id" w.ls w.id back ∧ (w.idNumeral.whole : ℤ) = req.id ∧
    w.idNumeral.whole < 2 ^ 32 ∧ (w.idNumeral.minus = true → w.idNumeral.whole = 0)
  worker : req.method = cstr "mining.authorize" →
    ∃ back, StandsFirst "params" w.ls w.params back ∧ PlainWorker w.items
  submit : req.method = cstr "mining.submit" →
    ∃ back, StandsFirst "params" w.ls w.params back ∧ PlainSubmit w.items (print back)

/-! ### Numerals in parameters -/

/-- The bytes that `handle_line` cuts off a parameter end every numeral. -/
theorem ends_of_cut {base : ℕ} (hbase : base ≤ 16) {c : UInt8}
    (hc : c = 34 ∨ c = 32 ∨ c = 93) : Ends base c := by
  have hdigit : digitValue c = 36 := by
    obtain rfl | rfl | rfl := hc <;> rfl
  refine ⟨?_, ?_⟩
  · rw [isDigit, hdigit]
    exact decide_eq_false (by omega)
  · obtain rfl | rfl | rfl := hc <;> decide

theorem readNumeral_trimParam {base : ℕ} (hpos : 0 < base) (hbase : base ≤ 16) (tok : CStr) :
    readNumeral base (trimParam tok) =
      readNumeral base (tok.dropWhile fun b => b = 32 || b = 34) := by
  unfold trimParam
  split
  · next h => rw [h]
  · next b bs h =>
    rw [h]
    refine readNumeral_rdropWhile hpos (fun c hc => ends_of_cut hbase ?_) [b] bs
    simpa only [Bool.or_eq_true, decide_eq_true_eq, or_assoc] using hc

/-- Spaces in front of a numeral do not matter. -/
theorem readNumeral_dropWhile {base : ℕ} (s : CStr) :
    readNumeral base (s.dropWhile (· = 32)) = readNumeral base s := by
  induction s with
  | nil => rfl
  | cons b s ih =>
    by_cases hb : b = 32
    · rw [List.dropWhile_cons_of_pos (by simp [hb]), ih, hb, readNumeral_cons_of_isSpace rfl]
    · rw [List.dropWhile_cons_of_neg (by simp [hb])]

/-- What may stand behind the closing quote of a parameter, up to the next comma. -/
def ClosesParam (junk : CStr) : Prop :=
  ∃ trail back, Blank trail ∧ junk = trail ++ back ∧ (back = [] ∨ ∃ rest, back = 93 :: rest)

/-- There is nothing to read behind the closing quote. -/
theorem readNumeral_closesParam {base : ℕ} (hpos : 0 < base) (hbase : base ≤ 16) {junk : CStr}
    (h : ClosesParam junk) :
    readNumeral base (junk.dropWhile fun b => b = 32 || b = 34) = readNumeral base [] := by
  have hbracket : Ends base 93 := ends_of_cut hbase (.inr (.inr rfl))
  obtain ⟨trail, back, htrail, rfl, hback⟩ := h
  -- up to the bracket there are blanks, of which only the spaces are skipped
  have hall : readNumeral base (trail ++ back) = readNumeral base [] := by
    obtain rfl | ⟨rest, rfl⟩ := hback
    · rw [List.append_nil, readNumeral_blank htrail]
    · rw [readNumeral_append hpos hbracket rfl, readNumeral_blank htrail]
  induction trail with
  | nil =>
    obtain rfl | ⟨rest, rfl⟩ := hback
    · rfl
    · exact hall
  | cons b trail ih =>
    obtain ⟨hb, htrail'⟩ := List.forall_mem_cons.mp htrail
    rw [List.cons_append, readNumeral_cons_of_isSpace (isSpace_of_isBlank hb)] at hall
    by_cases hspace : b = 32
    · rw [List.cons_append, List.dropWhile_cons_of_pos (by simp [hspace])]
      exact ih htrail' hall
    · have hquote : b ≠ 34 := by
        rintro rfl
        exact absurd hb (by decide)
      rw [List.cons_append, List.dropWhile_cons_of_neg (by simp [hspace, hquote]),
        readNumeral_cons_of_isSpace (isSpace_of_isBlank hb), hall]

/-- A parameter after spaces is read as it stands between its quotes. -/
theorem readNumeral_param {base : ℕ} (hpos : 0 < base) (hbase : base ≤ 16) {lead junk : CStr}
    (raw : List StringChar) (hlead : ∀ b ∈ lead, b = 32) (hjunk : ClosesParam junk) :
    readNumeral base (trimParam (lead ++ 34 :: (rawText raw ++ 34 :: junk))) =
      readNumeral base (rawText raw) := by
  have hskip : ∀ b ∈ lead, (decide (b = 32) || decide (b = 34)) = true :=
    fun b hb => by simp [hlead b hb]
  rw [readNumeral_trimParam hpos hbase, List.dropWhile_append_of_pos hskip,
    List.dropWhile_cons_of_pos (by decide)]
  have hquote : Ends base 34 := ends_of_cut hbase (.inl rfl)
  induction raw with
  | nil =>
    change readNumeral base ((34 :: junk).dropWhile _) = _
    rw [List.dropWhile_cons_of_pos (by decide)]
    exact readNumeral_closesParam hpos hbase hjunk
  | cons c raw ih =>
    have hstop : ∀ (b : UInt8) (s : CStr), b ≠ 32 → b ≠ 34 →
        (b :: s).dropWhile (fun b => decide (b = 32) || decide (b = 34)) = b :: s :=
      fun b s hspace hquote => List.dropWhile_cons_of_neg (by simp [hspace, hquote])
    rw [rawText_cons]
    cases c with
    | plain b hb =>
      by_cases hspace : b = 32
      · subst hspace
        exact ih.trans (readNumeral_cons_of_isSpace rfl _).symm
      · refine Eq.trans ?_ (readNumeral_append hpos hquote rfl _ junk)
        exact congrArg _ (hstop b _ hspace hb.2.1)
    | escape b hb =>
      refine Eq.trans ?_ (readNumeral_append hpos hquote rfl _ junk)
      exact congrArg _ (hstop 92 _ (by decide) (by decide))
    | unicode digits hb =>
      refine Eq.trans ?_ (readNumeral_append hpos hquote rfl _ junk)
      exact congrArg _ (hstop 92 _ (by decide) (by decide))

/-! ### The pieces between the commas -/

/-- The text of an item. -/
def Param.text (p : Param) : CStr := p.lead ++ 34 :: (rawText p.raw ++ 34 :: p.trail)

theorem print_itemLexemes_singleton (p : Param) : print (itemLexemes [p]) = p.text := by
  simp [itemLexemes, print, Lexeme.text, Param.text]

theorem print_itemLexemes_cons (p p' : Param) (ps : List Param) :
    print (itemLexemes (p :: p' :: ps)) = p.text ++ 44 :: print (itemLexemes (p' :: ps)) := by
  simp [itemLexemes, print, Lexeme.text, Param.text]

theorem not_mem_text {p : Param} (hblank : Blank p.lead ∧ Blank p.trail)
    (hraw : (44 : UInt8) ∉ rawText p.raw) : (44 : UInt8) ∉ p.text := by
  have hlead : (44 : UInt8) ∉ p.lead := fun h => absurd (hblank.1 44 h) (by decide)
  have htrail : (44 : UInt8) ∉ p.trail := fun h => absurd (hblank.2 44 h) (by decide)
  unfold Param.text
  simp [hlead, htrail, hraw]

/-- The first piece goes up to the first comma. -/
theorem strtok_head {c : UInt8} {front rest : CStr} (hfront : c ∉ front) (hne : front ≠ []) :
    (strtok c (front ++ rest))[0]? = some (front ++ rest.takeWhile (· ≠ c)) := by
  by_cases hc : c ∈ rest
  · obtain ⟨piece, back, rfl, hpiece⟩ := List.eq_append_cons_of_mem hc
    have hall : ∀ b ∈ piece, decide (b ≠ c) = true :=
      fun b hb => decide_eq_true fun heq => hpiece (heq ▸ hb)
    have hpieces : c ∉ front ++ piece := List.not_mem_append hfront hpiece
    rw [List.takeWhile_append_of_pos hall, List.takeWhile_cons_of_neg (by simp), List.append_nil,
      ← List.append_assoc, strtok_append_cons,
      strtok_of_not_mem hpieces (List.append_ne_nil_of_left_ne_nil hne piece)]
    rfl
  · have hall : rest.takeWhile (· ≠ c) = rest :=
      List.takeWhile_eq_self_iff.mpr fun b hb => decide_eq_true fun heq => hc (heq ▸ hb)
    rw [hall, strtok_of_not_mem (List.not_mem_append hfront hc)
      (List.append_ne_nil_of_left_ne_nil hne rest)]
    rfl

theorem Param.text_ne_nil (p : Param) : p.text ≠ [] :=
  List.append_ne_nil_of_right_ne_nil _ (List.cons_ne_nil _ _)

/-- The parameters that `handle_line` finds in the items, with what stands behind them. -/
theorem strtok_items {ps : List Param} {back : CStr} {i : ℕ} {p : Param}
    (hblank : ∀ p ∈ ps, Blank p.lead ∧ Blank p.trail)
    (hcommas : ∀ p ∈ ps.take (i + 1), (44 : UInt8) ∉ rawText p.raw) (hi : ps[i]? = some p) :
    ∃ junk, ClosesParam junk ∧ (strtok 44 (print (itemLexemes ps) ++ 93 :: back))[i]? =
      some (p.lead ++ 34 :: (rawText p.raw ++ 34 :: junk)) := by
  induction i generalizing ps with
  | zero =>
    cases ps with
    | nil => cases hi
    | cons q ps =>
      obtain rfl := Option.some.inj hi
      have hq := hblank q List.mem_cons_self
      have hcomma := not_mem_text hq (hcommas q List.mem_cons_self)
      cases ps with
      | nil =>
        refine ⟨q.trail ++ 93 :: back.takeWhile (· ≠ 44), ⟨_, _, hq.2, rfl, .inr ⟨_, rfl⟩⟩, ?_⟩
        rw [print_itemLexemes_singleton, strtok_head hcomma q.text_ne_nil,
          List.takeWhile_cons_of_pos (by decide)]
        simp [Param.text]
      | cons q' ps =>
        refine ⟨q.trail ++ [], ⟨_, _, hq.2, rfl, .inl rfl⟩, ?_⟩
        rw [print_itemLexemes_cons, List.append_assoc, strtok_head hcomma q.text_ne_nil,
          List.cons_append, List.takeWhile_cons_of_neg (by decide)]
        simp [Param.text]
  | succ i ih =>
    cases ps with
    | nil => cases hi
    | cons q ps =>
      cases ps with
      | nil => cases hi
      | cons q' ps =>
        -- the first piece is the first item, and the others are those behind its comma
        have hq := hblank q List.mem_cons_self
        have hcomma := not_mem_text hq (hcommas q List.mem_cons_self)
        rw [print_itemLexemes_cons, List.append_assoc, List.cons_append, strtok_append_cons,
          strtok_of_not_mem hcomma q.text_ne_nil]
        exact ih (fun p hp => hblank p (List.mem_cons_of_mem q hp))
          (fun p hp => hcommas p (List.mem_cons_of_mem q hp)) hi

/-- Without a comma behind the items there are no more pieces. -/
theorem length_strtok_items {p : Param} {ps : List Param} {back : CStr}
    (hblank : ∀ q ∈ p :: ps, Blank q.lead ∧ Blank q.trail)
    (hcommas : ∀ q ∈ p :: ps, (44 : UInt8) ∉ rawText q.raw) (hback : (44 : UInt8) ∉ back) :
    (strtok 44 (print (itemLexemes (p :: ps)) ++ 93 :: back)).length = (p :: ps).length := by
  induction ps generalizing p with
  | nil =>
    have hcomma := not_mem_text (hblank p List.mem_cons_self) (hcommas p List.mem_cons_self)
    have hall : (44 : UInt8) ∉ p.text ++ 93 :: back :=
      List.not_mem_append hcomma (List.not_mem_cons_of_ne_of_not_mem (by decide) hback)
    rw [print_itemLexemes_singleton, strtok_of_not_mem hall
      (List.append_ne_nil_of_left_ne_nil p.text_ne_nil _)]
    rfl
  | cons p' ps ih =>
    have hcomma := not_mem_text (hblank p List.mem_cons_self) (hcommas p List.mem_cons_self)
    rw [print_itemLexemes_cons, List.append_assoc, List.cons_append, strtok_append_cons,
      strtok_of_not_mem hcomma p.text_ne_nil, List.length_append, List.length_singleton,
      ih (fun q hq => hblank q (List.mem_cons_of_mem p hq))
        (fun q hq => hcommas q (List.mem_cons_of_mem p hq))]
    exact Nat.add_comm 1 _

/-! ### The three searches -/

section Searches

variable {ls back : List Lexeme} {m : Member} {name : String}

/-- The search for a name in quotes comes to the member. -/
theorem strstr_of_standsFirst (hspaced : Spaced ls) (hname : IsName (cstr name))
    (h : StandsFirst name ls m back) :
    strstr (34 :: (cstr name ++ [34])) (print ls) = some (34 :: (cstr name ++
      34 :: (m.before ++ 58 :: (m.gap ++ (print m.value ++ print back))))) := by
  obtain ⟨front, rfl, -, hraw, hfront⟩ := h
  have hspelled : spelled (cstr name) m.name = true := by
    unfold spelled
    rw [hraw, decide_eq_true rfl, Bool.true_or]
  have htext : print (.other m.before :: .other [58] :: .other m.gap :: (m.value ++ back)) =
      m.before ++ 58 :: (m.gap ++ (print m.value ++ print back)) := by
    simp [print, Lexeme.text]
  rw [strstr_quoted hname hspaced, behind_append hfront, Member.lexemes, List.cons_append, behind,
    hspelled]
  exact congrArg (fun rest => some (34 :: (cstr name ++ 34 :: rest))) htext

/-- The method is read if its string stands directly behind the colon. -/
theorem methodOf_eq (hspaced : Spaced ls) (h : StandsFirst "method" ls m back)
    (hbefore : m.before = []) (hgap : m.gap = []) {raw : List StringChar}
    (hvalue : m.value = [.str raw]) (hraw : (92 : UInt8) ∉ rawText raw)
    (hlength : (rawText raw).length ≤ 63) : methodOf (print ls) = some (decode raw) := by
  obtain ⟨hdecode, hquote⟩ := decode_of_no_escape hraw
  have hprint : print m.value = 34 :: (rawText raw ++ [34]) := by
    rw [hvalue]
    exact List.append_nil _
  have hfind : strstr (cstr "\"method\"") (print ls) = _ :=
    strstr_of_standsFirst hspaced (by decide) h
  rw [hbefore, hgap, hprint] at hfind
  -- the colon and its quotes are the next ones behind the name
  have hcolon : strstr (cstr "\":\"") (34 :: (cstr "method" ++ 34 :: ([] ++ 58 :: ([] ++
      (34 :: (rawText raw ++ [34]) ++ print back))))) =
        some (34 :: 58 :: 34 :: (rawText raw ++ 34 :: print back)) := by
    have hmethod : (34 : UInt8) ∉ cstr "method" := by decide
    have hbytes : cstr "\":\"" = [34, 58, 34] := rfl
    have hopen : ¬ [58, 34] <+: cstr "method" ++ 34 :: ([] ++ 58 :: ([] ++
        (34 :: (rawText raw ++ [34]) ++ print back))) :=
      fun h => absurd (List.cons_prefix_cons.mp h).1 (by decide)
    rw [hbytes, strstr_cons_self, if_neg hopen, strstr_append hmethod, strstr_cons_self, if_pos]
    · simp
    · exact ⟨rawText raw ++ [34] ++ print back, rfl⟩
  have hstop : (rawText raw ++ 34 :: print back).takeWhile (· ≠ 34) = rawText raw := by
    have hall : ∀ b ∈ rawText raw, decide (b ≠ 34) = true :=
      fun b hb => decide_eq_true fun heq => hquote (heq ▸ hb)
    rw [List.takeWhile_append_of_pos hall, List.takeWhile_cons_of_neg (by decide), List.append_nil]
  unfold methodOf
  rw [hfind]
  simp only [hcolon, List.drop_succ_cons, List.drop_zero, hstop,
    List.take_of_length_le hlength, hdecode]

/-- The id is read wherever its number stands behind the colon. -/
theorem idOf_eq (hspaced : Spaced ls) (h : StandsFirst "id" ls m back) (hblank : Blank m.before)
    (hgap : Blank m.gap) {n : Numeral} (hvalue : m.value = [.other n.text])
    (hwhole : n.whole < 2 ^ 32) (hminus : n.minus = true → n.whole = 0) :
    idOf (print ls) = UInt32.ofNat n.whole := by
  have hfind : strstr (cstr "\"id\"") (print ls) = _ :=
    strstr_of_standsFirst hspaced (by decide) h
  have hfollows : Follows (print back) := h.choose_spec.2.1
  have hprint : print m.value = n.text := by
    rw [hvalue]
    exact List.append_nil _
  have hcolon : ∀ rest, strstr (cstr ":") (34 :: (cstr "id" ++ 34 :: (m.before ++ 58 :: rest))) =
      some (58 :: rest) := by
    intro rest
    have hbytes : cstr ":" = [58] := rfl
    have hid : (58 : UInt8) ∉ cstr "id" := by decide
    have hbefore : (58 : UInt8) ∉ m.before := fun hmem => absurd (hblank 58 hmem) (by decide)
    have hfront : (58 : UInt8) ∉ 34 :: (cstr "id" ++ 34 :: m.before) := by
      simp [hid, hbefore]
    have htext : 34 :: (cstr "id" ++ 34 :: (m.before ++ 58 :: rest)) =
        34 :: (cstr "id" ++ 34 :: m.before) ++ 58 :: rest := by
      simp
    rw [hbytes, htext, strstr_append hfront, strstr_cons_self, if_pos List.nil_prefix]
  have hnumeral : readNumeral 10 ((m.gap ++ (print m.value ++ print back)).dropWhile (· = 32)) =
      (n.minus, n.whole) := by
    rw [readNumeral_dropWhile, hprint, ← List.append_assoc, readNumeral_between
      (fun b hb => isSpace_of_isBlank (hgap b hb)) n.text_head (fun b hb => hfollows.not_digit hb),
      n.readNumeral_text]
  unfold idOf
  rw [hfind]
  simp only [hcolon, List.drop_succ_cons, List.drop_zero, strtoul, hnumeral, hwhole, if_true]
  split
  · next hm =>
    rw [hminus hm]
    rfl
  · rfl

/-- The parameters stand behind the bracket. -/
theorem paramsText_eq (hspaced : Spaced ls) (h : StandsFirst "params" ls m back)
    (hblank : Blank m.before) (hgap : Blank m.gap) {inner : CStr}
    (hvalue : print m.value = 91 :: inner) :
    paramsText (print ls) = some (inner ++ print back) := by
  have hfind : strstr (cstr "\"params\"") (print ls) = _ :=
    strstr_of_standsFirst hspaced (by decide) h
  have hno : ∀ s, Blank s → (91 : UInt8) ∉ s := fun s hs hmem => absurd (hs 91 hmem) (by decide)
  have hfront : (91 : UInt8) ∉ 34 :: (cstr "params" ++ 34 :: (m.before ++ 58 :: m.gap)) := by
    have hname : (91 : UInt8) ∉ cstr "params" := by decide
    simp [hname, hno _ hblank, hno _ hgap]
  have htext : 34 :: (cstr "params" ++ 34 :: (m.before ++ 58 :: (m.gap ++
      (print m.value ++ print back)))) =
        34 :: (cstr "params" ++ 34 :: (m.before ++ 58 :: m.gap)) ++
          91 :: (inner ++ print back) := by
    simp [hvalue]
  unfold paramsText
  rw [hfind]
  simp only [htext, strchr_append_cons hfront]
  rfl

end Searches

/-! ### The parameters -/

section Parameters

variable {blanks : CStr} {p : Param} {ps : List Param}

/-- The text of an array behind its bracket. -/
def innerText (blanks : CStr) : List Param → CStr
  | [] => blanks ++ [93]
  | p :: ps => print (itemLexemes (p :: ps)) ++ [93]

theorem print_arrayLexemes (blanks : CStr) (ps : List Param) :
    print (arrayLexemes blanks ps) = 91 :: innerText blanks ps := by
  cases ps with
  | nil => simp [arrayLexemes, innerText, print, Lexeme.text]
  | cons p ps => simp [arrayLexemes, innerText, Lexeme.text, print]

/-- The first item stands in front. -/
theorem innerText_cons (blanks : CStr) (p : Param) (ps : List Param) :
    ∃ rest, innerText blanks (p :: ps) = p.lead ++ 34 :: (rawText p.raw ++ 34 :: rest) := by
  cases ps with
  | nil => exact ⟨p.trail ++ [93], by simp [innerText, print_itemLexemes_singleton, Param.text]⟩
  | cons p' ps =>
    exact ⟨p.trail ++ 44 :: print (itemLexemes (p' :: ps)) ++ [93],
      by simp [innerText, print_itemLexemes_cons, Param.text]⟩

/-- The worker is the first item. -/
theorem workerOf_eq {line back : CStr}
    (hparams : paramsText line = some (innerText blanks ps ++ back)) (hplain : PlainWorker ps)
    (worker : CStr) :
    workerOf worker line = ((ps.map fun p => decode p.raw).head?).getD worker := by
  obtain ⟨p, rest, rfl, hlead, hescape, ⟨b, name, hname, hspace⟩, hlength⟩ := hplain
  obtain ⟨hdecode, hquote⟩ := decode_of_no_escape hescape
  obtain ⟨behind, hinner⟩ := innerText_cons blanks p rest
  have hskip : ∀ b ∈ p.lead, (decide (b = 32) || decide (b = 34)) = true :=
    fun b hb => by simp [hlead b hb]
  have hb : b ≠ 34 := by
    rintro rfl
    exact hquote (hname ▸ List.mem_cons_self)
  -- spaces and the quote are skipped, and the name ends at the next quote
  have hstart : (p.lead ++ 34 :: (rawText p.raw ++ 34 :: behind) ++ back).dropWhile
      (fun b => decide (b = 32) || decide (b = 34)) =
        rawText p.raw ++ 34 :: (behind ++ back) := by
    rw [List.append_assoc, List.dropWhile_append_of_pos hskip, List.cons_append,
      List.dropWhile_cons_of_pos (by decide), hname, List.cons_append, List.cons_append,
      List.dropWhile_cons_of_neg (by simp [hspace, hb])]
    simp
  have hall : ∀ b ∈ rawText p.raw, decide (b ≠ 34) = true :=
    fun b hb => decide_eq_true fun heq => hquote (heq ▸ hb)
  unfold workerOf
  rw [hparams, hinner]
  simp only [hstart]
  rw [List.takeWhile_append_of_pos hall, List.takeWhile_cons_of_neg (by decide), List.append_nil,
    List.take_of_length_le hlength, List.map_cons, List.head?_cons, Option.getD_some, hdecode]

/-- A parameter that is there is read as it is meant. -/
theorem param_eq_of_some {back : CStr} (hblank : ∀ p ∈ ps, Blank p.lead ∧ Blank p.trail)
    (hplain : PlainSubmit ps back) {i : ℕ} (hpos : 1 ≤ i) (hi : i < 5) (hp : ps[i]? = some p) :
    ((strtok 44 (innerText blanks ps ++ back)).map trimParam)[i]?.map (strtoul (paramBase i)) =
      some (strtoul (paramBase i) (decode p.raw)) := by
  have hinner : innerText blanks ps ++ back = print (itemLexemes ps) ++ 93 :: back := by
    cases ps with
    | nil => cases hp
    | cons q ps => rw [innerText, List.append_assoc, List.singleton_append]
  have hcommas : ∀ q ∈ ps.take (i + 1), (44 : UInt8) ∉ rawText q.raw := fun q hq =>
    hplain.commas q (List.take_subset_take_left ps (Nat.succ_le_of_lt hi) hq)
  obtain ⟨junk, hjunk, hpiece⟩ : ∃ junk, ClosesParam junk ∧
      (strtok 44 (print (itemLexemes ps) ++ 93 :: back))[i]? =
        some (p.lead ++ 34 :: (rawText p.raw ++ 34 :: junk)) :=
    strtok_items hblank hcommas hp
  obtain ⟨hlead, hreads⟩ := hplain.reads i p hpos hi hp
  have hbase : 0 < paramBase i ∧ paramBase i ≤ 16 := by
    unfold paramBase
    split <;> decide
  rw [hinner, List.getElem?_map, hpiece, Option.map_some, Option.map_some, ← hreads, strtoul,
    strtoul, readNumeral_param hbase.1 hbase.2 p.raw hlead hjunk]

/-- A parameter that is not there is not read. -/
theorem param_eq_of_none {back : CStr} (hblank : ∀ p ∈ ps, Blank p.lead ∧ Blank p.trail)
    (hblanks : Blank blanks) (hplain : PlainSubmit ps back) {i : ℕ} (hpos : 1 ≤ i) (hi : i < 5)
    (hp : ps[i]? = none) :
    ((strtok 44 (innerText blanks ps ++ back)).map trimParam)[i]? = none := by
  have hlength : ps.length ≤ i := List.getElem?_eq_none_iff.mp hp
  have hback := hplain.last (hlength.trans_lt hi)
  rw [List.getElem?_eq_none_iff, List.length_map]
  cases ps with
  | nil =>
    -- one piece, up to the end of the line
    have hcomma : (44 : UInt8) ∉ blanks := fun h => absurd (hblanks 44 h) (by decide)
    have hall : (44 : UInt8) ∉ blanks ++ [93] ++ back := by
      simp [hcomma, hback]
    rw [innerText, strtok_of_not_mem hall (by simp)]
    exact hpos
  | cons q ps =>
    have hcommas : ∀ p ∈ q :: ps, (44 : UInt8) ∉ rawText p.raw := by
      intro p hmem
      refine hplain.commas p ?_
      rwa [List.take_of_length_le (hlength.trans hi.le)]
    rw [innerText, List.append_assoc, List.singleton_append,
      length_strtok_items hblank hcommas hback]
    exact hlength

/-- A parameter is read as it is meant. -/
theorem param_eq {back : CStr} (hblank : ∀ p ∈ ps, Blank p.lead ∧ Blank p.trail)
    (hblanks : Blank blanks) (hplain : PlainSubmit ps back) {i : ℕ} (hpos : 1 ≤ i) (hi : i < 5) :
    ((strtok 44 (innerText blanks ps ++ back)).map trimParam)[i]?.map (strtoul (paramBase i)) =
      (ps.map fun p => decode p.raw)[i]?.map (strtoul (paramBase i)) := by
  have hmap : (ps.map fun p => decode p.raw)[i]? = ps[i]?.map fun p => decode p.raw :=
    List.getElem?_map
  rw [hmap]
  cases hp : ps[i]? with
  | none => rw [param_eq_of_none hblank hblanks hplain hpos hi hp, Option.map_none, Option.map_none,
      Option.map_none]
  | some p => rw [param_eq_of_some hblank hplain hpos hi hp, Option.map_some, Option.map_some]

/-- The submission is that of the parameters. -/
theorem submitParams_eq {line back : CStr}
    (hparams : paramsText line = some (innerText blanks ps ++ back))
    (hblank : ∀ p ∈ ps, Blank p.lead ∧ Blank p.trail) (hblanks : Blank blanks)
    (hplain : PlainSubmit ps back) (jobVersion : UInt32) :
    submitParams jobVersion line = submitOf jobVersion (ps.map fun p => decode p.raw) := by
  have hparam := fun i => @param_eq _ _ _ hblank hblanks hplain i
  unfold submitParams submitOf
  rw [hparams]
  simp only [Option.map_some, Option.getD_some]
  have h1 := hparam 1 (by decide) (by decide)
  have h2 := hparam 2 (by decide) (by decide)
  have h3 := hparam 3 (by decide) (by decide)
  have h4 := hparam 4 (by decide) (by decide)
  simp only [paramBase, if_true, OfNat.ofNat_ne_one, if_false] at h1 h2 h3 h4
  rw [h1, h2, h3, h4]

end Parameters

/-! ### Requests and their texts -/

/-- What is read of a line decides what is done. -/
theorem handleLine_of_readsAs {line : CStr} {req : Request} (h : ReadsAs line req) (p : Platform)
    (env : Env) (g : Gateway) (i : Fin maxMiners) (miner : Miner) :
    handleLine p env g i miner line = actOn p env g i miner req := by
  have hid : idOf line = UInt32.ofNat req.id.toNat := by
    rw [← h.id, Int.toNat_natCast, UInt32.ofNat_toNat]
  unfold handleLine actOn
  rw [h.method]
  simp only [hid]
  -- the parameters are read for two methods only
  by_cases hsubscribe : req.method = cstr "mining.subscribe"
  · rw [if_pos hsubscribe, if_pos hsubscribe]
  rw [if_neg hsubscribe, if_neg hsubscribe]
  by_cases hworker : req.method = cstr "mining.authorize"
  · rw [if_pos hworker, if_pos hworker, h.worker hworker]
  rw [if_neg hworker, if_neg hworker]
  by_cases hsubmit : req.method = cstr "mining.submit"
  · rw [if_pos hsubmit, if_pos hsubmit, h.submit hsubmit]
  rw [if_neg hsubmit, if_neg hsubmit]

/-- A request written plainly is read as it is meant. -/
theorem readsAs_of_plain {w : Written} {req : Request} (hwritten : w.Says req)
    (hplain : w.Plain req) :
    ReadsAs w.text req := by
  obtain ⟨top, ms, hdoc, -, hid, hparams⟩ := hwritten.object
  obtain ⟨hidBefore, hidGap⟩ := hdoc.blank_of_named hid
  obtain ⟨hbefore, hgap⟩ := hdoc.blank_of_named hparams
  obtain ⟨⟨hblanks, hblank, hvalue⟩, hitems⟩ := hwritten.params
  have hinner : print w.params.value = 91 :: innerText w.blanks w.items := by
    rw [hvalue, print_arrayLexemes]
  refine ⟨?_, ?_, fun hworker worker => ?_, fun hsubmit jobVersion => ?_⟩
  · obtain ⟨back, hfirst, hnone, hnogap, hescape, hlength⟩ := hplain.method
    rw [← hwritten.method.2]
    exact methodOf_eq hdoc.spaced hfirst hnone hnogap hwritten.method.1 hescape hlength
  · obtain ⟨back, hfirst, hwhole, hbound, hminus⟩ := hplain.id
    rw [Written.text, idOf_eq hdoc.spaced hfirst hidBefore hidGap hwritten.id.1 hbound hminus,
      UInt32.toNat_ofNat_of_lt' hbound, hwhole]
  · obtain ⟨back, hfirst, hitem⟩ := hplain.worker hworker
    rw [← hitems]
    exact workerOf_eq (paramsText_eq hdoc.spaced hfirst hbefore hgap hinner) hitem worker
  · obtain ⟨back, hfirst, hitem⟩ := hplain.submit hsubmit
    rw [← hitems]
    exact submitParams_eq (paramsText_eq hdoc.spaced hfirst hbefore hgap hinner) hblank hblanks
      hitem jobVersion

/-! ### Requests without blanks -/

/-- An item without blanks around it. -/
def plainParam (s : CStr) : Param := ⟨[], plainString s, []⟩

/-- A member with a gap behind its colon. -/
def gapMember (name : String) (gap : CStr) (value : List Lexeme) : Member :=
  ⟨plainString (cstr name), [], gap, value⟩

/-- The request written as miners do: the id, the method and the parameters, without blanks but
for the gaps behind the three colons. -/
def writeRequest (gap : CStr) (method : CStr) (id : ℕ) (params : List CStr) : Written :=
  let idMember := gapMember "id" gap [.other (plainNumeral id).text]
  let methodMember := gapMember "method" gap [.str (plainString method)]
  let paramsMember := gapMember "params" gap (arrayLexemes [] (params.map plainParam))
  { ls := compactObject [idMember, methodMember, paramsMember]
    method := methodMember
    methodRaw := plainString method
    id := idMember
    idNumeral := plainNumeral id
    params := paramsMember
    blanks := []
    items := params.map plainParam }

theorem derives_itemLexemes {ps : List Param} (hne : ps ≠ [])
    (hblank : ∀ p ∈ ps, Blank p.lead ∧ Blank p.trail) : Derives .items (itemLexemes ps) [] := by
  induction ps with
  | nil => exact absurd rfl hne
  | cons p ps ih =>
    obtain ⟨hlead, htrail⟩ := hblank p List.mem_cons_self
    cases ps with
    | nil => exact .item hlead htrail (.string p.raw)
    | cons p' ps =>
      exact .items hlead htrail (.string p.raw)
        (ih (List.cons_ne_nil p' ps) fun q hq => hblank q (List.mem_cons_of_mem p hq))

theorem StringArray.derives {value : List Lexeme} {blanks : CStr} {ps : List Param}
    (h : StringArray value blanks ps) : Derives .value value [] := by
  obtain ⟨hblanks, hblank, rfl⟩ := h
  cases ps with
  | nil => exact .emptyArray hblanks
  | cons p ps => exact .array (derives_itemLexemes (List.cons_ne_nil p ps) hblank)

theorem stringArray_plainParams (params : List CStr) :
    StringArray (arrayLexemes [] (params.map plainParam)) [] (params.map plainParam) := by
  refine ⟨blank_nil, fun p hp => ?_, rfl⟩
  obtain ⟨s, -, rfl⟩ := List.mem_map.mp hp
  exact ⟨blank_nil, blank_nil⟩

/-- A member of a compact object, if the name is in no string of those before it. -/
theorem standsFirst_compactObject {name : String} (front back : List Member) (m : Member)
    (hname : rawText m.name = cstr name)
    (hfront : ∀ m ∈ front, spelled (cstr name) m.name = false ∧
      ∀ raw, Lexeme.str raw ∈ m.value → spelled (cstr name) raw = false) :
    StandsFirst name (compactObject (front ++ m :: back)) m (compactBehind back) := by
  refine ⟨.other [] :: .other [123] :: (compactFront front ++ [.other []]), ?_, ?_, hname, ?_⟩
  · simp [compactObject, compact_append]
  · cases back with
    | nil => exact follows_cons (.inr (.inr rfl)) _
    | cons m back => exact follows_cons (.inl rfl) _
  · intro raw hraw
    obtain ⟨m, hm, hmem⟩ : ∃ m ∈ front, Lexeme.str raw ∈ m.lexemes := by
      simpa [compactFront] using hraw
    obtain rfl | hmem : raw = m.name ∨ Lexeme.str raw ∈ m.value := by
      simpa [Member.lexemes] using hmem
    · exact (hfront m hm).1
    · exact (hfront m hm).2 raw hmem

section Plainly

variable {gap method : CStr} {id : ℕ} {params : List CStr}

/-- What is written is the request. -/
theorem says_writeRequest (hgap : Blank gap) (hmethod : IsPlain method)
    (hparams : ∀ s ∈ params, IsPlain s) :
    (writeRequest gap method id params).Says ⟨method, id, params⟩ := by
  have harray := stringArray_plainParams params
  refine ⟨⟨_, _, isDocument_flat (List.cons_ne_nil _ _) fun m hm => ?_, rfl, rfl, rfl⟩,
    ⟨rfl, decode_plainString hmethod⟩, ⟨rfl, value_plainNumeral id⟩, harray, ?_⟩
  · simp only [List.mem_cons, List.not_mem_nil, or_false] at hm
    obtain rfl | rfl | rfl := hm
    · exact ⟨blank_nil, hgap, .number _⟩
    · exact ⟨blank_nil, hgap, .string _⟩
    · exact ⟨blank_nil, hgap, harray.derives⟩
  · show (params.map plainParam).map (fun p => decode p.raw) = params
    rw [List.map_map]
    exact (List.map_congr_left fun s hs => decode_plainString (hparams s hs)).trans
      (List.map_id params)

theorem not_mem_rawText {c : UInt8} {s : CStr} (h : IsPlain s) (hc : c ∉ s) :
    c ∉ rawText (plainString s) := by
  rwa [rawText_plainString h]

/-- A plain string has no escapes. -/
theorem no_escape {s : CStr} (h : IsPlain s) : (92 : UInt8) ∉ rawText (plainString s) :=
  not_mem_rawText h fun hmem => (h 92 hmem).2.2 rfl

/-- Items without blanks, escapes and commas. -/
theorem plainSubmit_plainParams {back : CStr} (hparams : ∀ s ∈ params, IsPlain s)
    (hcommas : ∀ s ∈ params, (44 : UInt8) ∉ s) (hback : (44 : UInt8) ∉ back) :
    PlainSubmit (params.map plainParam) back := by
  refine ⟨fun p hp => ?_, fun i p hpos hi hp => ?_, fun _ => hback⟩
  · obtain ⟨s, hs, rfl⟩ := List.mem_map.mp (List.mem_of_mem_take hp)
    exact not_mem_rawText (hparams s hs) (hcommas s hs)
  · obtain ⟨s, hs, rfl⟩ := List.mem_map.mp (List.mem_of_getElem? hp)
    refine ⟨fun b hb => absurd hb List.not_mem_nil, ?_⟩
    show strtoul _ (rawText (plainString s)) = strtoul _ (decode (plainString s))
    rw [rawText_plainString (hparams s hs), decode_plainString (hparams s hs)]

theorem standsFirst_id :
    StandsFirst "id" (writeRequest gap method id params).ls
      (writeRequest gap method id params).id
      (compactBehind [(writeRequest gap method id params).method,
        (writeRequest gap method id params).params]) :=
  standsFirst_compactObject [] _ _ rfl fun _ h => absurd h List.not_mem_nil

theorem standsFirst_method :
    StandsFirst "method" (writeRequest gap method id params).ls
      (writeRequest gap method id params).method
      (compactBehind [(writeRequest gap method id params).params]) := by
  refine standsFirst_compactObject [_] _ _ rfl fun m hm => ?_
  obtain rfl := List.mem_singleton.mp hm
  exact ⟨rfl, fun raw hraw => by cases List.mem_singleton.mp hraw⟩

theorem standsFirst_params (hmethod : spelled (cstr "params") (plainString method) = false) :
    StandsFirst "params" (writeRequest gap method id params).ls
      (writeRequest gap method id params).params (compactBehind []) := by
  refine standsFirst_compactObject [_, _] _ _ rfl fun m hm => ?_
  obtain rfl | hm := List.mem_cons.mp hm
  · exact ⟨rfl, fun raw hraw => by cases List.mem_singleton.mp hraw⟩
  · obtain rfl := List.mem_singleton.mp hm
    refine ⟨rfl, fun raw hraw => ?_⟩
    obtain rfl := Lexeme.str.inj (List.mem_singleton.mp hraw)
    exact hmethod

/-- Without the gaps everything is found and read. -/
theorem plain_writeRequest (hmethod : IsPlain method) (hlength : method.length ≤ 63)
    (hid : id < 2 ^ 32) (hparams : ∀ s ∈ params, IsPlain s)
    (hworker : method = cstr "mining.authorize" →
      ∃ b name rest, params = (b :: name) :: rest ∧ b ≠ 32 ∧ (b :: name).length ≤ 63)
    (hcommas : method = cstr "mining.submit" → ∀ s ∈ params, (44 : UInt8) ∉ s) :
    (writeRequest [] method id params).Plain ⟨method, id, params⟩ := by
  refine ⟨⟨_, standsFirst_method, rfl, rfl, no_escape hmethod, ?_⟩,
    ⟨_, standsFirst_id, rfl, hid, ?_⟩, fun h => ⟨_, standsFirst_params ?_, ?_⟩,
    fun h => ⟨_, standsFirst_params ?_, ?_⟩⟩
  · show (rawText (plainString method)).length ≤ 63
    rwa [rawText_plainString hmethod]
  · intro hminus
    cases hminus
  · obtain rfl : method = cstr "mining.authorize" := h
    rfl
  · obtain ⟨b, name, rest, rfl, hspace, hbound⟩ := hworker h
    have hplain : IsPlain (b :: name) := hparams _ List.mem_cons_self
    refine ⟨plainParam (b :: name), rest.map plainParam, rfl, by simp [plainParam],
      no_escape hplain, ⟨b, name, ?_, hspace⟩, ?_⟩
    · exact rawText_plainString hplain
    · show (rawText (plainString (b :: name))).length ≤ 63
      rwa [rawText_plainString hplain]
  · obtain rfl : method = cstr "mining.submit" := h
    rfl
  · exact plainSubmit_plainParams hparams (hcommas h) (by decide)

end Plainly

/-! ### Results -/

/-- The proxy acts on the method, the id and the parameters of a request that is written plainly,
whatever else is in its object. -/
theorem handleLine_acts (w : Written) (req : Request) (hwritten : w.Says req)
    (hplain : w.Plain req) :
    ReadsAs w.text req ∧ ∀ (p : Platform) (env : Env) (g : Gateway) (i : Fin maxMiners)
      (miner : Miner), handleLine p env g i miner w.text = actOn p env g i miner req := by
  have hreads := readsAs_of_plain hwritten hplain
  exact ⟨hreads, fun p env g i miner => handleLine_of_readsAs hreads p env g i miner⟩

/-- A share, submitted by the worker `u` for job 7. -/
theorem handleLine_acts_submit :
    (writeRequest [] (cstr "mining.submit") 1
        [cstr "u", cstr "7", cstr "0", cstr "5", cstr "9"]).text =
      cstr ("\x7b\"id\":1,\"method\":\"mining.submit\"," ++
        "\"params\":[\"u\",\"7\",\"0\",\"5\",\"9\"]\x7d") ∧
    ReadsAs (writeRequest [] (cstr "mining.submit") 1
        [cstr "u", cstr "7", cstr "0", cstr "5", cstr "9"]).text
      ⟨cstr "mining.submit", 1, [cstr "u", cstr "7", cstr "0", cstr "5", cstr "9"]⟩ := by
  have hparams : ∀ s ∈ [cstr "u", cstr "7", cstr "0", cstr "5", cstr "9"],
      IsPlain s ∧ (44 : UInt8) ∉ s := by
    intro s hs
    simp only [List.mem_cons, List.not_mem_nil, or_false] at hs
    obtain rfl | rfl | rfl | rfl | rfl := hs
    all_goals exact ⟨by decide, by decide⟩
  refine ⟨rfl, (handleLine_acts _ _ (says_writeRequest blank_nil (by decide) fun s hs =>
    (hparams s hs).1) (plain_writeRequest (by decide) (by decide) (by decide) (fun s hs =>
      (hparams s hs).1) (fun h => ?_) fun _ s hs => (hparams s hs).2)).1⟩
  exact absurd h (by decide)

/-- With a space behind each colon a subscription is not even noticed. -/
theorem spaced_subscribe_ignored :
    (writeRequest [32] (cstr "mining.subscribe") 1 []).text =
      cstr "\x7b\"id\": 1,\"method\": \"mining.subscribe\",\"params\": []\x7d" ∧
    (writeRequest [32] (cstr "mining.subscribe") 1 []).Says ⟨cstr "mining.subscribe", 1, []⟩ ∧
    ¬ ReadsAs (writeRequest [32] (cstr "mining.subscribe") 1 []).text
      ⟨cstr "mining.subscribe", 1, []⟩ ∧
    ∀ (p : Platform) (env : Env) (g : Gateway) (i : Fin maxMiners) (miner : Miner),
      handleLine p env g i miner (writeRequest [32] (cstr "mining.subscribe") 1 []).text ≠
        actOn p env g i miner ⟨cstr "mining.subscribe", 1, []⟩ := by
  have hnone : methodOf (writeRequest [32] (cstr "mining.subscribe") 1 []).text = none := rfl
  refine ⟨rfl, says_writeRequest (by decide) (by decide) fun s hs => absurd hs List.not_mem_nil,
    fun h => ?_, fun p env g i miner h => ?_⟩
  · rw [h.method] at hnone
    cases hnone
  · -- the answer has at least the line with the difficulty
    unfold handleLine actOn at h
    rw [hnone, if_pos rfl] at h
    exact List.append_ne_nil_of_right_ne_nil _ (List.cons_ne_nil _ _) (Prod.ext_iff.mp h).2.symm

end Mining

end TollGate
