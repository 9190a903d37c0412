import TollGate.Lib.CTypes

/-!
# Lines from a byte stream

`proxy_server_task` reads from a miner's connection with `recv` and cuts what one
call returned into lines. Nothing is kept from one `recv` to the next: what stands
after the last line end of a result is handed to `handle_line` as if it were a line.

A connection is therefore read as its lines exactly when no two results meet inside a
line (`handed_eq_iff`). Every such meeting point makes one line more than was sent
(`length_handed`).
-/

namespace TollGate

namespace Mining

/-! ### The source operations -/

/-- `RECV_BUF_SIZE`. -/
abbrev recvBufSize : ℕ := 1024

/-- What one call of `recv` returns while the connection is open. -/
structure Recv where
  bytes : List UInt8
  ne_nil : bytes ≠ []
  length_lt : bytes.length < recvBufSize

/-- A line end, in either convention. -/
def isLineEnd (b : UInt8) : Bool := b = 10 || b = 13

/-- What is handed to `handle_line`: the C string from `line_start` on, unless it is
empty. -/
def handOver (line : List UInt8) : List CStr :=
  if line.takeWhile (· ≠ 0) = [] then [] else [line.takeWhile (· ≠ 0)]

/-- The loop over the buffer, with the bytes since `line_start`. That `j > 0` makes no
difference, since the line is empty at `j = 0`. -/
def scanRecv : List UInt8 → List UInt8 → List CStr
  | line, [] => handOver line
  | line, b :: buf =>
    if isLineEnd b then handOver line ++ scanRecv [] buf else scanRecv (line ++ [b]) buf

/-- The lines handed to `handle_line` over a connection. -/
def handed (recvs : List Recv) : List CStr := recvs.flatMap fun r => scanRecv [] r.bytes

/-! ### The lines of a stream -/

/-- The lines of a byte string: what stands between its line ends, as C strings,
without the empty ones. -/
def linesOf (bytes : List UInt8) : List CStr := (bytes.splitOnP isLineEnd).flatMap handOver

@[simp] theorem handOver_nil : handOver [] = [] := rfl

/-- The loop finds the lines, the first of which continues what was read before. -/
theorem scanRecv_append (line buf : List UInt8) :
    scanRecv line buf = ((buf.splitOnP isLineEnd).modifyHead (line ++ ·)).flatMap handOver := by
  induction buf generalizing line with
  | nil => simp [scanRecv]
  | cons b buf ih =>
    rw [List.splitOnP_cons_eq_if_modifyHead]
    unfold scanRecv
    cases isLineEnd b with
    | true =>
      have hnil : ((buf.splitOnP isLineEnd).modifyHead ([] ++ ·)) = buf.splitOnP isLineEnd := by
        cases buf.splitOnP isLineEnd <;> rfl
      rw [if_pos rfl, if_pos rfl, ih, hnil]
      simp
    | false =>
      rw [if_neg Bool.false_ne_true, if_neg Bool.false_ne_true, ih, List.modifyHead_modifyHead]
      congr 2
      funext s
      simp

theorem scanRecv_nil (buf : List UInt8) : scanRecv [] buf = linesOf buf := by
  rw [scanRecv_append, linesOf]
  cases buf.splitOnP isLineEnd <;> rfl

/-! ### Two parts of a stream -/

/-- The place between the two parts lies inside a line. -/
def SplitsLine (before after : List UInt8) : Prop :=
  (∃ b ∈ before.getLast?, isLineEnd b = false) ∧
    ∃ b ∈ after.head?, isLineEnd b = false ∧ b ≠ 0

instance (before after : List UInt8) : Decidable (SplitsLine before after) :=
  inferInstanceAs (Decidable (_ ∧ _))

/-- A C string ends at its first zero. -/
theorem handOver_append_zero (line rest : List UInt8) :
    handOver (line ++ 0 :: rest) = handOver line := by
  have hcut : (line ++ 0 :: rest).takeWhile (· ≠ 0) = line.takeWhile (· ≠ 0) := by
    induction line with
    | nil => rfl
    | cons b line ih =>
      by_cases hb : b = 0
      · simp [hb]
      · simp only [List.cons_append, List.takeWhile_cons, hb, ne_eq, not_false_eq_true, decide_true,
          if_true, ih]
  unfold handOver
  rw [hcut]

theorem length_handOver_cons (b : UInt8) (line : List UInt8) :
    (handOver (b :: line)).length = if b = 0 then 0 else 1 := by
  unfold handOver
  by_cases hb : b = 0
  · simp [hb]
  · simp [hb]

/-- The lines of the first part are handed over up to an open one, which is empty when
the part ends with a line end, and goes on with the second part. -/
theorem exists_open (line buf : List UInt8) (hline : ∀ b ∈ line, isLineEnd b = false) :
    ∃ (closed : List CStr) (opened : List UInt8), scanRecv line buf = closed ++ handOver opened ∧
      (∀ rest, scanRecv line (buf ++ rest) = closed ++ scanRecv opened rest) ∧
      (opened = [] ↔ ∀ b ∈ (line ++ buf).getLast?, isLineEnd b = true) := by
  induction buf generalizing line with
  | nil =>
    refine ⟨[], line, rfl, fun rest => rfl, ?_⟩
    rw [List.append_nil]
    refine ⟨?_, ?_⟩
    · rintro rfl b hb
      exact absurd hb (by simp)
    · intro h
      by_contra hne
      have hlast := h (line.getLast hne) (List.getLast?_eq_some_getLast hne)
      rw [hline _ (List.getLast_mem hne)] at hlast
      exact Bool.noConfusion hlast
  | cons b buf ih =>
    cases hb : isLineEnd b with
    | true =>
      obtain ⟨closed, opened, hscan, hrest, hopen⟩ := ih [] (by simp)
      refine ⟨handOver line ++ closed, opened, ?_, ?_, ?_⟩
      · rw [scanRecv, if_pos hb, hscan, List.append_assoc]
      · intro rest
        rw [List.cons_append, scanRecv, if_pos hb, hrest, List.append_assoc]
      · rw [hopen, List.nil_append]
        cases buf with
        | nil => simp [hb]
        | cons b' buf => simp
    | false =>
      have hline' : ∀ b' ∈ line ++ [b], isLineEnd b' = false := by
        intro b' hb'
        rcases List.mem_append.mp hb' with hb' | hb'
        · exact hline b' hb'
        · rw [List.mem_singleton.mp hb', hb]
      obtain ⟨closed, opened, hscan, hrest, hopen⟩ := ih (line ++ [b]) hline'
      have hfalse : ¬ isLineEnd b = true := by rw [hb]; exact Bool.false_ne_true
      refine ⟨closed, opened, ?_, ?_, ?_⟩
      · rw [scanRecv, if_neg hfalse, hscan]
      · intro rest
        rw [List.cons_append, scanRecv, if_neg hfalse, hrest]
      · rw [hopen, List.append_assoc]
        rfl

/-- The first line of a part that begins with a byte of a line begins with it. -/
theorem exists_first_line (bytes : List UInt8) :
    ∃ (first : List UInt8) (more : List CStr), linesOf bytes = handOver first ++ more ∧
      (∀ line, scanRecv line bytes = handOver (line ++ first) ++ more) ∧
      first.head? = bytes.head?.filter fun b => !isLineEnd b := by
  cases bytes with
  | nil => exact ⟨[], [], rfl, fun line => by simp [scanRecv], rfl⟩
  | cons b bytes =>
    obtain ⟨first, pieces, hsplit⟩ := List.exists_cons_of_ne_nil
      (List.splitOnP_ne_nil isLineEnd (b :: bytes))
    refine ⟨first, pieces.flatMap handOver, ?_, ?_, ?_⟩
    · rw [linesOf, hsplit, List.flatMap_cons]
    · intro line
      rw [scanRecv_append, hsplit, List.modifyHead_cons, List.flatMap_cons]
    · rw [List.splitOnP_cons_eq_if_modifyHead] at hsplit
      cases hb : isLineEnd b with
      | true =>
        rw [hb, if_pos rfl] at hsplit
        rw [← (List.cons.inj hsplit).1]
        simp [Option.filter, hb]
      | false =>
        rw [hb, if_neg Bool.false_ne_true] at hsplit
        obtain ⟨t, ts, ht⟩ := List.exists_cons_of_ne_nil (List.splitOnP_ne_nil isLineEnd bytes)
        rw [ht, List.modifyHead_cons] at hsplit
        rw [← (List.cons.inj hsplit).1]
        simp [Option.filter, hb]

/-- The last line of one part, the first of the next, and the line of the whole that
consists of both. -/
theorem exists_meeting (before after : List UInt8) :
    ∃ (closed more : List CStr) (opened first : List UInt8),
      linesOf before = closed ++ handOver opened ∧ linesOf after = handOver first ++ more ∧
      linesOf (before ++ after) = closed ++ handOver (opened ++ first) ++ more ∧
      (SplitsLine before after ↔ opened ≠ [] ∧ ∃ b ∈ first.head?, b ≠ 0) := by
  obtain ⟨closed, opened, hbefore, hrest, hopen⟩ := exists_open [] before (by simp)
  obtain ⟨first, more, hafter, hfirst, hhead⟩ := exists_first_line after
  refine ⟨closed, more, opened, first, ?_, hafter, ?_, ?_⟩
  · rw [← scanRecv_nil, hbefore]
  · rw [← scanRecv_nil, hrest, hfirst, List.append_assoc]
  · have hend : opened ≠ [] ↔ ∃ b ∈ before.getLast?, isLineEnd b = false := by
      rw [Ne, hopen, List.nil_append]
      push Not
      simp only [ne_eq, Bool.not_eq_true]
    unfold SplitsLine
    rw [hend, hhead]
    cases after with
    | nil => simp
    | cons b after => cases hb : isLineEnd b <;> simp [Option.filter, hb]

/-- Parts that do not meet inside a line have their own lines. -/
theorem linesOf_append {before after : List UInt8} (h : ¬ SplitsLine before after) :
    linesOf (before ++ after) = linesOf before ++ linesOf after := by
  obtain ⟨closed, more, opened, first, hbefore, hafter, hwhole, hsplits⟩ :=
    exists_meeting before after
  rw [hsplits] at h
  have hjoin : handOver (opened ++ first) = handOver opened ++ handOver first := by
    cases opened with
    | nil => rfl
    | cons c opened =>
      cases first with
      | nil => simp
      | cons b first =>
        have hb : b = 0 := by
          by_contra hb
          exact h ⟨List.cons_ne_nil _ _, b, rfl, hb⟩
        rw [hb, handOver_append_zero]
        simp [handOver]
  rw [hwhole, hbefore, hafter, hjoin]
  simp only [List.append_assoc]

/-- Parts that meet inside a line have one line more than the whole. -/
theorem length_linesOf_append {before after : List UInt8} (h : SplitsLine before after) :
    (linesOf before).length + (linesOf after).length = (linesOf (before ++ after)).length + 1 := by
  obtain ⟨closed, more, opened, first, hbefore, hafter, hwhole, hsplits⟩ :=
    exists_meeting before after
  obtain ⟨hopened, b, hb, hne⟩ := hsplits.mp h
  obtain ⟨c, opened, rfl⟩ := List.exists_cons_of_ne_nil hopened
  obtain ⟨first', rfl⟩ := List.head?_eq_some_iff.mp hb
  -- the open line counts as the joined one does, by its first byte, and the rest of it again
  have hfirst := length_handOver_cons b first'
  rw [if_neg hne] at hfirst
  have hjoined :
      (handOver (c :: opened ++ b :: first')).length = (handOver (c :: opened)).length := by
    rw [List.cons_append, length_handOver_cons, length_handOver_cons]
  rw [hwhole, hbefore, hafter]
  simp only [List.length_append, hjoined, hfirst]
  omega

/-! ### A connection -/

/-- The bytes of a connection. -/
def received (recvs : List Recv) : List UInt8 := recvs.flatMap Recv.bytes

/-- The next byte that arrives is the first of the next result. -/
theorem head?_received_cons (r : Recv) (recvs : List Recv) :
    (received (r :: recvs)).head? = r.bytes.head? := by
  obtain ⟨b, bytes, h⟩ := List.exists_cons_of_ne_nil r.ne_nil
  simp [received, h]

/-- No two consecutive results meet inside a line. -/
def CutsAtLines (recvs : List Recv) : Prop :=
  recvs.IsChain fun r r' => ¬ SplitsLine r.bytes r'.bytes

/-- The results whose end lies inside a line. -/
def cuts : List Recv → ℕ
  | [] => 0
  | r :: recvs => (if SplitsLine r.bytes (received recvs) then 1 else 0) + cuts recvs

theorem splitsLine_received (r r' : Recv) (recvs : List Recv) :
    SplitsLine r.bytes (received (r' :: recvs)) ↔ SplitsLine r.bytes r'.bytes := by
  unfold SplitsLine
  rw [head?_received_cons]

theorem cutsAtLines_iff_cuts (recvs : List Recv) : CutsAtLines recvs ↔ cuts recvs = 0 := by
  induction recvs with
  | nil => simp [CutsAtLines, cuts]
  | cons r recvs ih =>
    cases recvs with
    | nil => simp [CutsAtLines, cuts, SplitsLine, received]
    | cons r' recvs =>
      have hcuts : cuts (r :: r' :: recvs) =
          (if SplitsLine r.bytes r'.bytes then 1 else 0) + cuts (r' :: recvs) := by
        rw [cuts]
        simp only [splitsLine_received]
      unfold CutsAtLines at ih ⊢
      rw [List.isChain_cons_cons, ih, hcuts]
      by_cases h : SplitsLine r.bytes r'.bytes
      · simp [h]
      · simp [h]

/-- **One line more for every result that ends inside a line.** -/
theorem length_handed (recvs : List Recv) :
    (handed recvs).length = (linesOf (received recvs)).length + cuts recvs := by
  induction recvs with
  | nil => rfl
  | cons r recvs ih =>
    have hhanded : handed (r :: recvs) = linesOf r.bytes ++ handed recvs := by
      rw [handed, List.flatMap_cons, scanRecv_nil]
      rfl
    have hreceived : received (r :: recvs) = r.bytes ++ received recvs := List.flatMap_cons
    rw [hhanded, hreceived, List.length_append, ih, cuts]
    by_cases h : SplitsLine r.bytes (received recvs)
    · have hlength := length_linesOf_append h
      rw [if_pos h]
      omega
    · rw [linesOf_append h, List.length_append, if_neg h]
      omega

/-- Without such results the lines are the lines of the stream. -/
theorem handed_of_no_cuts (recvs : List Recv) (h : cuts recvs = 0) :
    handed recvs = linesOf (received recvs) := by
  induction recvs with
  | nil => rfl
  | cons r recvs ih =>
    have hreceived : received (r :: recvs) = r.bytes ++ received recvs := List.flatMap_cons
    rw [cuts] at h
    have hsplit : ¬ SplitsLine r.bytes (received recvs) := by
      intro hsplit
      rw [if_pos hsplit] at h
      omega
    rw [handed, List.flatMap_cons, scanRecv_nil, hreceived, linesOf_append hsplit,
      ← ih (by omega)]
    rfl

/-- A line a miner sends, without the newline that ends it. -/
structure MinerLine where
  text : CStr
  no_newline : (10 : UInt8) ∉ text
  length_lt : text.length < recvBufSize

/-- The stream of the lines. -/
def streamOf (lines : List MinerLine) : List UInt8 := lines.flatMap fun l => l.text ++ [10]

/-- The lines of a stream are those of its newline-terminated lines. -/
theorem linesOf_streamOf (lines : List MinerLine) :
    linesOf (streamOf lines) = lines.flatMap fun l => linesOf l.text := by
  induction lines with
  | nil => rfl
  | cons l lines ih =>
    have hstream : streamOf (l :: lines) = l.text ++ 10 :: streamOf lines := by
      rw [streamOf, List.flatMap_cons, List.append_assoc]
      rfl
    rw [hstream, List.flatMap_cons, ← ih]
    unfold linesOf
    rw [List.splitOnP_append_cons _ _ rfl, List.flatMap_append]

/-- A line of text is its only line. -/
theorem linesOf_of_text {text : CStr} (hne : text ≠ []) (hzero : (0 : UInt8) ∉ text)
    (hend : ∀ b ∈ text, isLineEnd b = false) : linesOf text = [text] := by
  have hcut : text.takeWhile (· ≠ 0) = text := by
    rw [List.takeWhile_eq_self_iff]
    intro b hb
    exact decide_eq_true (fun hz : b = 0 => hzero (hz ▸ hb))
  unfold linesOf
  rw [List.splitOnP_eq_singleton hend, List.flatMap_singleton, handOver, hcut, if_neg hne]

/-- **Exactly when a connection is read as its lines.** For every stream of
newline-terminated lines and every way it arrives. -/
theorem handed_eq_iff (lines : List MinerLine) (recvs : List Recv)
    (hstream : received recvs = streamOf lines) :
    handed recvs = (lines.flatMap fun l => linesOf l.text) ↔ CutsAtLines recvs := by
  rw [cutsAtLines_iff_cuts, ← linesOf_streamOf, ← hstream]
  refine ⟨?_, handed_of_no_cuts recvs⟩
  intro h
  have hlength := length_handed recvs
  rw [h] at hlength
  omega

/-- The line of the proxy's own self-test. -/
def subscribeLine : MinerLine where
  text := cstr "\x7b\"id\":1,\"method\":\"mining.subscribe\",\"params\":[]\x7d"
  no_newline := by decide
  length_lt := by decide

/-- The line in one result. -/
def wholeLine : Recv where
  bytes := subscribeLine.text ++ [10]
  ne_nil := List.append_ne_nil_of_right_ne_nil _ (by decide)
  length_lt := by decide

/-- The line arrives whole and is handed over whole. -/
theorem wholeLine_handed : handed [wholeLine] = [subscribeLine.text] := by
  have h := (handed_eq_iff [subscribeLine] [wholeLine] rfl).mpr (by simp [CutsAtLines])
  have htext : linesOf subscribeLine.text = [subscribeLine.text] :=
    linesOf_of_text (by decide +kernel) (by decide +kernel) (by decide +kernel)
  rw [h, List.flatMap_singleton, htext]

/-- The first byte of the line and the rest of it, in two results. -/
def splitLine : List Recv :=
  [⟨subscribeLine.text.take 1, by decide, by decide⟩,
    ⟨subscribeLine.text.drop 1 ++ [10], by decide, by decide⟩]

/-- The line is handed over as two. -/
theorem splitLine_handed :
    received splitLine = streamOf [subscribeLine] ∧
      handed splitLine ≠ [subscribeLine].flatMap fun l => linesOf l.text := by
  decide

end Mining

end TollGate
