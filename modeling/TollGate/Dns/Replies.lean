import TollGate.Dns.Names
import TollGate.Lib.ByteOrder

/-!
# What the DNS server sends

For a client with access, `forward_dns` passes the query on, cut behind its first
question. For any other, `build_redirect_response` or `build_nxdomain` turns the query into a
reply where it stands in `rx_buf`. The two write the counts of the answer, authority and
additional sections, and nobody writes the count of the questions.

A message is well formed when it holds as many questions and records as its header
declares, and nothing else (`WellFormed`). `Dns.sent_wellFormed_iff` says of every
query with a valid first question when what is sent is.
-/

namespace TollGate

namespace Dns

open WhileLoop

/-! ### Building a reply -/

/-- Consecutive bytes that are written at an offset. -/
structure Write where
  start : ℕ
  bytes : List UInt8

/-- The buffer after a write. -/
def store (m : Buffer) (w : Write) : Buffer := fun i =>
  if w.start ≤ i ∧ i < w.start + w.bytes.length then w.bytes.getD (i - w.start) 0 else m i

/-- The header fields both builders write: the flags, the count of answers, and zero for the
counts of the two other sections. -/
def headerWrites (flags ancount : UInt16) : List Write :=
  [⟨2, be16 flags⟩, ⟨6, be16 ancount⟩, ⟨8, be16 0⟩, ⟨10, be16 0⟩]

/-- `build_nxdomain`: what it writes to the response, and its length. -/
def buildNxdomain (reqLen : ℕ) : List Write × ℕ := (headerWrites 0x8403 0, reqLen)

/-- The `dns_answer_t` of `build_redirect_response`: the name asked for, an address for ten
seconds. The address is stored as `s_ap_ip` has it. -/
def redirectAnswer (apIp : Ip) : List UInt8 :=
  be16 0xC00C ++ be16 1 ++ be16 1 ++ be32 10 ++ be16 4 ++ le32 apIp

/-- `build_redirect_response`. Its `memmove` moves the request to where it is. -/
def buildRedirectResponse (apIp : Ip) (response : Buffer) (reqLen : ℕ) : List Write × ℕ :=
  (⟨0, (List.range reqLen).map response⟩ ::
    headerWrites 0x8180 1 ++ [⟨reqLen, redirectAnswer apIp⟩],
    reqLen + (redirectAnswer apIp).length)

/-- The builder for a question type. -/
def buildReply (apIp : Ip) (rx : Buffer) (qtype reqLen : ℕ) : List Write × ℕ :=
  if qtype = 1 then buildRedirectResponse apIp rx reqLen else buildNxdomain reqLen

/-- The reply in `tx_buf`: a copy of the response, under the transaction id of the query. -/
def txReply (apIp : Ip) (rx : Buffer) (qtype reqLen : ℕ) : Buffer :=
  store ((buildReply apIp rx qtype reqLen).1.foldl store rx) ⟨0, [rx 0, rx 1]⟩

/-- What `dns_server_task` sends on for a datagram of `n` bytes: the request to the upstream
server, or its own reply to the client. -/
inductive Sends (g : Gate) (apIp clientIp : Ip) (rx : Buffer) (n : ℕ) : Buffer → ℕ → Prop where
  | request {reqLen : ℕ} (hserve : dnsServe g clientIp rx n = .forward reqLen) :
      Sends g apIp clientIp rx n rx reqLen
  | reply {qtype reqLen : ℕ} (hserve : dnsServe g clientIp rx n = .hijack qtype reqLen)
      (hname : ParseDnsNameEnds rx n) :
      Sends g apIp clientIp rx n (txReply apIp rx qtype reqLen)
        (buildReply apIp rx qtype reqLen).2

/-! ### Well formed messages -/

/-- The name at `p` ends before `q`. -/
inductive IsName (m : Buffer) : ℕ → ℕ → Prop where
  | root {p : ℕ} : m p = 0 → IsName m p (p + 1)
  | pointer {p : ℕ} : 0xC0 ≤ m p → IsName m p (p + 2)
  | label {p q : ℕ} : m p ≠ 0 → m p ≤ 63 → IsName m (p + 1 + (m p).toNat) q → IsName m p q

/-- A question: a name, a type and a class. -/
def IsQuestion (m : Buffer) (p q : ℕ) : Prop := ∃ r, IsName m p r ∧ q = r + 4

/-- A record: a name, a type, a class, a time to live, and data behind their length. -/
def IsRecord (m : Buffer) (p q : ℕ) : Prop := ∃ r, IsName m p r ∧ q = r + 10 + field m (r + 8)

/-- `k` items stand between `p` and `q`. -/
def Items (item : ℕ → ℕ → Prop) : ℕ → ℕ → ℕ → Prop
  | 0, p, q => p = q
  | k + 1, p, q => ∃ r, item p r ∧ Items item k r q

/-- **A well formed message**: behind the header, exactly as many questions, answers, authority and
additional records as it declares. -/
def WellFormed (m : Buffer) (n : ℕ) : Prop :=
  ∃ a b c, Items (IsQuestion m) (field m 4) headerSize a ∧ Items (IsRecord m) (field m 6) a b ∧
    Items (IsRecord m) (field m 8) b c ∧ Items (IsRecord m) (field m 10) c n

/-- The labels of a name from `p` on, up to the zero byte at `q`. -/
inductive Labels (m : Buffer) : ℕ → ℕ → Prop where
  | root {p : ℕ} : m p = 0 → Labels m p p
  | label {p q : ℕ} : m p ≠ 0 → m p ≤ 63 → Labels m (p + 1 + (m p).toNat) q → Labels m p q

/-- The first question is valid: labels, at most 255 bytes of them, a type and a class. -/
def ValidQuestion (rx : Buffer) (n : ℕ) : Prop :=
  ∃ q, Labels rx headerSize q ∧ q + 1 ≤ headerSize + 255 ∧ q + 5 ≤ n

section Names

variable {m m' : Buffer} {p q r : ℕ}

theorem isPointer_le {b : UInt8} (h : isPointer b = true) : 0xC0 ≤ b := by
  have hand : b &&& 0xC0 = 0xC0 := by simpa [isPointer] using h
  rw [← hand]
  exact UInt8.le_iff_toNat_le.mpr (by rw [UInt8.toNat_and]; exact Nat.and_le_left)

theorem not_pointer_of_label {b : UInt8} (h : b ≤ 63) : ¬ 0xC0 ≤ b := by
  rw [UInt8.le_iff_toNat_le] at h ⊢
  change b.toNat ≤ 63 at h
  change ¬ 192 ≤ b.toNat
  omega

theorem IsName.lt (h : IsName m p q) : p < q := by
  induction h with
  | root | pointer => omega
  | label _ _ _ ih => omega

/-- A name has one end. -/
theorem IsName.unique (h : IsName m p q) (h' : IsName m p r) : q = r := by
  induction h with
  | root hzero =>
    cases h' with
    | root => rfl
    | pointer hptr => rw [hzero] at hptr; exact absurd hptr (by decide)
    | label hne => exact absurd hzero hne
  | pointer hptr =>
    cases h' with
    | root hzero => rw [hzero] at hptr; exact absurd hptr (by decide)
    | pointer => rfl
    | label _ hle => exact absurd hptr (not_pointer_of_label hle)
  | label hne hle _ ih =>
    cases h' with
    | root hzero => exact absurd hzero hne
    | pointer hptr => exact absurd hptr (not_pointer_of_label hle)
    | label _ _ hrest => exact ih hrest

theorem Labels.le (h : Labels m p q) : p ≤ q := by
  induction h with
  | root => rfl
  | label _ _ _ ih => omega

/-- The labels are a name wherever the same bytes stand. -/
theorem Labels.isName (h : Labels m p q) (hsame : ∀ i, p ≤ i → i ≤ q → m' i = m i) :
    IsName m' p (q + 1) := by
  induction h with
  | root hzero => exact .root (by rw [hsame _ le_rfl le_rfl, hzero])
  | @label p q hne hle hrest ih =>
    have hp := hsame p le_rfl (by have := hrest.le; omega)
    refine .label ?_ ?_ ?_
    · rwa [hp]
    · rwa [hp]
    · rw [hp]
      exact ih fun i hi hi' => hsame i (by omega) hi'

end Names

section Counting

variable {m : Buffer} {item : ℕ → ℕ → Prop} {d k n p q r : ℕ}

/-- Items take room. -/
theorem Items.le (hitem : ∀ p q, item p q → p + d ≤ q) (h : Items item k p q) :
    p + d * k ≤ q := by
  induction k generalizing p with
  | zero => exact h.le
  | succ k ih =>
    obtain ⟨r, hfirst, hrest⟩ := h
    have hr := hitem p r hfirst
    have hq := ih hrest
    rw [Nat.mul_succ]
    omega

theorem IsQuestion.le (h : IsQuestion m p q) : p + 5 ≤ q := by
  obtain ⟨r, hname, rfl⟩ := h
  have := hname.lt
  omega

theorem IsRecord.le (h : IsRecord m p q) : p + 11 ≤ q := by
  obtain ⟨r, hname, rfl⟩ := h
  have := hname.lt
  omega

/-- Where the first question ends, it ends in every reading. -/
theorem Items.first_question (hfirst : IsQuestion m p r) (hk : k ≠ 0)
    (h : Items (IsQuestion m) k p q) : Items (IsQuestion m) (k - 1) r q := by
  obtain ⟨k, rfl⟩ := Nat.exists_eq_succ_of_ne_zero hk
  obtain ⟨r', ⟨e', hname', rfl⟩, hrest⟩ := h
  obtain ⟨e, hname, rfl⟩ := hfirst
  rwa [hname.unique hname']

/-- A message that ends behind its first question declares this question only. -/
theorem wellFormed_question (hfirst : IsQuestion m headerSize n) (hk : field m 4 ≠ 0) :
    WellFormed m n ↔ field m 4 = 1 ∧ field m 6 = 0 ∧ field m 8 = 0 ∧ field m 10 = 0 := by
  refine ⟨?_, ?_⟩
  · rintro ⟨a, b, c, hqd, han, hns, har⟩
    have hqd' := (Items.first_question hfirst hk hqd).le fun _ _ => IsQuestion.le
    have han' := han.le fun _ _ => IsRecord.le
    have hns' := hns.le fun _ _ => IsRecord.le
    have har' := har.le fun _ _ => IsRecord.le
    omega
  · rintro ⟨hqd, han, hns, har⟩
    refine ⟨n, n, n, ?_, ?_, ?_, ?_⟩
    · rw [hqd]
      exact ⟨n, hfirst, rfl⟩
    · rw [han]
      rfl
    · rw [hns]
      rfl
    · rw [har]
      rfl

end Counting

/-! ### The bytes of a reply -/

section Bytes

variable {m rx : Buffer} {i reqLen qtype : ℕ} {apIp : Ip}

theorem store_outside {w : Write} (h : i < w.start ∨ w.start + w.bytes.length ≤ i) :
    store m w i = m i := if_neg (by omega)

theorem store_inside {w : Write} (h : w.start ≤ i) (h' : i < w.start + w.bytes.length) :
    store m w i = w.bytes.getD (i - w.start) 0 := if_pos ⟨h, h'⟩

theorem foldl_store_outside {ws : List Write}
    (h : ∀ w ∈ ws, i < w.start ∨ w.start + w.bytes.length ≤ i) : ws.foldl store m i = m i := by
  induction ws generalizing m with
  | nil => rfl
  | cons w ws ih =>
    rw [List.foldl_cons, ih fun w' hw' => h w' (List.mem_cons_of_mem w hw')]
    exact store_outside (h w List.mem_cons_self)

/-- Moving bytes to where they are changes nothing. -/
theorem store_self (m : Buffer) (len : ℕ) : store m ⟨0, (List.range len).map m⟩ = m := by
  funext i
  by_cases h : i < len
  · rw [store_inside (Nat.zero_le i) (by simpa using h)]
    simp [h]
  · exact store_outside (by simp; omega)

theorem field_store_self (m : Buffer) (i : ℕ) (v : UInt16) :
    field (store m ⟨i, be16 v⟩) i = v.toNat := by
  have hlt := v.toNat_lt
  have hhigh : store m ⟨i, be16 v⟩ i = (v >>> 8).toUInt8 := by
    rw [store_inside le_rfl (by simp)]
    simp [be16]
  have hlow : store m ⟨i, be16 v⟩ (i + 1) = v.toUInt8 := by
    rw [store_inside (Nat.le_succ i) (by simp)]
    simp [be16]
  rw [field, hhigh, hlow, UInt16.toNat_toUInt8, UInt16.toNat_toUInt8, UInt16.toNat_shiftRight,
    Nat.shiftRight_eq_div_pow]
  simp only [UInt16.reduceToNat, Nat.reduceMod]
  omega

theorem field_store_outside {w : Write} (h : i + 1 < w.start ∨ w.start + w.bytes.length ≤ i) :
    field (store m w) i = field m i := by
  rw [field, store_outside (by omega), store_outside (by omega), field]

/-- The builders leave the id, the count of questions and what stands behind the header. -/
theorem headerWrites_outside (flags ancount : UInt16) (h : i < 2 ∨ i = 4 ∨ i = 5 ∨ 12 ≤ i) :
    ∀ w ∈ headerWrites flags ancount, i < w.start ∨ w.start + w.bytes.length ≤ i := by
  simp only [headerWrites, List.forall_mem_cons, length_be16, List.not_mem_nil, false_implies,
    implies_true, and_true]
  omega

theorem field_headerWrites (m : Buffer) (flags ancount : UInt16) :
    field ((headerWrites flags ancount).foldl store m) 6 = ancount.toNat ∧
      field ((headerWrites flags ancount).foldl store m) 8 = 0 ∧
      field ((headerWrites flags ancount).foldl store m) 10 = 0 := by
  have hlen : ∀ v : UInt16, (be16 v).length = 2 := length_be16
  simp only [headerWrites, List.foldl_cons, List.foldl_nil]
  refine ⟨?_, ?_, ?_⟩
  · rw [field_store_outside (.inl (by decide)), field_store_outside (.inl (by decide)),
      field_store_self]
  · rw [field_store_outside (.inl (by decide)), field_store_self]
    rfl
  · rw [field_store_self]
    rfl

theorem buildReply_one (apIp : Ip) (rx : Buffer) (reqLen : ℕ) :
    (buildReply apIp rx 1 reqLen).1.foldl store rx =
      store ((headerWrites 0x8180 1).foldl store rx) ⟨reqLen, redirectAnswer apIp⟩ := by
  rw [buildReply, if_pos rfl, buildRedirectResponse]
  simp only [List.cons_append, List.foldl_cons, List.foldl_append, List.foldl_nil, store_self]

theorem buildReply_of_ne (apIp : Ip) (rx : Buffer) (h : qtype ≠ 1) :
    buildReply apIp rx qtype reqLen = (headerWrites 0x8403 0, reqLen) := by
  rw [buildReply, if_neg h, buildNxdomain]

/-- A reply has the question of the query. -/
theorem txReply_of_ne (hreq : 12 ≤ reqLen) (h : i = 4 ∨ i = 5 ∨ 12 ≤ i ∧ i < reqLen) :
    txReply apIp rx qtype reqLen i = rx i := by
  have hheader : i < 2 ∨ i = 4 ∨ i = 5 ∨ 12 ≤ i := by omega
  rw [txReply, store_outside (.inr (by simp; omega))]
  by_cases hq : qtype = 1
  · rw [hq, buildReply_one, store_outside (.inl (by change i < reqLen; omega)),
      foldl_store_outside (headerWrites_outside _ _ hheader)]
  · rw [buildReply_of_ne apIp rx hq, foldl_store_outside (headerWrites_outside _ _ hheader)]

theorem field_txReply (apIp : Ip) (rx : Buffer) (qtype : ℕ) (hreq : 12 ≤ reqLen) :
    field (txReply apIp rx qtype reqLen) 6 = (if qtype = 1 then 1 else 0) ∧
      field (txReply apIp rx qtype reqLen) 8 = 0 ∧
      field (txReply apIp rx qtype reqLen) 10 = 0 := by
  -- neither the id nor the answer is written to these fields
  have hid : ∀ m : Buffer, ∀ i, 2 ≤ i → field (store m ⟨0, [rx 0, rx 1]⟩) i = field m i :=
    fun m i hi => field_store_outside (.inr hi)
  by_cases hq : qtype = 1
  · have hanswer : ∀ m : Buffer, ∀ i, i < 11 →
        field (store m ⟨reqLen, redirectAnswer apIp⟩) i = field m i :=
      fun m i hi => field_store_outside (.inl (by change i + 1 < reqLen; omega))
    obtain ⟨han, hns, har⟩ := field_headerWrites rx 0x8180 1
    rw [txReply, hid _ 6 (by decide), hid _ 8 (by decide), hid _ 10 (by decide), hq,
      buildReply_one, hanswer _ 6 (by decide), hanswer _ 8 (by decide), hanswer _ 10 (by decide)]
    exact ⟨han, hns, har⟩
  · obtain ⟨han, hns, har⟩ := field_headerWrites rx 0x8403 0
    rw [txReply, hid _ 6 (by decide), hid _ 8 (by decide), hid _ 10 (by decide),
      buildReply_of_ne apIp rx hq, if_neg hq]
    exact ⟨han, hns, har⟩

theorem redirectAnswer_eq (apIp : Ip) :
    redirectAnswer apIp =
      [0xC0, 0x0C, 0, 1, 0, 1, 0, 0, 0, 10, 0, 4] ++ le32 apIp := by
  have hwords : be16 0xC00C = [0xC0, 0x0C] ∧ be16 1 = [0, 1] ∧ be32 10 = [0, 0, 0, 10] ∧
      be16 4 = [0, 4] := by decide
  obtain ⟨hname, hone, httl, hlen⟩ := hwords
  rw [redirectAnswer, hname, hone, httl, hlen]
  rfl

/-- The answer stands behind the question. -/
theorem txReply_answer {j : ℕ} (hreq : 12 ≤ reqLen) (hj : j < 16) :
    txReply apIp rx 1 reqLen (reqLen + j) = (redirectAnswer apIp).getD j 0 := by
  have hlen : (redirectAnswer apIp).length = 16 := rfl
  rw [txReply, store_outside (.inr (by simp; omega)), buildReply_one,
    store_inside (by dsimp only; omega) (by dsimp only; omega), Nat.add_sub_cancel_left]

end Bytes

/-! ### Valid questions -/

section Valid

variable {g : Gate} {apIp clientIp : Ip} {rx : Buffer} {n k p q t : ℕ}

/-- The scan stops at the zero byte of the name. -/
theorem Labels.scan (h : Labels rx p q) (hn : q < n) (hk : q ≤ p + k) :
    scanQuestion rx n k p = q := by
  induction h generalizing k with
  | root hzero =>
    cases k with
    | zero => rfl
    | succ k => exact if_neg fun hgo => hgo.2 hzero
  | @label p q hne _ hrest ih =>
    have hle := hrest.le
    obtain ⟨k, rfl⟩ := Nat.exists_eq_succ_of_ne_zero (show k ≠ 0 by omega)
    have hnext : p + (rx p).toNat + 1 = p + 1 + (rx p).toNat := by omega
    rw [scanQuestion, if_pos ⟨by omega, hne⟩, hnext]
    exact ih hn (by omega)

/-- Labels hold no pointer. -/
theorem Labels.not_pointer (h : Labels rx p q) : isPointer (rx p) = false := by
  have hlow : ¬ 0xC0 ≤ rx p := by
    cases h with
    | root hzero => rw [hzero]; decide
    | label _ hle _ => exact not_pointer_of_label hle
  exact Bool.eq_false_iff.mpr fun hptr => hlow (isPointer_le hptr)

/-- The parser stays on the labels. -/
theorem NameAt.labels (hvalid : Labels rx headerSize q) (h : NameAt rx n p t) : Labels rx p q := by
  induction h with
  | start => exact hvalid
  | pointer _ hptr ih =>
    rw [followPointer, ih.not_pointer, if_neg fun hb => Bool.false_ne_true hb.2] at hptr
    cases hptr
  | label _ hzero _ _ _ ih =>
    cases ih with
    | root hroot => exact absurd hroot hzero
    | label _ _ hrest => exact hrest

/-- A name without pointers is read to its end. -/
theorem parseDnsNameEnds_of_labels (hvalid : Labels rx headerSize q) : ParseDnsNameEnds rx n := by
  refine ends_of_no_pointerLoop ?_
  rintro ⟨p, t, hat, j, hj, hloop⟩
  obtain ⟨j, rfl⟩ := Nat.exists_eq_succ_of_ne_zero hj.ne'
  -- the first turn of the loop would be a pointer
  have hfirst : followPointer rx n p = none := by
    rw [followPointer, (hat.labels hvalid).not_pointer,
      if_neg fun hb => Bool.false_ne_true hb.2]
  have hone : turns (followPointer rx n) p 1 = none := hfirst
  have hnone : turns (followPointer rx n) p (j + 1) = none :=
    turns_eq_none_of_le hone (by omega)
  rw [hloop] at hnone
  cases hnone

/-- What the server does with an accepted query whose first question is valid. -/
theorem dnsServe_of_labels (hvalid : Labels rx headerSize q) (hn : q + 5 ≤ n)
    (haccepted : dnsServe g clientIp rx n ≠ .ignore) :
    field rx 4 ≠ 0 ∧ dnsServe g clientIp rx n =
      if g.isAuthenticated clientIp then .forward (q + 5)
      else .hijack (field rx (q + 1)) (q + 5) := by
  have hend : questionEnd rx n = q := hvalid.scan (by omega) (by omega)
  unfold dnsServe at haccepted ⊢
  split at haccepted
  · exact absurd rfl haccepted
  split at haccepted
  · exact absurd rfl haccepted
  next hsize hquery =>
  rw [not_or] at hquery
  refine ⟨hquery.2, ?_⟩
  rw [if_neg hsize, if_neg (not_or.mpr hquery)]
  simp only [hend, not_lt.mpr hn, if_false]

theorem isQuestion_of_labels {m : Buffer} (hvalid : Labels rx headerSize q)
    (hsame : ∀ i, headerSize ≤ i → i ≤ q → m i = rx i) : IsQuestion m headerSize (q + 5) :=
  ⟨q + 1, hvalid.isName hsame, rfl⟩

/-- A refusal is well formed if there is one question. -/
theorem wellFormed_refusal (hvalid : Labels rx headerSize q) {qtype : ℕ} (hq : qtype ≠ 1)
    (hcount : field rx 4 ≠ 0) :
    WellFormed (txReply apIp rx qtype (q + 5)) (q + 5) ↔ field rx 4 = 1 := by
  have hle : 12 ≤ q := hvalid.le
  have hreq : 12 ≤ q + 5 := by omega
  have hqd : field (txReply apIp rx qtype (q + 5)) 4 = field rx 4 := by
    rw [field, field, txReply_of_ne hreq (.inl rfl), txReply_of_ne hreq (.inr (.inl rfl))]
  have hfirst : IsQuestion (txReply apIp rx qtype (q + 5)) headerSize (q + 5) :=
    isQuestion_of_labels hvalid fun i hi hi' =>
      txReply_of_ne hreq (.inr (.inr ⟨hi, by omega⟩))
  obtain ⟨han, hns, har⟩ := field_txReply apIp rx qtype hreq
  rw [if_neg hq] at han
  rw [wellFormed_question hfirst (by rwa [hqd]), hqd, han, hns, har]
  simp only [and_true]

/-- The answer is a record of sixteen bytes, and no question. -/
theorem redirect_record (apIp : Ip) (rx : Buffer) (hreq : 12 ≤ q) :
    IsRecord (txReply apIp rx 1 q) q (q + 16) ∧
      ∀ r, IsQuestion (txReply apIp rx 1 q) q r → r = q + 6 := by
  have hbyte : ∀ j < 16, txReply apIp rx 1 q (q + j) = (redirectAnswer apIp).getD j 0 :=
    fun j hj => txReply_answer hreq hj
  have hptr : IsName (txReply apIp rx 1 q) q (q + 2) := by
    refine .pointer ?_
    have hfirst := hbyte 0 (by decide)
    rw [Nat.add_zero] at hfirst
    rw [hfirst, redirectAnswer_eq]
    exact UInt8.le_refl 0xC0
  refine ⟨⟨q + 2, hptr, ?_⟩, ?_⟩
  · have hlen : field (txReply apIp rx 1 q) (q + 2 + 8) = 4 := by
      have hhigh : (redirectAnswer apIp).getD 10 0 = 0 := by
        rw [redirectAnswer_eq, List.getD_append _ _ _ _ (by decide)]
        rfl
      have hlow : (redirectAnswer apIp).getD 11 0 = 4 := by
        rw [redirectAnswer_eq, List.getD_append _ _ _ _ (by decide)]
        rfl
      rw [field, Nat.add_assoc q, Nat.add_assoc q, hbyte (2 + 8) (by decide),
        hbyte (2 + 8 + 1) (by decide), hhigh, hlow]
      decide
    rw [hlen]
  · rintro r ⟨e, hname, rfl⟩
    rw [← hptr.unique hname]

/-- A redirecting reply is well formed if there is one question. -/
theorem wellFormed_redirect (hvalid : Labels rx headerSize q) (hcount : field rx 4 ≠ 0) :
    WellFormed (txReply apIp rx 1 (q + 5)) (q + 5 + 16) ↔ field rx 4 = 1 := by
  have hle : 12 ≤ q := hvalid.le
  have hreq : 12 ≤ q + 5 := by omega
  have hqd : field (txReply apIp rx 1 (q + 5)) 4 = field rx 4 := by
    rw [field, field, txReply_of_ne hreq (.inl rfl), txReply_of_ne hreq (.inr (.inl rfl))]
  have hfirst : IsQuestion (txReply apIp rx 1 (q + 5)) headerSize (q + 5) :=
    isQuestion_of_labels hvalid fun i hi hi' =>
      txReply_of_ne hreq (.inr (.inr ⟨hi, by omega⟩))
  obtain ⟨han, hns, har⟩ := field_txReply apIp rx 1 hreq
  obtain ⟨hrecord, hquestion⟩ := redirect_record apIp rx hreq
  rw [if_pos rfl] at han
  unfold WellFormed
  rw [hqd, han, hns, har]
  refine ⟨?_, ?_⟩
  · rintro ⟨a, b, c, hqs, ⟨r, hanswer, rfl⟩, rfl, rfl⟩
    have hrest := Items.first_question hfirst hcount hqs
    have hlen := hrest.le fun _ _ => IsQuestion.le
    have hlen' := hanswer.le
    -- sixteen bytes hold a record and at most one question, and no question stands there
    by_contra hmore
    obtain ⟨k, hk⟩ : ∃ k, field rx 4 - 1 = k + 1 := ⟨field rx 4 - 2, by omega⟩
    rw [hk] at hrest
    obtain ⟨e, hsecond, hrest⟩ := hrest
    have hend := hquestion e hsecond
    have hlen'' := hrest.le fun _ _ => IsQuestion.le
    omega
  · intro hone
    rw [hone]
    exact ⟨q + 5, q + 5 + 16, q + 5 + 16, ⟨_, hfirst, rfl⟩, ⟨_, hrecord, rfl⟩, rfl, rfl⟩

/-- **Exactly when what is sent is well formed.** For an accepted query with a valid first question,
of a client with access or without: every message that is sent for it, upstream or back, is well
formed if and only if the query has one question and, when it is passed on, declares nothing
else. -/
theorem sent_wellFormed_iff (hquestion : ValidQuestion rx n)
    (haccepted : dnsServe g clientIp rx n ≠ .ignore) :
    (∃ m len, Sends g apIp clientIp rx n m len) ∧
    ((∀ m len, Sends g apIp clientIp rx n m len → WellFormed m len) ↔
      field rx 4 = 1 ∧ (g.isAuthenticated clientIp = true →
        field rx 6 = 0 ∧ field rx 8 = 0 ∧ field rx 10 = 0)) := by
  obtain ⟨q, hvalid, -, hn⟩ := hquestion
  obtain ⟨hcount, hserve⟩ := dnsServe_of_labels hvalid hn haccepted
  have hends : ParseDnsNameEnds rx n := parseDnsNameEnds_of_labels hvalid
  cases hauth : g.isAuthenticated clientIp with
  | true =>
    rw [hauth, if_pos rfl] at hserve
    refine ⟨⟨_, _, .request hserve⟩, ?_⟩
    have hsent : (∀ m len, Sends g apIp clientIp rx n m len → WellFormed m len) ↔
        WellFormed rx (q + 5) := by
      refine ⟨fun hall => hall _ _ (.request hserve), fun hwell m len hsends => ?_⟩
      cases hsends with
      | request hserve' =>
        obtain rfl := Reaction.forward.inj (hserve.symm.trans hserve')
        exact hwell
      | reply hserve' => cases hserve.symm.trans hserve'
    rw [hsent, wellFormed_question (isQuestion_of_labels hvalid fun _ _ _ => rfl) hcount]
    simp only [true_implies]
  | false =>
    rw [hauth, if_neg Bool.false_ne_true] at hserve
    refine ⟨⟨_, _, .reply hserve hends⟩, ?_⟩
    have hsent : (∀ m len, Sends g apIp clientIp rx n m len → WellFormed m len) ↔
        WellFormed (txReply apIp rx (field rx (q + 1)) (q + 5))
          (buildReply apIp rx (field rx (q + 1)) (q + 5)).2 := by
      refine ⟨fun hall => hall _ _ (.reply hserve hends), fun hwell m len hsends => ?_⟩
      cases hsends with
      | request hserve' => cases hserve.symm.trans hserve'
      | reply hserve' =>
        obtain ⟨rfl, rfl⟩ := Reaction.hijack.inj (hserve.symm.trans hserve')
        exact hwell
    have hwell : WellFormed (txReply apIp rx (field rx (q + 1)) (q + 5))
        (buildReply apIp rx (field rx (q + 1)) (q + 5)).2 ↔ field rx 4 = 1 := by
      by_cases hq : field rx (q + 1) = 1
      · rw [hq]
        exact wellFormed_redirect hvalid hcount
      · rw [buildReply_of_ne apIp rx hq]
        exact wellFormed_refusal hvalid hq hcount
    rw [hsent, hwell]
    simp only [Bool.false_eq_true, false_implies, and_true]

end Valid

/-- A query for the address of `a`, with the given counts of questions and of additional records,
and behind the question an empty OPT record. -/
def queryFor (qdcount arcount : UInt8) : Buffer := fun i =>
  [0, 1, 1, 0, 0, qdcount, 0, 0, 0, 0, 0, arcount, 1, 97, 0, 0, 1, 0, 1,
    0, 0, 41, 16, 0, 0, 0, 0, 0, 0, 0].getD i 0

theorem queryFor_valid (qdcount arcount : UInt8) :
    Labels (queryFor qdcount arcount) headerSize 14 :=
  .label (by simp [queryFor]) (by simp [queryFor]) (.root rfl)

/-- The client with the address 10.0.0.2 has access. -/
def openGate : Gate := Gate.boot.dnsSetAuthenticated 0x0200000a true

/-- A query with nothing but its question, from a client without access. -/
theorem sent_wellFormed_plain :
    dnsServe .boot 0x0200000a (queryFor 1 0) 19 ≠ .ignore ∧
      ∀ m len, Sends .boot 0x0104a8c0 0x0200000a (queryFor 1 0) 19 m len → WellFormed m len :=
  ⟨by decide, (sent_wellFormed_iff ⟨14, queryFor_valid 1 0, by decide, by decide⟩
    (by decide)).2.mpr ⟨by decide, fun hauth => absurd hauth (by decide)⟩⟩

/-- A query that announces an OPT record, as resolvers send it, is passed on without the
record. -/
theorem edns_request_cut :
    Sends openGate 0x0104a8c0 0x0200000a (queryFor 1 1) 30 (queryFor 1 1) 19 ∧
      ¬ WellFormed (queryFor 1 1) 19 := by
  refine ⟨.request (by decide), fun hwell => ?_⟩
  have hfirst := isQuestion_of_labels (queryFor_valid 1 1) fun i _ _ => rfl
  rw [wellFormed_question hfirst (by decide)] at hwell
  exact absurd hwell.2.2.2 (by decide)

end Dns

end TollGate
