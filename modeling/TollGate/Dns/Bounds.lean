import TollGate.Dns.Replies

/-!
# The buffers of the DNS server

Every access of `dns_server_task` and of what it calls to `rx_buf`, `qname` and
`tx_buf`. The functions follow the code a second time and list what it touches; a byte that is
read as part of the query is told apart from the other accesses to `rx_buf`.

Two of the accesses can go wrong, both for a client without access. The second byte of a
compression pointer is read without a look at the length of the datagram, and an answer of
sixteen bytes is appended to a question wherever it ends in a buffer of 512
(`Dns.accesses_inBounds_iff`).
-/

namespace TollGate

namespace Dns

open WhileLoop

/-- `sizeof(tx_buf)`: a datagram and an answer. -/
abbrev txSize : ℕ := bufSize + 16

/-- An access to one of the buffers. -/
inductive Access where
  /-- A byte of `rx_buf` is read as part of the query. -/
  | query (i : ℕ)
  /-- Another byte of `rx_buf` is read or written. -/
  | buffer (i : ℕ)
  /-- A character of `qname` is written. -/
  | name (i : ℕ)
  /-- A byte of `tx_buf` is written. -/
  | tx (i : ℕ)

/-- The access is inside its buffer, and inside the datagram if it reads the query. -/
def Access.InBounds (n : ℕ) : Access → Prop
  | .query i => i < n ∧ i < bufSize
  | .buffer i => i < bufSize
  | .name i => i < qnameSize
  | .tx i => i < txSize

/-! ### What is touched -/

/-- The reads of the scan for the end of the question. -/
def scanReads (rx : Buffer) (n : ℕ) : ℕ → ℕ → List Access
  | 0, _ => []
  | k + 1, q =>
    if q < n then
      .query q :: if rx q ≠ 0 then scanReads rx n k (q + (rx q).toNat + 1) else []
    else []

/-- The accesses of the inner loop of `parse_dns_name`. -/
def copyLabelAccesses (rx : Buffer) (n cap : ℕ) : ℕ → NameState → List Access
  | 0, _ => []
  | len + 1, st =>
    if st.pos < n ∧ st.out.length < cap then
      .query st.pos :: .name st.out.length ::
        copyLabelAccesses rx n cap len ⟨st.pos + 1, st.out ++ [rx st.pos]⟩
    else []

/-- The accesses of one turn of its outer loop. -/
def turnAccesses (rx : Buffer) (n outLen : ℕ) (st : NameState) : List Access :=
  if st.pos < n ∧ st.out.length < outLen - 1 then
    .query st.pos ::
      if rx st.pos = 0 then []
      else if isPointer (rx st.pos) then [.query (st.pos + 1)]
      else if 0 < st.out.length ∧ st.out.length < outLen - 1 then
        .name st.out.length ::
          copyLabelAccesses rx n (outLen - 1) (rx st.pos).toNat ⟨st.pos + 1, st.out ++ [46]⟩
      else copyLabelAccesses rx n (outLen - 1) (rx st.pos).toNat ⟨st.pos + 1, st.out⟩
  else []

/-- The datagram is a query with a question, by its header. -/
def IsQuery (rx : Buffer) (n : ℕ) : Prop :=
  headerSize ≤ n ∧ field rx 2 &&& 0x8000 = 0 ∧ field rx 4 ≠ 0

/-- The accesses of `dns_server_task` for a datagram of `n` bytes. -/
inductive Touches (g : Gate) (apIp clientIp : Ip) (rx : Buffer) (n : ℕ) : Access → Prop where
  /-- The id, the flags and the count of questions. -/
  | header {i : ℕ} (hsize : headerSize ≤ n) (hi : i < 6) : Touches g apIp clientIp rx n (.query i)
  | scan {a : Access} (hquery : IsQuery rx n) (ha : a ∈ scanReads rx n n headerSize) :
      Touches g apIp clientIp rx n a
  /-- The type of the question. -/
  | qtype {i : ℕ} (hserve : dnsServe g clientIp rx n ≠ .ignore)
      (hi : i = questionEnd rx n + 1 ∨ i = questionEnd rx n + 2) :
      Touches g apIp clientIp rx n (.query i)
  /-- `sendto` to the upstream server. -/
  | request {reqLen i : ℕ} (hserve : dnsServe g clientIp rx n = .forward reqLen)
      (hi : i < reqLen) : Touches g apIp clientIp rx n (.buffer i)
  /-- `recvfrom` from it, which is given the size of `tx_buf`. -/
  | answer {reqLen i : ℕ} (hserve : dnsServe g clientIp rx n = .forward reqLen)
      (hi : i < txSize) : Touches g apIp clientIp rx n (.tx i)
  | turn {qtype reqLen k : ℕ} {st : NameState} {a : Access}
      (hserve : dnsServe g clientIp rx n = .hijack qtype reqLen)
      (hk : turns (nameTurn rx n qnameSize) nameStart k = some st)
      (ha : a ∈ turnAccesses rx n qnameSize st) : Touches g apIp clientIp rx n a
  /-- The zero byte behind the name. -/
  | terminator {qtype reqLen k : ℕ} {st : NameState}
      (hserve : dnsServe g clientIp rx n = .hijack qtype reqLen)
      (hk : turns (nameTurn rx n qnameSize) nameStart k = some st)
      (hend : nameTurn rx n qnameSize st = none) :
      Touches g apIp clientIp rx n (.name st.out.length)
  /-- What the builder of the reply writes. -/
  | build {qtype reqLen i : ℕ} {w : Write}
      (hserve : dnsServe g clientIp rx n = .hijack qtype reqLen) (hname : ParseDnsNameEnds rx n)
      (hw : w ∈ (buildReply apIp rx qtype reqLen).1) (hi : w.start ≤ i)
      (hi' : i < w.start + w.bytes.length) : Touches g apIp clientIp rx n (.buffer i)
  /-- `memcpy` reads the reply. -/
  | copyRead {qtype reqLen i : ℕ} (hserve : dnsServe g clientIp rx n = .hijack qtype reqLen)
      (hname : ParseDnsNameEnds rx n) (hi : i < (buildReply apIp rx qtype reqLen).2) :
      Touches g apIp clientIp rx n (.buffer i)
  /-- `memcpy` writes it, and the id is written over it. -/
  | copyWrite {qtype reqLen i : ℕ} (hserve : dnsServe g clientIp rx n = .hijack qtype reqLen)
      (hname : ParseDnsNameEnds rx n) (hi : i < (buildReply apIp rx qtype reqLen).2 ∨ i < 2) :
      Touches g apIp clientIp rx n (.tx i)

/-! ### The datagrams that are answered -/

/-- Offset `q` is reached from behind the header when every byte counts as a label length. -/
inductive LengthsAt (rx : Buffer) (n : ℕ) : ℕ → Prop where
  | start : LengthsAt rx n headerSize
  | next {p : ℕ} : LengthsAt rx n p → p < n → rx p ≠ 0 → LengthsAt rx n (p + (rx p).toNat + 1)

/-- A query from a client without access, whose question ends with the zero byte at `q`. -/
structure Hijacked (g : Gate) (clientIp : Ip) (rx : Buffer) (n q : ℕ) : Prop where
  query : IsQuery rx n
  lengths : LengthsAt rx n q
  zero : rx q = 0
  fits : q + 5 ≤ n
  denied : g.isAuthenticated clientIp = false

section Question

variable {g : Gate} {clientIp : Ip} {rx : Buffer} {n k p q : ℕ}

theorem LengthsAt.scan (h : LengthsAt rx n p) : LengthsAt rx n (scanQuestion rx n k p) := by
  induction k generalizing p with
  | zero => exact h
  | succ k ih =>
    unfold scanQuestion
    split
    · next hgo => exact ih (h.next hgo.1 hgo.2)
    · exact h

/-- The scan comes by, with turns left. -/
theorem LengthsAt.questionEnd_eq (h : LengthsAt rx n p) :
    ∃ k, n ≤ p + k ∧ questionEnd rx n = scanQuestion rx n k p := by
  induction h with
  | start => exact ⟨n, by omega, rfl⟩
  | next _ hp hzero ih =>
    obtain ⟨k, hk, heq⟩ := ih
    obtain ⟨k, rfl⟩ := Nat.exists_eq_succ_of_ne_zero (show k ≠ 0 by omega)
    rw [scanQuestion, if_pos ⟨hp, hzero⟩] at heq
    exact ⟨k, by omega, heq⟩

theorem LengthsAt.questionEnd (h : LengthsAt rx n q) (hzero : rx q = 0) :
    questionEnd rx n = q := by
  obtain ⟨k, -, heq⟩ := h.questionEnd_eq
  rw [heq]
  cases k with
  | zero => rfl
  | succ k => exact if_neg fun hgo => hgo.2 hzero

/-- **Which datagrams are answered here.** -/
theorem dnsServe_eq_hijack_iff {qtype reqLen : ℕ} :
    dnsServe g clientIp rx n = .hijack qtype reqLen ↔
      ∃ q, Hijacked g clientIp rx n q ∧ qtype = field rx (q + 1) ∧ reqLen = q + 5 := by
  refine ⟨fun hserve => ?_, ?_⟩
  · unfold dnsServe at hserve
    split at hserve
    · cases hserve
    next hsize =>
    split at hserve
    · cases hserve
    next hquery =>
    rw [not_or, not_not] at hquery
    dsimp only at hserve
    split at hserve
    · cases hserve
    next hfits =>
    split at hserve
    · cases hserve
    next hdenied =>
    obtain ⟨rfl, rfl⟩ := Reaction.hijack.inj hserve
    have hlengths : LengthsAt rx n (questionEnd rx n) := LengthsAt.start.scan
    have hzero : rx (questionEnd rx n) = 0 :=
      (scanQuestion_stops rx (by omega : n ≤ headerSize + n)).resolve_left fun hle => by
        change n ≤ questionEnd rx n at hle
        omega
    refine ⟨_, ⟨⟨by omega, hquery⟩, hlengths, hzero, by omega, ?_⟩, rfl, rfl⟩
    exact Bool.eq_false_iff.mpr hdenied
  · rintro ⟨q, h, rfl, rfl⟩
    obtain ⟨hsize, hflags, hcount⟩ := h.query
    have hend := h.lengths.questionEnd h.zero
    have hfits := h.fits
    unfold dnsServe
    rw [if_neg (by omega), if_neg (by simp [hflags, hcount])]
    simp only [hend, h.denied, Bool.false_eq_true, if_false]
    rw [if_neg (by omega)]

/-- The question of an accepted query is inside the datagram. -/
theorem questionEnd_le (hserve : dnsServe g clientIp rx n ≠ .ignore) :
    questionEnd rx n + 5 ≤ n := by
  unfold dnsServe at hserve
  split at hserve
  · exact absurd rfl hserve
  split at hserve
  · exact absurd rfl hserve
  dsimp only at hserve
  split at hserve
  · exact absurd rfl hserve
  · omega

theorem eq_of_dnsServe_forward {reqLen : ℕ} (hserve : dnsServe g clientIp rx n = .forward reqLen) :
    reqLen = questionEnd rx n + 5 := by
  unfold dnsServe at hserve
  split at hserve
  · cases hserve
  split at hserve
  · cases hserve
  dsimp only at hserve
  split at hserve
  · cases hserve
  split at hserve
  · exact (Reaction.forward.inj hserve).symm
  · cases hserve

end Question

/-! ### Each kind of access -/

section Kinds

variable {g : Gate} {apIp clientIp : Ip} {rx : Buffer} {n cap k len q qtype reqLen : ℕ}
  {a : Access} {st : NameState}

theorem scanReads_inBounds (hn : n ≤ bufSize) (ha : a ∈ scanReads rx n k q) : a.InBounds n := by
  induction k generalizing q with
  | zero => exact absurd ha List.not_mem_nil
  | succ k ih =>
    unfold scanReads at ha
    split at ha
    · next hq =>
      rcases List.mem_cons.mp ha with rfl | ha
      · exact ⟨hq, by omega⟩
      · split at ha
        · exact ih ha
        · exact absurd ha List.not_mem_nil
    · exact absurd ha List.not_mem_nil

theorem copyLabelAccesses_inBounds (hn : n ≤ bufSize) (hcap : cap ≤ qnameSize)
    (ha : a ∈ copyLabelAccesses rx n cap len st) : a.InBounds n := by
  induction len generalizing st with
  | zero => exact absurd ha List.not_mem_nil
  | succ len ih =>
    unfold copyLabelAccesses at ha
    split at ha
    · next hroom =>
      rcases List.mem_cons.mp ha with rfl | ha
      · exact ⟨hroom.1, by omega⟩
      rcases List.mem_cons.mp ha with rfl | ha
      · change st.out.length < qnameSize
        omega
      · exact ih ha
    · exact absurd ha List.not_mem_nil

/-- A turn goes out of bounds only for the second byte of a pointer. -/
theorem turnAccesses_inBounds (hn : n ≤ bufSize) (ha : a ∈ turnAccesses rx n qnameSize st) :
    a.InBounds n ∨ st.pos < n ∧ st.out.length < qnameSize - 1 ∧ isPointer (rx st.pos) = true ∧
      a = .query (st.pos + 1) := by
  unfold turnAccesses at ha
  split at ha
  · next hguard =>
    rcases List.mem_cons.mp ha with rfl | ha
    · exact .inl ⟨hguard.1, by omega⟩
    split at ha
    · exact absurd ha List.not_mem_nil
    split at ha
    · next hptr => exact .inr ⟨hguard.1, hguard.2, hptr, List.mem_singleton.mp ha⟩
    split at ha
    · rcases List.mem_cons.mp ha with rfl | ha
      · refine .inl ?_
        change st.out.length < qnameSize
        omega
      · exact .inl (copyLabelAccesses_inBounds hn (by decide) ha)
    · exact .inl (copyLabelAccesses_inBounds hn (by decide) ha)
  · exact absurd ha List.not_mem_nil

/-- There is always room for the zero byte. -/
theorem length_out_lt (hk : turns (nameTurn rx n qnameSize) nameStart k = some st) :
    st.out.length < qnameSize := by
  refine turns_induction (P := fun st : NameState => st.out.length < qnameSize) ?_ ?_ hk
  · intro st st' hlt hturn
    obtain ⟨-, hout, ⟨-, heq⟩ | ⟨-, -, j, -, -, hout', -, hle⟩⟩ := nameTurn_cases hturn
    · rw [heq]
      omega
    · have hdot : dot st.out.length ≤ 1 := by
        unfold dot
        split <;> omega
      rcases Nat.eq_zero_or_pos j with rfl | hj
      · omega
      · have := (hle hj).2
        omega
  · decide

/-- The reply ends sixteen bytes behind the question at most. -/
theorem buildReply_length (apIp : Ip) (rx : Buffer) (qtype : ℕ) (hreq : reqLen ≤ bufSize) :
    (buildReply apIp rx qtype reqLen).2 ≤ txSize ∧
      ((qtype = 1 → reqLen + 16 ≤ bufSize) → (buildReply apIp rx qtype reqLen).2 ≤ bufSize) := by
  by_cases hq : qtype = 1
  · have hlen : (buildReply apIp rx qtype reqLen).2 = reqLen + 16 := by
      rw [buildReply, if_pos hq]
      rfl
    rw [hlen]
    exact ⟨Nat.add_le_add_right hreq 16, fun hroom => hroom hq⟩
  · rw [buildReply_of_ne apIp rx hq]
    exact ⟨hreq.trans (Nat.le_add_right bufSize 16), fun _ => hreq⟩

/-- What the builders write ends with the header, the question or the answer. -/
theorem buildReply_write {w : Write} (hw : w ∈ (buildReply apIp rx qtype reqLen).1) :
    w.start + w.bytes.length ≤ 12 ∨ w.start + w.bytes.length ≤ reqLen ∨
      qtype = 1 ∧ w.start + w.bytes.length = reqLen + 16 := by
  have hheader : ∀ flags ancount, ∀ w ∈ headerWrites flags ancount,
      w.start + w.bytes.length ≤ 12 := by
    intro flags ancount
    simp only [headerWrites, List.forall_mem_cons, length_be16, List.not_mem_nil, false_implies,
      implies_true, and_true]
    decide
  by_cases hq : qtype = 1
  · rw [buildReply, if_pos hq, buildRedirectResponse, List.cons_append] at hw
    rcases List.mem_cons.mp hw with rfl | hw
    · refine .inr (.inl ?_)
      rw [List.length_map, List.length_range, Nat.zero_add]
    rcases List.mem_append.mp hw with hw | hw
    · exact .inl (hheader _ _ w hw)
    · rw [List.mem_singleton.mp hw]
      exact .inr (.inr ⟨hq, rfl⟩)
  · rw [buildReply_of_ne apIp rx hq] at hw
    exact .inl (hheader _ _ w hw)

end Kinds

/-- The accesses for a question that ends at `q` are in bounds: the name has no pointer in the last
byte of the datagram, and an answer finds room, unless the name is never read to an end. -/
def Fits (rx : Buffer) (n q : ℕ) : Prop :=
  (∀ t, NameAt rx n (n - 1) t → isPointer (rx (n - 1)) = false) ∧
    (field rx (q + 1) = 1 →
      q + 5 + 16 ≤ bufSize ∨ ∃ p t, NameAt rx n p t ∧ OnPointerLoop rx n p)

theorem Fits.answer {rx : Buffer} {n q : ℕ} (h : Fits rx n q) (hname : ParseDnsNameEnds rx n)
    (hqtype : field rx (q + 1) = 1) : q + 5 + 16 ≤ bufSize :=
  (h.2 hqtype).resolve_right fun ⟨_, _, hat, hloop⟩ => not_ends_of_pointerLoop hat hloop hname

/-- The parser comes to a pointer in the last byte, and reads one more for it. -/
theorem touches_behind_pointer {g : Gate} (apIp : Ip) {clientIp : Ip} {rx : Buffer} {n q t : ℕ}
    (hq : Hijacked g clientIp rx n q) (hat : NameAt rx n (n - 1) t)
    (hptr : isPointer (rx (n - 1)) = true) : Touches g apIp clientIp rx n (.query n) := by
  have hserve := dnsServe_eq_hijack_iff.mpr ⟨q, hq, rfl, rfl⟩
  have hsize := hq.fits
  obtain ⟨ht, k, st, hk, hpos, hout⟩ := turns_of_nameAt hat
  rw [← hpos] at hptr
  have hzero : rx st.pos ≠ 0 := by
    intro h0
    rw [h0] at hptr
    exact absurd hptr (by decide)
  have hmem : Access.query (st.pos + 1) ∈ turnAccesses rx n qnameSize st := by
    rw [turnAccesses, if_pos ⟨by omega, by omega⟩, if_neg hzero, if_pos hptr]
    exact List.mem_cons_of_mem _ (List.mem_singleton_self _)
  have hlast : st.pos + 1 = n := by omega
  have hread : Touches g apIp clientIp rx n (.query (st.pos + 1)) := .turn hserve hk hmem
  rw [hlast] at hread
  exact hread

/-- **Exactly when the DNS server keeps to its buffers.** For every datagram that `rx_buf` can
hold, every access is inside its buffer, and those that read the query inside the datagram, if and
only if it is not a query that is answered here, or its question fits. -/
theorem accesses_inBounds_iff (g : Gate) (apIp clientIp : Ip) (rx : Buffer) {n : ℕ}
    (hn : n ≤ bufSize) :
    (∀ a, Touches g apIp clientIp rx n a → a.InBounds n) ↔
      ∀ q, Hijacked g clientIp rx n q → Fits rx n q := by
  refine ⟨fun hall q hq => ⟨fun t hat => ?_, fun hqtype => ?_⟩, fun hfits a ha => ?_⟩
  · by_contra hptr
    rw [Bool.not_eq_false] at hptr
    have hbound := (hall _ (touches_behind_pointer apIp hq hat hptr)).1
    exact lt_irrefl n hbound
  · have hserve := dnsServe_eq_hijack_iff.mpr ⟨q, hq, rfl, rfl⟩
    by_cases hname : ParseDnsNameEnds rx n
    · -- the last byte of the answer
      refine .inl ?_
      rw [hqtype] at hserve
      have hlen : (buildReply apIp rx 1 (q + 5)).2 = q + 5 + 16 := rfl
      have hbound : q + 5 + 15 < bufSize :=
        hall _ (.copyRead hserve hname (by rw [hlen]; omega))
      omega
    · refine .inr ?_
      by_contra hno
      exact hname (ends_of_no_pointerLoop hno)
  · have hbuf : bufSize = 512 := rfl
    cases ha with
    | header hsize hi =>
      have hlt := hi.trans_le ((by decide : 6 ≤ headerSize).trans hsize)
      exact ⟨hlt, hlt.trans_le hn⟩
    | scan _ ha => exact scanReads_inBounds hn ha
    | qtype hserve hi =>
      have hend := questionEnd_le hserve
      exact ⟨by omega, by omega⟩
    | @request _ i hserve hi =>
      have hreq := eq_of_dnsServe_forward hserve
      have hend : questionEnd rx n + 5 ≤ n := questionEnd_le (by rw [hserve]; nofun)
      change i < bufSize
      omega
    | answer _ hi => exact hi
    | @turn _ _ _ st _ hserve hk ha =>
      obtain ⟨q, hq, -, -⟩ := dnsServe_eq_hijack_iff.mp hserve
      rcases turnAccesses_inBounds hn ha with hbound | ⟨hpos, hout, hptr, rfl⟩
      · exact hbound
      · -- a pointer that is not in the last byte has its second byte in the datagram
        have hat := nameAt_of_turns hk hpos hout
        rcases Nat.lt_or_ge (st.pos + 1) n with hlt | hge
        · exact ⟨hlt, hlt.trans_le hn⟩
        · have hlast : st.pos = n - 1 := by omega
          rw [hlast] at hat hptr
          exact absurd hptr (by rw [(hfits q hq).1 _ hat]; exact Bool.false_ne_true)
    | terminator _ hk _ => exact length_out_lt hk
    | @build _ _ i w hserve hname hw hi hi' =>
      obtain ⟨q, hq, rfl, rfl⟩ := dnsServe_eq_hijack_iff.mp hserve
      have hsize := hq.fits
      have hroom := (hfits q hq).answer hname
      have hwrite := buildReply_write hw
      change i < bufSize
      omega
    | copyRead hserve hname hi =>
      obtain ⟨q, hq, rfl, rfl⟩ := dnsServe_eq_hijack_iff.mp hserve
      have hsize := hq.fits
      have hlen := (buildReply_length apIp rx (field rx (q + 1)) (show q + 5 ≤ bufSize by omega)).2
        ((hfits q hq).answer hname)
      exact hi.trans_le hlen
    | copyWrite hserve hname hi =>
      obtain ⟨q, hq, rfl, rfl⟩ := dnsServe_eq_hijack_iff.mp hserve
      have hsize := hq.fits
      have hlen := (buildReply_length apIp rx (field rx (q + 1)) (show q + 5 ≤ bufSize by omega)).1
      rcases hi with hi | hi
      · exact hi.trans_le hlen
      · exact hi.trans_le (by decide)

/-- A query whose question ends with the buffer. The scan follows two length bytes, and the parser
a pointer out of the datagram. -/
def longQuestion : Buffer := fun i =>
  if i = 5 ∨ i = 509 ∨ i = 511 then 1 else if i = 12 then 0xFF else if i = 268 then 0xEE else 0

/-- Its answer is written behind the buffer. -/
theorem longQuestion_overflow :
    Touches .boot 0x0104a8c0 0x0200000a longQuestion 512 (.buffer 512) ∧
      ¬ (Access.buffer 512).InBounds 512 := by
  have hserve : dnsServe .boot 0x0200000a longQuestion 512 = .hijack 1 512 := by decide
  have hname : ParseDnsNameEnds longQuestion 512 := ⟨2, by decide⟩
  have hwrite : ⟨512, redirectAnswer 0x0104a8c0⟩ ∈
      (buildReply 0x0104a8c0 longQuestion 1 512).1 := by
    rw [buildReply, if_pos rfl]
    exact List.mem_append_right _ (List.mem_singleton_self _)
  refine ⟨.build hserve hname hwrite le_rfl (by decide), fun hbound => ?_⟩
  exact absurd hbound (Nat.lt_irrefl 512)

/-- A short query keeps to the buffers. -/
theorem accesses_inBounds_plain :
    19 ≤ bufSize ∧
      ∀ a, Touches .boot 0x0104a8c0 0x0200000a (queryFor 1 0) 19 a → a.InBounds 19 := by
  refine ⟨by decide, (accesses_inBounds_iff _ _ _ _ (by decide)).mpr fun q hq => ⟨fun t _ => ?_,
    fun _ => ?_⟩⟩
  · rfl
  · have hfits := hq.fits
    exact .inl ((by omega : q + 5 + 16 ≤ 35).trans (by decide))

end Dns

end TollGate
