import TollGate.Lib.FlatJson
import TollGate.Mining.Gateway

/-!
# Mining over HTTP

A remote miner gets its job from `GET /mining/job` of the gateway (`api_get_mining_job`,
read by `fetch_job` of `remote_miner.c`) and posts its shares to `POST /mining/share`
(written by `submit_share`, read by `api_post_mining_share`). The words travel as JSON
numbers, that is as doubles, the hashes as hexadecimal text.

`http_mining_round_trip`: every valid job arrives as it was sent, and every share, with a
JSON library that is exact on integers below `2^53`.
-/

namespace TollGate

namespace Mining

open CStr CJson FlatJson

/-! ### The gateway's document -/

/-- An answer of the HTTP server, with its body as text. -/
structure HttpReply where
  status : ℤ
  body : CStr
deriving DecidableEq

/-- The members of the job document. A hash price that is not finite is printed as
`null`. -/
def jobMembers (job : Job) (hashprice : Option ℚ) : List (CStr × Value) :=
  [(cstr "job_id", .number job.jobId.toNat),
    (cstr "prevhash", .text (hexOfBytes job.prevhash.toList)),
    (cstr "merkle_root", .text (hexOfBytes job.merkleRoot.toList)),
    (cstr "version", .number job.version.toNat),
    (cstr "nbits", .number job.nbits.toNat),
    (cstr "ntime", .number job.ntime.toNat),
    (cstr "hashprice", (hashprice.map Value.number).getD .null)]

/-- `api_get_mining_job`. The error text is cut. -/
def apiGetMiningJob (number : ℚ → CStr) (job : Job) (hashprice : Option ℚ) : HttpReply :=
  if job.valid then ⟨200, printFlat number (jobMembers job hashprice)⟩
  else ⟨503, (cstr "\x7b\"error\":\"no job\"\x7d").take 15⟩

/-! ### The remote miner -/

/-- `sscanf(s, "%2x", &byte)` and the cast of the value. -/
def scanHexByte (s : CStr) : Option UInt8 :=
  let field := (s.dropWhile isSpace).take 2
  match (readSign field).2 with
  | d :: _ => if isDigit 16 d then some (strtoul 16 field).toUInt8 else none
  | [] => none

/-- `hex_to_bytes` of `remote_miner.c`: the bytes written, at most `len`. -/
def remoteHexToBytes : ℕ → CStr → List UInt8
  | len + 1, a :: b :: hex =>
    match scanHexByte (a :: b :: hex) with
    | none => []
    | some byte => byte :: remoteHexToBytes len hex
  | _, _ => []

/-- `nbits_to_target`. -/
def nbitsToTarget (nbits : UInt32) : Vector UInt8 32 :=
  let exp := (nbits >>> 24 &&& 0xFF).toNat
  let mantissa := nbits &&& 0x007FFFFF
  let pos := 32 - exp
  Vector.ofFn fun j =>
    if pos ≤ j ∧ j < pos + 3 then (mantissa >>> UInt32.ofNat (8 * (2 - (j - pos)))).toUInt8 else 0

/-- `remote_job_t`. -/
structure FetchedJob extends RemoteJob where
  jobId : UInt32
  target : Vector UInt8 32
  targetLen : ℤ
  valid : Bool

/-- The part of `fetch_job` that reads the document. -/
def readJob (p : Platform) (root : Json) : Except Fault (Option FetchedJob) :=
  match root.getObjectItem "job_id", root.getObjectItem "prevhash",
    root.getObjectItem "merkle_root", root.getObjectItem "version", root.getObjectItem "nbits",
    root.getObjectItem "ntime" with
  | some jobId, some prevhash, some merkle, some version, some nbits, some ntime =>
    match prevhash.asString, merkle.asString with
    | some prevhash, some merkle =>
      let nbits := p.numberField nbits
      .ok (some {
        jobId := p.numberField jobId
        prevhash := hashField (remoteHexToBytes 32 prevhash)
        merkleRoot := hashField (remoteHexToBytes 32 merkle)
        version := p.numberField version
        nbits
        ntime := p.numberField ntime
        target := nbitsToTarget nbits
        targetLen := 32
        valid := true })
    | _, _ => .error .nullPointer
  | _, _, _, _, _, _ => .ok none

/-- `fetch_job`; there is no reply when the request fails. -/
def fetchJob (p : Platform) (reply : Option HttpReply) : Except Fault (Option FetchedJob) :=
  match reply with
  | none => .ok none
  | some reply =>
    if reply.status ≠ 200 then .ok none
    else match p.parse (reply.body.take 2047) with
      | none => .ok none
      | some root => readJob p root

/-- The body that `submit_share` posts. -/
def submitShareBody (jobId nonce ntime version : UInt32) : CStr :=
  snprintf 256 (cstr "\x7b\"job_id\":" ++ decimal jobId.toNat ++ cstr ",\"nonce\":" ++
    decimal nonce.toNat ++ cstr ",\"ntime\":" ++ decimal ntime.toNat ++ cstr ",\"version\":" ++
    decimal version.toNat ++ cstr "\x7d")

/-- The cast of a double in the range of `uint32_t` is exact. -/
def Platform.CastsExactly (p : Platform) : Prop :=
  ∀ (n : Number) (k : ℕ), n.valuedouble = k → k < 2 ^ 32 → p.castUInt32 n = UInt32.ofNat k

/-! ### Bytes as text -/

theorem isDigit_hexOfBytes {bytes : List UInt8} {b : UInt8} (hb : b ∈ hexOfBytes bytes) :
    isDigit 16 b = true := by
  obtain ⟨byte, -, hb⟩ := List.mem_flatMap.mp hb
  exact isDigit_hexPadded hb

/-- A hexadecimal digit is a character that JSON text shows as it is. -/
theorem plain_of_isDigit {b : UInt8} (h : isDigit 16 b = true) :
    32 ≤ b ∧ b < 127 ∧ b ≠ 34 ∧ b ≠ 92 := by
  have hvalue : digitValue b < 16 := of_decide_eq_true h
  revert hvalue
  revert b
  decide +kernel

theorem plain_hexOfBytes (bytes : List UInt8) : Plain (hexOfBytes bytes) :=
  fun _ hb => plain_of_isDigit (isDigit_hexOfBytes hb)

/-- Of two digits `sscanf` makes what `strtoul` does. -/
theorem scanHexByte_of_digits {a b : UInt8} (ha : isDigit 16 a = true) (rest : CStr) :
    scanHexByte (a :: b :: rest) = some (strtoul 16 [a, b]).toUInt8 := by
  have hvalue : digitValue a < 16 := of_decide_eq_true ha
  have hblank : ¬ isSpace a = true := by
    intro hspace
    rw [digitValue_of_isSpace hspace] at hvalue
    omega
  have hsign : readSign [a, b] = (false, [a, b]) := by
    unfold readSign
    split
    next heq =>
      obtain rfl := (List.cons_eq_cons.mp heq).1
      exact absurd hvalue (by decide)
    next heq =>
      obtain rfl := (List.cons_eq_cons.mp heq).1
      exact absurd hvalue (by decide)
    next => rfl
  unfold scanHexByte
  rw [List.dropWhile_cons_of_neg hblank, List.take_succ_cons, List.take_succ_cons, List.take_zero]
  simp only [hsign, ha, if_true]

/-- On digits the remote miner reads what the stratum client does. -/
theorem remoteHexToBytes_of_digits (len : ℕ) {hex : CStr} (h : ∀ b ∈ hex, isDigit 16 b = true) :
    remoteHexToBytes len hex = hexToBytes len hex := by
  fun_induction hexToBytes len hex with
  | case1 len a b hex ih =>
    have ha : isDigit 16 a = true := h a List.mem_cons_self
    rw [remoteHexToBytes, scanHexByte_of_digits ha]
    simp only [ih fun c hc => h c (List.mem_cons_of_mem _ (List.mem_cons_of_mem _ hc))]
  | case2 len hex hne =>
    unfold remoteHexToBytes
    split
    next len a b hex => exact absurd rfl (hne len a b hex rfl)
    next => rfl

/-- A hash is read back from its text. -/
theorem hashField_remoteHexToBytes (v : Vector UInt8 32) :
    hashField (remoteHexToBytes 32 (hexOfBytes v.toList)) = v := by
  have hread := hexToBytes_hexOfBytes v.toList
  rw [Vector.length_toList] at hread
  rw [remoteHexToBytes_of_digits 32 fun _ => isDigit_hexOfBytes, hread, hashField_toList]

/-! ### The texts -/

theorem allPlain_jobMembers (job : Job) (hashprice : Option ℚ) :
    AllPlain (jobMembers job hashprice) := by
  have hprice : ((hashprice.map Value.number).getD .null).Plain := by
    cases hashprice <;> trivial
  exact .cons (by decide) trivial <|
    .cons (by decide) (plain_hexOfBytes _) <|
    .cons (by decide) (plain_hexOfBytes _) <|
    .cons (by decide) trivial <|
    .cons (by decide) trivial <|
    .cons (by decide) trivial <|
    .cons (by decide) hprice .nil

/-- The job document fits the buffer it is read into. -/
theorem length_jobDocument_le {number : ℚ → CStr} (hlength : ∀ q, (number q).length ≤ 25)
    (job : Job) (hashprice : Option ℚ) :
    (printFlat number (jobMembers job hashprice)).length ≤ 2047 := by
  have hnumber : ∀ q, ((Value.number q).print number).length ≤ 66 := fun q =>
    (hlength q).trans (by decide)
  have hhash : ∀ v : Vector UInt8 32,
      ((Value.text (hexOfBytes v.toList)).print number).length ≤ 66 := by
    intro v
    change (34 :: hexOfBytes v.toList ++ [34]).length ≤ 66
    rw [List.length_append, List.length_cons, length_hexOfBytes, Vector.length_toList]
    exact le_rfl
  have hprice : (((hashprice.map Value.number).getD .null).print number).length ≤ 66 := by
    cases hashprice with
    | none => exact (by decide : (cstr "null").length ≤ 66)
    | some q => exact hnumber q
  have hmember : ∀ m ∈ jobMembers job hashprice, (printMember number m).length ≤ 80 := by
    have hbound : ∀ {name : CStr} {v : Value}, name.length ≤ 11 → (v.print number).length ≤ 66 →
        (printMember number (name, v)).length ≤ 80 := by
      intro name v hname hvalue
      rw [length_printMember]
      exact Nat.add_le_add (Nat.add_le_add_right hname 3) hvalue
    simp only [jobMembers, List.forall_mem_cons, List.not_mem_nil, false_imp_iff, implies_true,
      and_true]
    exact ⟨hbound (by decide) (hnumber _), hbound (by decide) (hhash _),
      hbound (by decide) (hhash _), hbound (by decide) (hnumber _),
      hbound (by decide) (hnumber _), hbound (by decide) (hnumber _),
      hbound (by decide) hprice⟩
  exact (length_printFlat_le number hmember).trans (by decide : 7 * (80 + 1) + 2 ≤ 2047)

/-- The members of a posted share. -/
def shareMembers (jobId nonce ntime version : UInt32) : List (CStr × Value) :=
  [(cstr "job_id", .numeral jobId.toNat), (cstr "nonce", .numeral nonce.toNat),
    (cstr "ntime", .numeral ntime.toNat), (cstr "version", .numeral version.toNat)]

theorem allPlain_shareMembers (jobId nonce ntime version : UInt32) :
    AllPlain (shareMembers jobId nonce ntime version) := by
  have hword : ∀ n : UInt32, n.toNat < 2 ^ 53 := fun n => n.toNat_lt.trans (by decide)
  exact .cons (by decide) (hword jobId) <| .cons (by decide) (hword nonce) <|
    .cons (by decide) (hword ntime) <| .cons (by decide) (hword version) .nil

section ShareBody

variable (number : ℚ → CStr) (jobId nonce ntime version : UInt32)

theorem length_shareText_le :
    (printFlat number (shareMembers jobId nonce ntime version)).length ≤ 102 := by
  have hbound : ∀ {name : CStr} (n : UInt32), name.length ≤ 11 →
      (printMember number (name, .numeral n.toNat)).length ≤ 24 := by
    intro name n hname
    have hdigits : (decimal n.toNat).length ≤ 10 :=
      length_decimal_le (by omega) (lt_trans n.toNat_lt (by norm_num))
    rw [length_printMember]
    exact Nat.add_le_add (Nat.add_le_add_right hname 3) hdigits
  refine length_printFlat_le number (k := 24) ?_
  simp only [shareMembers, List.forall_mem_cons, List.not_mem_nil, false_imp_iff, implies_true,
    and_true]
  exact ⟨hbound _ (by decide), hbound _ (by decide), hbound _ (by decide),
    hbound _ (by decide)⟩

/-- The body is the text of an object, and fits its buffer. -/
theorem submitShareBody_eq : submitShareBody jobId nonce ntime version
    = printFlat number (shareMembers jobId nonce ntime version) := by
  have htext : cstr "\x7b\"job_id\":" ++ decimal jobId.toNat ++ cstr ",\"nonce\":" ++
      decimal nonce.toNat ++ cstr ",\"ntime\":" ++ decimal ntime.toNat ++ cstr ",\"version\":" ++
      decimal version.toNat ++ cstr "\x7d"
      = printFlat number (shareMembers jobId nonce ntime version) := by
    have hjob : cstr "\x7b\"job_id\":" = 123 :: inQuotes (cstr "job_id") ++ [58] := rfl
    have hnonce : cstr ",\"nonce\":" = 44 :: inQuotes (cstr "nonce") ++ [58] := rfl
    have hntime : cstr ",\"ntime\":" = 44 :: inQuotes (cstr "ntime") ++ [58] := rfl
    have hversion : cstr ",\"version\":" = 44 :: inQuotes (cstr "version") ++ [58] := rfl
    have hclose : cstr "\x7d" = [125] := rfl
    rw [hjob, hnonce, hntime, hversion, hclose]
    simp only [shareMembers, printFlat, printRest, printMember, Value.print, List.append_assoc,
      List.cons_append, List.nil_append]
  unfold submitShareBody
  rw [htext]
  exact snprintf_of_length_lt ((length_shareText_le number _ _ _ _).trans_lt (by decide))

end ShareBody

/-! ### The round trip -/

/-- A job as the remote miner holds it. -/
def Job.fetched (job : Job) : FetchedJob where
  toRemoteJob := job.remote
  jobId := job.jobId
  target := nbitsToTarget job.nbits
  targetLen := 32
  valid := true

section RoundTrip

variable {p : Platform} (hcast : p.CastsExactly)
include hcast

theorem numberField_of_reads {n : UInt32} {j : Json} (h : ReadsAs (.number n.toNat) j) :
    p.numberField j = n := by
  obtain ⟨num, rfl, hvalue⟩ := h n.toNat rfl (n.toNat_lt.trans (by decide))
  change p.castUInt32 num = n
  rw [hcast num n.toNat hvalue n.toNat_lt, UInt32.ofNat_toNat]

theorem numberField_of_reads_numeral {n : UInt32} {j : Json} (h : ReadsAs (.numeral n.toNat) j) :
    p.numberField j = n := by
  obtain ⟨num, rfl, hvalue⟩ := h
  change p.castUInt32 num = n
  rw [hcast num n.toNat hvalue n.toNat_lt, UInt32.ofNat_toNat]

/-- The remote miner's copy of a job, from the document it is read from. -/
theorem readJob_of_reads {job : Job} {hashprice : Option ℚ} {nodes : List (CStr × Json)}
    (h : ReadAll (jobMembers job hashprice) nodes) :
    readJob p (.object nodes) = .ok (some job.fetched) := by
  obtain ⟨jobId, _, hjobId, h₁, rfl⟩ := h.exists_cons
  obtain ⟨prevhash, _, hprevhash, h₂, rfl⟩ := h₁.exists_cons
  obtain ⟨merkle, _, hmerkle, h₃, rfl⟩ := h₂.exists_cons
  obtain ⟨version, _, hversion, h₄, rfl⟩ := h₃.exists_cons
  obtain ⟨nbits, _, hnbits, h₅, rfl⟩ := h₄.exists_cons
  obtain ⟨ntime, _, hntime, -, rfl⟩ := h₅.exists_cons
  obtain rfl : prevhash = .string (hexOfBytes job.prevhash.toList) := hprevhash
  obtain rfl : merkle = .string (hexOfBytes job.merkleRoot.toList) := hmerkle
  change Except.ok (some (FetchedJob.mk
    ⟨hashField (remoteHexToBytes 32 (hexOfBytes job.prevhash.toList)),
      hashField (remoteHexToBytes 32 (hexOfBytes job.merkleRoot.toList)),
      p.numberField version, p.numberField nbits, p.numberField ntime⟩
    (p.numberField jobId) (nbitsToTarget (p.numberField nbits)) 32 true)) = _
  rw [hashField_remoteHexToBytes, hashField_remoteHexToBytes, numberField_of_reads hcast hjobId,
    numberField_of_reads hcast hversion, numberField_of_reads hcast hnbits,
    numberField_of_reads hcast hntime]
  rfl

/-- The fields of a share, from the body it is read from. -/
theorem postedSubmit_of_reads {body : CStr} {jobId nonce ntime version : UInt32}
    {nodes : List (CStr × Json)} (hparse : p.parse body = some (.object nodes))
    (h : ReadAll (shareMembers jobId nonce ntime version) nodes) :
    p.postedSubmit body = .ok ⟨jobId, ntime, nonce, version⟩ := by
  obtain ⟨jJobId, _, hjobId, h₁, rfl⟩ := h.exists_cons
  obtain ⟨jNonce, _, hnonce, h₂, rfl⟩ := h₁.exists_cons
  obtain ⟨jNtime, _, hntime, h₃, rfl⟩ := h₂.exists_cons
  obtain ⟨jVersion, _, hversion, -, rfl⟩ := h₃.exists_cons
  unfold Platform.postedSubmit
  rw [hparse]
  change Except.ok (Submit.mk (p.numberField jJobId) (p.numberField jNtime)
    (p.numberField jNonce) (p.numberField jVersion)) = _
  rw [numberField_of_reads_numeral hcast hjobId, numberField_of_reads_numeral hcast hnonce,
    numberField_of_reads_numeral hcast hntime, numberField_of_reads_numeral hcast hversion]

end RoundTrip

/-- **Round trip.** With a JSON library that is exact on integers below `2^53`, `fetch_job`
reads from the document of `api_get_mining_job` the job it was made of, and
`api_post_mining_share` reads from the body of `submit_share` what was submitted. -/
theorem http_mining_round_trip (p : Platform) (number : ℚ → CStr) (hjson : Exact number p.parse)
    (hcast : p.CastsExactly) :
    (∀ (job : Job) (hashprice : Option ℚ), job.valid = true →
      ∃ fetched, fetchJob p (some (apiGetMiningJob number job hashprice)) = .ok (some fetched) ∧
        fetched.jobId = job.jobId ∧ fetched.prevhash = job.prevhash ∧
        fetched.merkleRoot = job.merkleRoot ∧ fetched.version = job.version ∧
        fetched.nbits = job.nbits ∧ fetched.ntime = job.ntime) ∧
    ∀ (jobId nonce ntime version : UInt32) (r : PostRequest),
      r.body = some (submitShareBody jobId nonce ntime version) →
      r.contentLen = (submitShareBody jobId nonce ntime version).length →
      ∃ s, r.submit p = .ok s ∧ s.jobId = jobId ∧ s.nonce = nonce ∧ s.ntime = ntime := by
  refine ⟨?_, ?_⟩
  · intro job hashprice hvalid
    obtain ⟨nodes, hparse, hread⟩ := hjson.parse_flat _ (allPlain_jobMembers job hashprice)
    refine ⟨job.fetched, ?_, rfl, rfl, rfl, rfl, rfl, rfl⟩
    have hfits := length_jobDocument_le hjson.length_number job hashprice
    unfold apiGetMiningJob fetchJob
    rw [if_pos hvalid]
    simp only [ne_eq, not_true_eq_false, if_false, List.take_of_length_le hfits, hparse]
    exact readJob_of_reads hcast hread
  · intro jobId nonce ntime version r hbody hlen
    obtain ⟨nodes, hparse, hread⟩ :=
      hjson.parse_flat _ (allPlain_shareMembers jobId nonce ntime version)
    refine ⟨⟨jobId, ntime, nonce, version⟩, ?_, rfl, rfl, rfl⟩
    have hle := length_shareText_le number jobId nonce ntime version
    have hpos : 0 < (printFlat number (shareMembers jobId nonce ntime version)).length :=
      List.length_pos_of_ne_nil (List.cons_ne_nil _ _)
    rw [submitShareBody_eq number] at hbody hlen
    unfold PostRequest.submit
    rw [hlen, hbody, if_neg (by omega)]
    exact postedSubmit_of_reads hcast hparse hread

/-- A platform with the reader of flat objects. Only the parser and the cast matter. -/
def flatPlatform : Platform where
  sha256d := fun _ => Vector.replicate 32 0
  quotient := fun _ => 1
  printTenths := fun _ => cstr "1.0"
  parse := readFlat
  castUInt32 := fun n => UInt32.ofNat (n.valuedouble.num.toNat / n.valuedouble.den)
  shareCb := none

theorem castsExactly_flatPlatform : flatPlatform.CastsExactly := by
  intro n k hvalue _
  change UInt32.ofNat (n.valuedouble.num.toNat / n.valuedouble.den) = UInt32.ofNat k
  rw [hvalue, Rat.num_natCast, Rat.den_natCast, Int.toNat_natCast, Nat.div_one]

/-- A job with its words in the upper half of their range. -/
def highJob : Job :=
  ⟨0xFFFFFFFF, Vector.ofFn fun i => UInt8.ofNat (8 * i), Vector.replicate 32 0x0A, 0x80000000,
    0xFF00FFFF, 0x80000001, Vector.replicate 32 0, 32, true, false⟩

/-- It arrives, and so does a share of it. -/
theorem highJob_round_trip :
    (∃ fetched, fetchJob flatPlatform (some (apiGetMiningJob truncated highJob (some 7)))
        = .ok (some fetched) ∧ fetched.jobId = 0xFFFFFFFF ∧
      fetched.prevhash = highJob.prevhash ∧ fetched.merkleRoot = highJob.merkleRoot ∧
      fetched.version = 0x80000001 ∧ fetched.nbits = 0xFF00FFFF ∧ fetched.ntime = 0x80000000) ∧
    ∃ s, PostRequest.submit flatPlatform
        ⟨2, (submitShareBody 0xFFFFFFFF 0xFFFFFFFE 0x80000000 0x80000001).length,
          some (submitShareBody 0xFFFFFFFF 0xFFFFFFFE 0x80000000 0x80000001), true, smallShare⟩
        = .ok s ∧ s.jobId = 0xFFFFFFFF ∧ s.nonce = 0xFFFFFFFE ∧ s.ntime = 0x80000000 := by
  obtain ⟨hjob, hshare⟩ := http_mining_round_trip flatPlatform truncated exact_readFlat
    castsExactly_flatPlatform
  exact ⟨hjob highJob (some 7) rfl, hshare _ _ _ 0x80000001 _ rfl rfl⟩

end Mining

end TollGate
