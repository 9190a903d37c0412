import TollGate.Lib.CJson
import TollGate.Lib.CText
import TollGate.Mining.Header

/-!
# Stratum lines

The texts that the stratum client and the stratum proxy write, and the way each of
them reads what the other wrote. The proxy scans a line by hand: `handle_line` looks
for `"method"` and `"params"`, cuts the parameters of `mining.submit` at the commas
and reads them by position. The client reads a `mining.notify` line through cJSON.

The client writes five parameters into a submission, user, job, extranonce2, time and
nonce, and the proxy takes the third for the time and the fourth for the nonce.
`submit_recovered_iff` says when a submission is read back nevertheless. A notified
job is read back up to its id, which `atoi` saturates (`notify_recovered_iff`).
-/

namespace TollGate

namespace Mining

open CStr CJson

/-! ### What the proxy reads from a line -/

/-- The method of a line, as `handle_line` finds it. -/
def methodOf (line : CStr) : Option CStr :=
  match strstr (cstr "\"method\"") line with
  | none => none
  | some start =>
    match strstr (cstr "\":\"") start with
    | none => none
    | some m => some (((m.drop 3).takeWhile (· ≠ 34)).take 63)

/-- The request id of a line, as `handle_line` finds it. -/
def idOf (line : CStr) : UInt32 :=
  match strstr (cstr "\"id\"") line with
  | none => 0
  | some start =>
    match strstr (cstr ":") start with
    | none => 0
    | some v => strtoul 10 ((v.drop 1).dropWhile (· = 32))

/-- What `handle_line` leaves of a parameter: blanks and quotes before it go, and so do
quotes, blanks and brackets after its first byte. -/
def trimParam (tok : CStr) : CStr :=
  match tok.dropWhile fun b => b = 32 || b = 34 with
  | [] => []
  | b :: bs => b :: bs.rdropWhile fun b => b = 34 || b = 32 || b = 93

/-- The parameters of a submission. -/
structure Submit where
  jobId : UInt32
  ntime : UInt32
  nonce : UInt32
  version : UInt32
deriving DecidableEq

/-- The text after the bracket that opens the parameters. -/
def paramsText (line : CStr) : Option CStr :=
  match strstr (cstr "\"params\"") line with
  | none => none
  | some params => (strchr 91 params).map (List.drop 1)

/-- The parameters `handle_line` reads from a submission, for the version of the
current job. -/
def submitParams (jobVersion : UInt32) (line : CStr) : Submit :=
  let toks := ((paramsText line).map fun text => (strtok 44 text).map trimParam).getD []
  { jobId := (toks[1]?.map (strtoul 10)).getD 0
    ntime := (toks[2]?.map (strtoul 16)).getD 0
    nonce := (toks[3]?.map (strtoul 16)).getD 0
    version := (toks[4]?.map (strtoul 16)).getD jobVersion }

/-! ### What the client writes -/

/-- The text of `tollgate_core_stratum_build_submit`. -/
def submitText (reqId : UInt32) (user : CStr) (jobId : UInt32) (extranonce2 : CStr)
    (ntime nonce : UInt32) : CStr :=
  cstr "\x7b\"id\":" ++ decimal reqId.toNat ++
    cstr ",\"method\":\"mining.submit\",\"params\":[\"" ++ user ++ cstr "\",\"" ++
    decimal jobId.toNat ++ cstr "\",\"" ++ extranonce2 ++ cstr "\",\"" ++
    hexPadded 8 ntime.toNat ++ cstr "\",\"" ++ hexPadded 8 nonce.toNat ++ cstr "\"]\x7d\n"

/-- `tollgate_core_stratum_build_submit`. -/
def buildSubmit (bufSize : ℕ) (reqId : UInt32) (user : CStr) (jobId : UInt32)
    (extranonce2 : CStr) (ntime nonce : UInt32) : CStr :=
  snprintf bufSize (submitText reqId user jobId extranonce2 ntime nonce)

/-! ### Submissions read back -/

/-- A parameter as it stands in the text. -/
def quoted (s : CStr) : CStr := 34 :: s ++ [34]

/-- A hexadecimal string. -/
def HexStr := { s : CStr // ∀ b ∈ s, isDigit 16 b = true }

theorem isDigit_sixteen {b : UInt8} (h : isDigit 10 b = true) : isDigit 16 b = true := by
  unfold isDigit at h ⊢
  rw [decide_eq_true_eq] at h ⊢
  omega

/-- No byte of a hexadecimal string is one of the given other bytes. -/
theorem not_mem_of_hex {s : CStr} (h : ∀ b ∈ s, isDigit 16 b = true) {c : UInt8}
    (hc : isDigit 16 c = false) : c ∉ s := by
  intro hmem
  rw [h c hmem] at hc
  exact Bool.noConfusion hc

/-- The quotes are cut off a hexadecimal parameter. -/
theorem trimParam_quoted {s : CStr} (h : ∀ b ∈ s, isDigit 16 b = true) :
    trimParam (quoted s) = s := by
  cases s with
  | nil => rfl
  | cons d ds =>
    have hblank : d ≠ 32 := List.ne_of_not_mem_cons (not_mem_of_hex h rfl) |>.symm
    have hquote : d ≠ 34 := List.ne_of_not_mem_cons (not_mem_of_hex h rfl) |>.symm
    have hfront : (quoted (d :: ds)).dropWhile (fun b => b = 32 || b = 34) = d :: (ds ++ [34]) := by
      unfold quoted
      rw [List.cons_append, List.dropWhile_cons_of_pos rfl, List.cons_append,
        List.dropWhile_cons_of_neg (by simp [hblank, hquote])]
    have hback : (ds ++ [34]).rdropWhile (fun b => b = 34 || b = 32 || b = 93) = ds := by
      rw [List.rdropWhile_concat_pos _ _ _ rfl, List.rdropWhile_eq_self_iff]
      intro hne hcut
      have hlast : ds.getLast hne ∈ d :: ds := List.mem_cons_of_mem _ (List.getLast_mem hne)
      simp only [Bool.or_eq_true, decide_eq_true_eq] at hcut
      rcases hcut with (hcut | hcut) | hcut
      all_goals exact not_mem_of_hex h rfl (hcut ▸ hlast)
    unfold trimParam
    rw [hfront]
    simp only [hback]

section Submission

variable (reqId : UInt32) (user : CStr) (jobId : UInt32) (extranonce2 : CStr)
  (ntime nonce : UInt32)

/-- The parameters of a submission, as they stand in its text. -/
def submitFields : CStr :=
  quoted user ++ 44 :: (quoted (decimal jobId.toNat) ++ 44 :: (quoted extranonce2 ++
    44 :: (quoted (hexPadded 8 ntime.toNat) ++ 44 :: (34 :: hexPadded 8 nonce.toNat ++
      cstr "\"]\x7d"))))

/-- The line of a submission and its end. -/
theorem submitText_eq :
    submitText reqId user jobId extranonce2 ntime nonce =
      cstr "\x7b\"id\":" ++ (decimal reqId.toNat ++
        (cstr ",\"method\":\"mining.submit\",\"params\":[" ++
          submitFields user jobId extranonce2 ntime nonce)) ++ [10] := by
  have hopen : cstr ",\"method\":\"mining.submit\",\"params\":[\"" =
      cstr ",\"method\":\"mining.submit\",\"params\":[" ++ [34] := rfl
  have hnext : cstr "\",\"" = [34, 44, 34] := rfl
  have hclose : cstr "\"]\x7d\n" = cstr "\"]\x7d" ++ [10] := rfl
  unfold submitText submitFields quoted
  simp only [hopen, hnext, hclose, List.append_assoc, List.cons_append, List.nil_append]

/-- The line of a submission, as it is handed to the proxy. -/
theorem dropLast_submitText :
    (submitText reqId user jobId extranonce2 ntime nonce).dropLast =
      cstr "\x7b\"id\":" ++ (decimal reqId.toNat ++
        (cstr ",\"method\":\"mining.submit\",\"params\":[" ++
          submitFields user jobId extranonce2 ntime nonce)) := by
  rw [submitText_eq, List.dropLast_concat]

/-- The quotation mark stands in no printed number. -/
theorem quote_not_mem_decimal (n : ℕ) : (34 : UInt8) ∉ decimal n :=
  not_mem_decimal rfl n

/-- Another member than the request id is looked for behind it. -/
theorem strstr_afterId {b : UInt8} (hid : b ≠ 105) (hcolon : b ≠ 58) (needle text : CStr) :
    strstr (34 :: b :: needle) (cstr "\x7b\"id\":" ++ (decimal reqId.toNat ++ text)) =
      strstr (34 :: b :: needle) text :=
  have hbytes : cstr "\x7b\"id\":" = [123, 34, 105, 100, 34, 58] := rfl
  calc strstr (34 :: b :: needle) (cstr "\x7b\"id\":" ++ (decimal reqId.toNat ++ text))
      = strstr (34 :: b :: needle) (decimal reqId.toNat ++ text) := by
        simp [hbytes, strstr, hid, hcolon]
    _ = strstr (34 :: b :: needle) text := strstr_append (quote_not_mem_decimal _) _

theorem methodOf_submitText :
    methodOf (submitText reqId user jobId extranonce2 ntime nonce).dropLast =
      some (cstr "mining.submit") := by
  have hfind : strstr (cstr "\"method\"")
      (submitText reqId user jobId extranonce2 ntime nonce).dropLast =
        some (cstr "\"method\":\"mining.submit\",\"params\":[" ++
          submitFields user jobId extranonce2 ntime nonce) := by
    rw [dropLast_submitText]
    exact strstr_afterId reqId (by decide) (by decide) _ _
  unfold methodOf
  rw [hfind]
  rfl

theorem paramsText_submitText :
    paramsText (submitText reqId user jobId extranonce2 ntime nonce).dropLast =
      some (submitFields user jobId extranonce2 ntime nonce) := by
  have hfind : strstr (cstr "\"params\"")
      (submitText reqId user jobId extranonce2 ntime nonce).dropLast =
        some (cstr "\"params\":" ++ 91 :: submitFields user jobId extranonce2 ntime nonce) := by
    rw [dropLast_submitText]
    exact strstr_afterId reqId (by decide) (by decide) _ _
  unfold paramsText
  rw [hfind]
  simp only
  rw [strchr_append_cons (by decide)]
  rfl

/-- The parameters of the submission, cut at the commas: the pieces of the user name
come first. -/
theorem strtok_submitFields (hen2 : ∀ b ∈ extranonce2, isDigit 16 b = true) :
    ∃ last, (strtok 44 (submitFields user jobId extranonce2 ntime nonce)).map trimParam =
      (strtok 44 (quoted user)).map trimParam ++
        decimal jobId.toNat :: extranonce2 :: hexPadded 8 ntime.toNat :: last := by
  have hpiece : ∀ s : CStr, (∀ b ∈ s, isDigit 16 b = true) →
      (strtok 44 (quoted s)).map trimParam = [s] := by
    intro s hs
    have hcomma : (44 : UInt8) ∉ quoted s := by
      unfold quoted
      rw [List.cons_append, List.mem_cons, List.mem_append, List.mem_singleton]
      rintro (h | h | h)
      · exact absurd h (by decide)
      · exact not_mem_of_hex hs rfl h
      · exact absurd h (by decide)
    rw [strtok_of_not_mem hcomma (List.cons_ne_nil _ _), List.map_singleton, trimParam_quoted hs]
  have hjob := hpiece (decimal jobId.toNat) (fun _ hb => isDigit_sixteen (isDigit_decimal hb))
  have hntime := hpiece (hexPadded 8 ntime.toNat) (fun _ hb => isDigit_hexPadded hb)
  refine ⟨(strtok 44 (34 :: hexPadded 8 nonce.toNat ++ cstr "\"]\x7d")).map trimParam, ?_⟩
  unfold submitFields
  simp only [strtok_append_cons, List.map_append, hpiece _ hen2, hjob, hntime, List.cons_append,
    List.nil_append]

/-- The proxy takes the line for a submission of this job, time and nonce. -/
def Recovered (jobVersion : UInt32) (line : CStr) (jobId ntime nonce : UInt32) : Prop :=
  methodOf line = some (cstr "mining.submit") ∧ (submitParams jobVersion line).jobId = jobId ∧
    (submitParams jobVersion line).ntime = ntime ∧ (submitParams jobVersion line).nonce = nonce

instance (jobVersion : UInt32) (line : CStr) (jobId ntime nonce : UInt32) :
    Decidable (Recovered jobVersion line jobId ntime nonce) :=
  inferInstanceAs (Decidable (_ ∧ _ ∧ _ ∧ _))

/-- What stands at the places the proxy reads is what it takes it for. After a user name
without a comma these are the job, the extranonce2 and the time. The pieces of a
user name with commas take the first places. -/
def Aligned : Prop :=
  match (strtok 44 (quoted user)).map trimParam with
  | [] => False
  | [_] => strtoul 16 extranonce2 = ntime ∧ ntime = nonce
  | [_, a] => strtoul 10 a = jobId ∧ strtoul 16 (decimal jobId.toNat) = ntime ∧
      strtoul 16 extranonce2 = nonce
  | [_, a, b] => strtoul 10 a = jobId ∧ strtoul 16 b = ntime ∧
      strtoul 16 (decimal jobId.toNat) = nonce
  | _ :: a :: b :: c :: _ => strtoul 10 a = jobId ∧ strtoul 16 b = ntime ∧ strtoul 16 c = nonce

/-- After a user name without a comma the time has to be the extranonce2 and the
nonce. -/
theorem aligned_iff_of_no_comma (h : (44 : UInt8) ∉ user) :
    Aligned user jobId extranonce2 ntime nonce ↔
      strtoul 16 extranonce2 = ntime ∧ ntime = nonce := by
  have hcomma : (44 : UInt8) ∉ quoted user := by
    simpa [quoted] using h
  unfold Aligned
  rw [strtok_of_not_mem hcomma (List.cons_ne_nil _ _)]
  rfl

theorem toNat_lt_hex (n : UInt32) : n.toNat < 16 ^ 8 := n.toNat_lt

end Submission

/-- **Exactly when a submission is read back.** For every request id, user name, job id,
extranonce2, time and nonce, and any buffer that holds the line. -/
theorem submit_recovered_iff (jobVersion reqId : UInt32) (user : CStr) (jobId : UInt32)
    (extranonce2 : HexStr) (ntime nonce : UInt32) {bufSize : ℕ}
    (hfits : (submitText reqId user jobId extranonce2.val ntime nonce).length < bufSize) :
    Recovered jobVersion
        (buildSubmit bufSize reqId user jobId extranonce2.val ntime nonce).dropLast jobId ntime
        nonce ↔
      Aligned user jobId extranonce2.val ntime nonce := by
  obtain ⟨last, hfields⟩ :=
    strtok_submitFields user jobId extranonce2.val ntime nonce extranonce2.property
  have huser : (strtok 44 (quoted user)).map trimParam ≠ [] := by
    rw [Ne, List.map_eq_nil_iff]
    exact strtok_cons_ne_nil (by decide) _
  unfold Recovered buildSubmit
  rw [snprintf_of_length_lt hfits, methodOf_submitText]
  unfold submitParams Aligned
  rw [paramsText_submitText]
  simp only [Option.map_some, Option.getD_some, hfields, true_and]
  -- the cases are the number of pieces of the user name
  match hpieces : (strtok 44 (quoted user)).map trimParam, huser with
  | [_], _ =>
    simp [strtoul_decimal, strtoul_hexPadded ntime (toNat_lt_hex ntime)]
  | [_, a], _ => simp
  | [_, a, b], _ => simp
  | _ :: a :: b :: c :: _, _ => simp

/-- The extranonce2 the client sends. -/
def zeroExtranonce2 : HexStr := ⟨cstr "0000000000000000", by decide +kernel⟩

/-- A submission with the time and the nonce zero is read back. -/
theorem zero_submit_recovered :
    Recovered 0x20000000
      (buildSubmit 512 1 (cstr "worker") 7 zeroExtranonce2.val 0 0).dropLast 7 0 0 :=
  (submit_recovered_iff 0x20000000 1 (cstr "worker") 7 zeroExtranonce2 0 0 (by decide)).mpr
    ((aligned_iff_of_no_comma _ _ _ _ _ (by decide)).mpr (by decide))

/-- Any other is not: here the time is taken for the nonce, and the extranonce2 for the
time. -/
theorem submit_not_recovered :
    ¬ Recovered 0x20000000
      (buildSubmit 512 1 (cstr "worker") 7 zeroExtranonce2.val 0x6482AB00 0x12345678).dropLast 7
      0x6482AB00 0x12345678 := by
  decide

/-! ### Notified jobs -/

/-- The loop that prints the bytes with `%02x`. -/
def hexOfBytes (bytes : List UInt8) : CStr := bytes.flatMap fun b => hexPadded 2 b.toNat

/-- The text of a `mining.notify` line. -/
def notifyText (job : Job) : CStr :=
  cstr "\x7b\"id\":null,\"method\":\"mining.notify\",\"params\":[\"" ++
    decimal job.jobId.toNat ++ cstr "\",\"" ++ hexOfBytes job.prevhash.toList ++
    cstr "\",\"\",\"\",\"\",\"" ++ hexPadded 8 job.version.toNat ++ cstr "\",\"" ++
    hexPadded 8 job.nbits.toNat ++ cstr "\",\"" ++ hexPadded 8 job.ntime.toNat ++ cstr "\"," ++
    cstr (if job.clean then "true" else "false") ++ cstr "]\x7d\n"

/-- `SEND_BUF_SIZE`. -/
abbrev sendBufSize : ℕ := 1024

/-- The line `tollgate_core_stratum_proxy_set_job` sends to the authorized miners. -/
def setJobLine (job : Job) : Option CStr :=
  if job.valid then some (snprintf sendBufSize (notifyText job)) else none

/-- The lines `handle_subscribe` sends to a miner. -/
def subscribeLines (job : Job) (ip id : UInt32) : List CStr :=
  snprintf sendBufSize (cstr "\x7b\"id\":" ++ decimal id.toNat ++
      cstr ",\"result\":[[[\"mining.notify\",\"" ++ hexPadded 8 ip.toNat ++ cstr "\"]],\"" ++
      hexPadded 8 (ip ^^^ 0x5a5a5a5a).toNat ++ cstr "\",8],\"error\":null\x7d\n") ::
    if job.valid then [snprintf sendBufSize (notifyText job)] else []

/-- `tollgate_core_stratum_hex_to_bytes`: the bytes written, at most `len`. -/
def hexToBytes : ℕ → CStr → List UInt8
  | len + 1, a :: b :: hex => (strtoul 16 [a, b]).toUInt8 :: hexToBytes len hex
  | _, _ => []

/-- The field of 32 zero bytes into which the bytes are written. -/
def hashField (bytes : List UInt8) : Vector UInt8 32 := Vector.ofFn fun i => bytes.getD i 0

/-- A hexadecimal parameter, zero when it is missing or no string. -/
def hexParam (item : Option Json) : UInt32 :=
  ((item.bind Json.asString).map (strtoul 16)).getD 0

/-- `tollgate_core_stratum_parse_notify`: nothing, or the job and what is written to
`out_nbits`. A job id or hash that is no string has no text to read. -/
def parseNotify (params : Option Json) : Except Fault (Option (Job × Option UInt32)) :=
  match params.bind Json.asArray with
  | none => .ok none
  | some items =>
    if items.length < 6 then .ok none
    else
      match items[0]?, items[1]?, items[6]? with
      | some pJobId, some pPrevhash, some pNbits =>
        match pJobId.asString, pPrevhash.asString with
        | some jobId, some prevhash =>
          .ok (some ({
            jobId := (atoi jobId).toUInt32
            prevhash := hashField (hexToBytes 32 prevhash)
            merkleRoot := Vector.replicate 32 0
            ntime := hexParam items[7]?
            nbits := hexParam (some pNbits)
            version := hexParam items[5]?
            target := Vector.replicate 32 0xFF
            targetLen := 32
            valid := true
            clean := false }, pNbits.asString.map (strtoul 16)))
        | _, _ => .error .nullPointer
      | _, _, _ => .ok none

/-- What the client's task makes of a `mining.notify` line: it is parsed, and the
parameters are given to `parse_notify`. -/
def readNotify (parse : CStr → Option Json) (line : CStr) :
    Except Fault (Option (Job × Option UInt32)) :=
  match parse line with
  | none => .ok none
  | some root => parseNotify (root.getObjectItemCaseSensitive "params")

/-- The JSON value of a `mining.notify` line. -/
def notifyTree (job : Job) : Json :=
  .object [(cstr "id", .null), (cstr "method", .string (cstr "mining.notify")),
    (cstr "params", .array [.string (decimal job.jobId.toNat),
      .string (hexOfBytes job.prevhash.toList), .string [], .string [], .string [],
      .string (hexPadded 8 job.version.toNat), .string (hexPadded 8 job.nbits.toNat),
      .string (hexPadded 8 job.ntime.toNat), .bool job.clean])]

/-- The line is read as a job with these fields. -/
def NotifyRecovered (parse : CStr → Option Json) (line : CStr) (job : Job) : Prop :=
  ∃ job' nbits, readNotify parse line = .ok (some (job', nbits)) ∧ job'.jobId = job.jobId ∧
    job'.prevhash = job.prevhash ∧ job'.version = job.version ∧ job'.nbits = job.nbits ∧
    job'.ntime = job.ntime

theorem strtoul_hexPadded_eight (n : UInt32) : strtoul 16 (hexPadded 8 n.toNat) = n :=
  strtoul_hexPadded n n.toNat_lt

theorem length_hexOfBytes (bytes : List UInt8) : (hexOfBytes bytes).length = 2 * bytes.length := by
  induction bytes with
  | nil => rfl
  | cons b bytes ih =>
    unfold hexOfBytes at ih ⊢
    rw [List.flatMap_cons, List.length_append, length_hexPadded, ih, List.length_cons]
    omega

/-- The bytes of a hash are read back from their digits. -/
theorem hexToBytes_hexOfBytes (bytes : List UInt8) :
    hexToBytes bytes.length (hexOfBytes bytes) = bytes := by
  induction bytes with
  | nil => rfl
  | cons b bytes ih =>
    have hbyte : (strtoul 16 (hexPadded 2 b.toNat)).toUInt8 = b := by
      have h : b.toUInt32.toNat < 16 ^ 2 := by
        rw [UInt8.toNat_toUInt32]
        exact b.toNat_lt
      have hread := strtoul_hexPadded b.toUInt32 h
      rw [UInt8.toNat_toUInt32] at hread
      rw [hread]
      exact UInt8.toUInt8_toUInt32 b
    change (strtoul 16 (hexPadded 2 b.toNat)).toUInt8 ::
      hexToBytes bytes.length (hexOfBytes bytes) = b :: bytes
    rw [hbyte, ih]

theorem hashField_toList (v : Vector UInt8 32) : hashField v.toList = v := by
  ext i hi
  simp [hashField]

/-- Every notify line fits the send buffer. -/
theorem length_notifyText_lt (job : Job) : (notifyText job).length < sendBufSize := by
  have hid : (decimal job.jobId.toNat).length ≤ 10 :=
    length_decimal_le (by omega) (lt_trans job.jobId.toNat_lt (by norm_num))
  have hclean : (cstr (if job.clean then "true" else "false")).length ≤ 5 := by
    cases job.clean <;> decide
  have hopen : (cstr "\x7b\"id\":null,\"method\":\"mining.notify\",\"params\":[\"").length = 47 :=
    rfl
  have hhash : (hexOfBytes job.prevhash.toList).length = 64 := by
    rw [length_hexOfBytes, Vector.length_toList]
  have hnext : (cstr "\",\"").length = 3 := rfl
  have hempty : (cstr "\",\"\",\"\",\"\",\"").length = 12 := rfl
  have hlast : (cstr "\",").length = 2 := rfl
  have hclose : (cstr "]\x7d\n").length = 3 := rfl
  unfold notifyText sendBufSize
  simp only [List.length_append, length_hexPadded, hopen, hhash, hnext, hempty, hlast, hclose]
  omega

/-- The parsed line gives the fields back, the id through `atoi`. -/
theorem parseNotify_notifyTree (job : Job) :
    parseNotify ((notifyTree job).getObjectItemCaseSensitive "params") =
      .ok (some ({ job with
        jobId := (atoi (decimal job.jobId.toNat)).toUInt32
        merkleRoot := Vector.replicate 32 0
        target := Vector.replicate 32 0xFF
        targetLen := 32
        valid := true
        clean := false }, some job.nbits)) := by
  have hhash : hashField (hexToBytes 32 (hexOfBytes job.prevhash.toList)) = job.prevhash := by
    have hread := hexToBytes_hexOfBytes job.prevhash.toList
    rw [Vector.length_toList] at hread
    rw [hread, hashField_toList]
  have hparam : ∀ n : UInt32, hexParam (some (.string (hexPadded 8 n.toNat))) = n :=
    strtoul_hexPadded_eight
  have hparams : (notifyTree job).getObjectItemCaseSensitive "params" =
      some (.array [.string (decimal job.jobId.toNat),
        .string (hexOfBytes job.prevhash.toList), .string [], .string [], .string [],
        .string (hexPadded 8 job.version.toNat), .string (hexPadded 8 job.nbits.toNat),
        .string (hexPadded 8 job.ntime.toNat), .bool job.clean]) := rfl
  rw [hparams]
  simp only [parseNotify, Option.bind_some, Json.asArray, Json.asString, List.length_cons,
    List.length_nil, Nat.reduceAdd, Nat.reduceLT, if_false, List.getElem?_cons_zero,
    List.getElem?_cons_succ, hhash, hparam, Option.map_some, strtoul_hexPadded_eight]

/-- **Exactly when a notified job is read back.** For every job the proxy holds and every
`mining.notify` line it sends, whether the job was just set or a miner subscribed,
when cJSON parses the line. -/
theorem notify_recovered_iff (parse : CStr → Option Json) (job : Job) {line : CStr}
    (hline : setJobLine job = some line ∨ ∃ ip id, (subscribeLines job ip id)[1]? = some line)
    (hparse : parse (notifyText job) = some (notifyTree job)) :
    NotifyRecovered parse line job ↔ job.jobId.toNat < 2 ^ 31 := by
  have htext : line = notifyText job := by
    have hfits := snprintf_of_length_lt (length_notifyText_lt job)
    rcases hline with h | ⟨ip, id, h⟩
    · unfold setJobLine at h
      cases hvalid : job.valid with
      | true => simpa [hvalid, hfits, eq_comm] using h
      | false => simp [hvalid] at h
    · unfold subscribeLines at h
      cases hvalid : job.valid with
      | true => simpa [hvalid, hfits, eq_comm] using h
      | false => simp [hvalid] at h
  have hread := parseNotify_notifyTree job
  unfold NotifyRecovered readNotify
  rw [htext, hparse]
  simp only [hread, Except.ok.injEq, Option.some.injEq, Prod.mk.injEq]
  refine ⟨?_, ?_⟩
  · rintro ⟨job', nbits, ⟨rfl, -⟩, hid, -⟩
    exact (atoi_decimal_iff job.jobId).mp hid
  · intro h
    exact ⟨_, _, ⟨rfl, rfl⟩, (atoi_decimal_iff job.jobId).mpr h, rfl, rfl, rfl, rfl⟩

/-- A parser that reads the lines of one job. -/
def parseLineOf (job : Job) (line : CStr) : Option Json :=
  if line = notifyText job then some (notifyTree job) else none

/-- The test's job is read back from the line that announces it. -/
theorem testJob_notify_recovered :
    NotifyRecovered (parseLineOf testJob) (notifyText testJob) testJob :=
  (notify_recovered_iff (parseLineOf testJob) testJob
    (.inl (congrArg some (snprintf_of_length_lt (length_notifyText_lt testJob)))) (if_pos rfl)).mpr
    (by decide)

/-- A job whose id is beyond the range of `atoi` is not. -/
theorem large_job_not_recovered :
    setJobLine { testJob with jobId := 0x80000000 } =
        some (notifyText { testJob with jobId := 0x80000000 }) ∧
      ¬ NotifyRecovered (parseLineOf { testJob with jobId := 0x80000000 })
        (notifyText { testJob with jobId := 0x80000000 }) { testJob with jobId := 0x80000000 } := by
  refine ⟨congrArg some (snprintf_of_length_lt (length_notifyText_lt _)), ?_⟩
  rintro ⟨job', nbits, hread, hid, -⟩
  have hparse : parseLineOf { testJob with jobId := 0x80000000 }
      (notifyText { testJob with jobId := 0x80000000 }) =
        some (notifyTree { testJob with jobId := 0x80000000 }) := if_pos rfl
  unfold readNotify at hread
  rw [hparse] at hread
  simp only [parseNotify_notifyTree, Except.ok.injEq, Option.some.injEq, Prod.mk.injEq] at hread
  obtain ⟨rfl, -⟩ := hread
  exact absurd hid (by decide)

end Mining

end TollGate
