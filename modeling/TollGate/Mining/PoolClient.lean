import TollGate.Lib.JsonWalk
import TollGate.Lib.Run
import TollGate.Mining.Requests

/-!
# Sizes from the pool

`handle_subscribe_response` keeps the size of the extranonce2 that a pool gives, whatever number it
is, and `stratum_client_submit_share` fills a buffer of 65 bytes with twice as many zeros. The line
is written with the user name of the configuration between quotes, into a buffer of 512 bytes, and
as many bytes are sent as it should have.

`says_requestText_iff` says when a request whose parameters are copied between quotes is one:
exactly if they are plain. `shares_right_iff` says in which runs all shares are safe and complete:
those in which no size above 32 is accepted and no connection is made under a user name that is not
plain.
-/

namespace TollGate

namespace Mining

open CStr CJson JsonText StepRun

/-! ### Parameters copied between quotes -/

/-- The strings between quotes, in an array. -/
def copiedArray (params : List CStr) : CStr :=
  91 :: (commas (params.map fun s => 34 :: (s ++ [34])) ++ [93])

/-- The request with its parameters copied between quotes. -/
def requestText (method : CStr) (id : ℕ) (params : List CStr) : CStr :=
  123 :: 34 :: (cstr "id" ++ 34 :: 58 :: (decimal id ++ 44 :: 34 :: (cstr "method" ++ 34 :: 58 ::
    34 :: (method ++ 34 :: 44 :: 34 :: (cstr "params" ++ 34 :: 58 ::
      (copiedArray params ++ [125]))))))

/-- Where every value is at least another one, but the sums are not greater, they are the same. -/
theorem le_of_sum_map_le {α : Type} {l : List α} {f g : α → ℕ} (h : ∀ a ∈ l, g a ≤ f a)
    (hsum : (l.map f).sum ≤ (l.map g).sum) : ∀ a ∈ l, f a ≤ g a := by
  induction l with
  | nil => exact fun a ha => absurd ha List.not_mem_nil
  | cons a l ih =>
    obtain ⟨ha, hl⟩ := List.forall_mem_cons.mp h
    have hrest : (l.map g).sum ≤ (l.map f).sum := List.sum_le_sum hl
    rw [List.map_cons, List.map_cons, List.sum_cons, List.sum_cons] at hsum
    refine List.forall_mem_cons.mpr ⟨by omega, ih hl (by omega)⟩

theorem print_itemLexemes (ps : List Param) :
    print (itemLexemes ps) = commas (ps.map Param.text) := by
  induction ps with
  | nil => rfl
  | cons p ps ih =>
    cases ps with
    | nil => rw [print_itemLexemes_singleton, List.map_singleton, commas_singleton]
    | cons p' ps =>
      rw [print_itemLexemes_cons, ih, List.map_cons, List.map_cons, List.map_cons,
        commas_cons_cons]

theorem length_copiedArray {params : List CStr} (hne : params ≠ []) :
    (copiedArray params).length = (params.map fun s => s.length + 3).sum + 1 := by
  obtain ⟨s, params, rfl⟩ := List.exists_cons_of_ne_nil hne
  simp only [copiedArray, List.length_cons, List.length_append, List.length_nil, length_commas,
    List.map_map, Function.comp_def, List.map_cons, List.sum_cons, Nat.zero_add, Nat.add_assoc,
    Nat.reduceAdd]
  omega

/-- An array that is no longer than the copies of what it means has plain strings. -/
theorem plain_of_length_arrayLexemes {blanks : CStr} {ps : List Param}
    (h : (print (arrayLexemes blanks ps)).length ≤
      (copiedArray (ps.map fun p => decode p.raw)).length) :
    ∀ p ∈ ps, IsPlain (decode p.raw) := by
  cases ps with
  | nil => exact fun p hp => absurd hp List.not_mem_nil
  | cons q qs =>
    generalize hps : q :: qs = ps at h
    have hne : ps ≠ [] := hps ▸ List.cons_ne_nil q qs
    have harray : print (arrayLexemes blanks ps) = 91 :: (print (itemLexemes ps) ++ [93]) := by
      rw [← hps]
      simp [arrayLexemes, print, Lexeme.text]
    have hmeant : ∀ p : Param, (decode p.raw).length ≤ (rawText p.raw).length :=
      fun p => length_decodeFrom_le none p.raw
    rw [harray, length_copiedArray (by simpa using hne), print_itemLexemes] at h
    simp only [List.length_cons, List.length_append, List.length_nil, length_commas, List.map_map,
      Function.comp_def] at h
    -- no parameter is longer than its copy, so none of them is shorter
    have htight := @le_of_sum_map_le _ ps (fun p => p.text.length + 1)
      (fun p => (decode p.raw).length + 3) ?_ (by omega)
    · intro p hp
      have hp := htight p hp
      simp only [Param.text, List.length_append, List.length_cons] at hp
      obtain ⟨hraw, hplain⟩ := @plain_of_length_le p.raw (by omega)
      exact hraw ▸ hplain
    · intro p _
      have hp := hmeant p
      simp only [Param.text, List.length_append, List.length_cons]
      omega

/-- A copied array of plain strings is the array without blanks. -/
theorem print_plainParams {params : List CStr} (h : ∀ s ∈ params, IsPlain s) :
    print (arrayLexemes [] (params.map plainParam)) = copiedArray params := by
  have htexts : (params.map plainParam).map Param.text = params.map fun s => 34 :: (s ++ [34]) := by
    rw [List.map_map]
    refine List.map_congr_left fun s hs => ?_
    show [] ++ 34 :: (rawText (plainString s) ++ 34 :: []) = _
    rw [rawText_plainString (h s hs)]
    rfl
  rw [print_arrayLexemes, copiedArray, ← htexts, ← print_itemLexemes]
  cases params with
  | nil => rfl
  | cons s params => rfl

/-- The text of a request without blanks. -/
theorem text_writeRequest {method : CStr} (hmethod : IsPlain method) (id : ℕ) {params : List CStr}
    (h : ∀ s ∈ params, IsPlain s) :
    (writeRequest [] method id params).text = requestText method id params := by
  have hname : ∀ name ∈ ["id", "method", "params"],
      rawText (plainString (cstr name)) = cstr name := by
    intro name hmem
    refine rawText_plainString ?_
    revert name
    decide
  have hid := hname "id" (by decide)
  have hmethodName := hname "method" (by decide)
  have hparams := hname "params" (by decide)
  have hnumeral : (plainNumeral id).text = decimal id := by
    simp [plainNumeral, Numeral.text, Numeral.exponentText]
  have hnil : print [] = [] := rfl
  unfold Written.text writeRequest requestText
  simp only [compactObject, compact, Member.lexemes, gapMember, List.cons_append, List.nil_append,
    List.append_assoc, print_cons, print_append, Lexeme.text, hnumeral, hid, hmethodName, hparams,
    rawText_plainString hmethod, print_plainParams h, hnil, List.append_nil]

/-- **Exactly when a request with copied parameters is one.** -/
theorem says_requestText_iff {method : CStr} (hmethod : IsPlain method) (id : ℕ)
    (params : List CStr) :
    (∃ w : Written, w.Says ⟨method, id, params⟩ ∧ requestText method id params = w.text) ↔
      ∀ s ∈ params, IsPlain s := by
  refine ⟨?_, fun h => ⟨_, says_writeRequest blank_nil hmethod h,
    (text_writeRequest hmethod id h).symm⟩⟩
  rintro ⟨w, hsays, htext⟩
  obtain ⟨top, ms, hdoc, -, -, hnamed⟩ := hsays.object
  -- the members one after the other, up to the parameters
  obtain ⟨inner, back, hinner, hbytes⟩ := IsObject.open_ ⟨w.ls, hdoc, rfl⟩ htext.symm
  obtain ⟨d, digits, hdecimal, hd⟩ := decimal_head id
  obtain ⟨m₁, top₁, _, b₁, x₁, rfl, -, hv₁, hb₁, hfirst, hremains₁⟩ :=
    hinner.first_member (by decide) ⟨d, _, by rw [hdecimal]; rfl, hd⟩ hbytes.symm
  obtain ⟨-, hx₁⟩ := hv₁.number_value (hremains₁.follows hb₁) (follows_cons (.inl rfl) _) hfirst
  obtain ⟨ls₁, _, hls₁, hbytes₁⟩ := hremains₁.members hb₁ hx₁
  obtain ⟨m₂, top₂, _, b₂, x₂, rfl, -, hv₂, hb₂, hsecond, hremains₂⟩ :=
    hls₁.first_member (by decide) ⟨34, _, rfl, rfl⟩ hbytes₁
  obtain ⟨raw, -, -, hx₂⟩ := hv₂.string_value hmethod hsecond
  obtain ⟨ls₂, _, hls₂, hbytes₂⟩ := hremains₂.members hb₂ hx₂
  have harray : ∃ c rest, copiedArray params ++ [125] = c :: rest ∧ isBlank c = false :=
    ⟨91, _, rfl, rfl⟩
  obtain ⟨m₃, top₃, _, b₃, x₃, rfl, hname, hv₃, hb₃, hthird, hremains₃⟩ :=
    hls₂.first_member (by decide) harray hbytes₂
  -- the third is the member with the parameters, and nothing but its end stands behind it
  have hmem : m₃ ∈ named (m₁ :: m₂ :: m₃ :: top₃) "params" := by
    refine List.mem_filter.mpr ⟨?_, decide_eq_true hname⟩
    exact List.mem_cons_of_mem _ (List.mem_cons_of_mem _ List.mem_cons_self)
  rw [hnamed, List.mem_singleton] at hmem
  subst hmem
  have hvalue : w.params.value = arrayLexemes w.blanks w.items := hsays.params.1.2.2
  have hitems : w.items.map (fun p => decode p.raw) = params := hsays.params.2
  have hend : 1 ≤ x₃.length := by
    rcases hremains₃ with ⟨-, rfl⟩ | ⟨ls, ms, -, rfl⟩
    all_goals exact Nat.succ_le_succ (Nat.zero_le _)
  -- the copies leave the array of the request no byte for an escape
  have hlength := congrArg List.length hthird
  simp only [List.length_append, List.length_cons, List.length_nil] at hlength
  rw [hvalue] at hlength
  have hall := @plain_of_length_arrayLexemes w.blanks w.items (by rw [hitems]; omega)
  intro s hs
  rw [← hitems] at hs
  obtain ⟨p, hp, rfl⟩ := List.mem_map.mp hs
  exact hall p hp

/-! ### The client -/

/-- `stratum_client_state_t` and `s_req_id`, as far as shares go. The transport is there as long
as `connected` is set. -/
structure StratumClient where
  connected : Bool
  extranonce2Size : Int32
  subscribeReqId : UInt32
  sReqId : UInt32
  sharesAccepted : UInt64
  sharesRejected : UInt64

/-- What `stratum_client_submit_share` does with its two buffers. -/
structure ShareLine where
  /-- So many bytes `memset` writes to `extranonce2_hex`. -/
  filled : UInt32
  /-- There it writes the terminator. -/
  terminator : Int32
  /-- The string in `submit`. -/
  submit : CStr
  /-- So many bytes of `submit` are sent. -/
  len : ℕ

/-- The result is a refusal, or there is an error. -/
def isRejected (result : Json) (error : Option Json) : Bool :=
  match result, error with
  | .bool false, _ => true
  | _, none => false
  | _, some .null => false
  | _, some _ => true

/-- `handle_mining_notify` reads a string that is not there. -/
def notifyFaults (root : Json) : Bool :=
  match root.getObjectItemCaseSensitive "method" with
  | some (.string method) =>
    method = cstr "mining.notify" &&
      match parseNotify (root.getObjectItemCaseSensitive "params") with
      | .error _ => true
      | .ok _ => false
  | _ => false

namespace StratumClient

/-- `stratum_client_init`. -/
def init : StratumClient := ⟨false, 0, 0, 1, 0, 0⟩

/-- `stratum_connect` with success, `send_subscribe` and `send_authorize`. -/
def connect (s : StratumClient) : StratumClient :=
  { s with connected := true, subscribeReqId := s.sReqId, sReqId := s.sReqId + 2 }

/-- `handle_subscribe_response`. -/
def handleSubscribeResponse (s : StratumClient) (result : Json) (reqId : UInt32) :
    StratumClient :=
  if reqId ≠ s.subscribeReqId then s
  else match result with
    | .array items =>
      if items.length < 3 then s
      else match (items[2]? : Option Json) with
        | some (.number n) => { s with extranonce2Size := n.valueint }
        | _ => s
    | _ => s

/-- What `stratum_client_task` makes of a line, as far as shares go. -/
def handleLine (s : StratumClient) (root : Json) : StratumClient :=
  -- a fault restarts the device
  if notifyFaults root then init
  else match root.getObjectItemCaseSensitive "id", root.getObjectItemCaseSensitive "result" with
    | some id, some result =>
      if isRejected result (root.getObjectItemCaseSensitive "error") then s
      else match result with
        | .array items => s.handleSubscribeResponse (.array items) id.valueint.toUInt32
        | _ => s
    | _, _ => s

/-- `en2_size`. -/
def en2Size (s : StratumClient) : Int32 := if 0 < s.extranonce2Size then s.extranonce2Size else 8

/-- The line of a share. -/
def shareLine (s : StratumClient) (stratumUser : CStr) (jobId nonce ntime : UInt32) : ShareLine :=
  let size := s.en2Size * 2
  let extranonce2Hex := List.replicate size.toUInt32.toNat 48
  { filled := size.toUInt32
    terminator := size
    submit := buildSubmit 512 s.sReqId stratumUser jobId extranonce2Hex ntime nonce
    len := (submitText s.sReqId stratumUser jobId extranonce2Hex ntime nonce).length }

/-- `stratum_client_submit_share`; `written` says whether `esp_transport_write` succeeds. -/
def submitShare (s : StratumClient) (stratumUser : CStr) (jobId nonce ntime : UInt32)
    (written : Bool) : StratumClient × Option ShareLine :=
  if !s.connected then (s, none)
  else
    let line := s.shareLine stratumUser jobId nonce ntime
    let s := { s with sReqId := s.sReqId + 1 }
    if line.len ≤ 0 then (s, none)
    else if written then ({ s with sharesAccepted := s.sharesAccepted + 1 }, some line)
    else ({ s with sharesRejected := s.sharesRejected + 1 }, some line)

end StratumClient

/-- What happens to the client. -/
inductive ClientOp where
  /-- A connection is made. -/
  | connect
  /-- A line of the pool, as it is parsed. -/
  | line (root : Option Json)
  /-- The connection is lost. -/
  | lost
  /-- A share is submitted. -/
  | share (jobId nonce ntime : UInt32) (written : Bool)

/-- All writes are inside of the 65 bytes of `extranonce2_hex`, and all bytes that are sent are
inside of the 512 bytes of `submit`. -/
def ShareLine.InBuffers (l : ShareLine) : Prop :=
  l.filled.toNat ≤ 65 ∧ 0 ≤ l.terminator.toInt ∧ l.terminator.toInt < 65 ∧ l.len ≤ 512

/-- The bytes that are sent, if they are inside of `submit`. -/
def ShareLine.sent (l : ShareLine) : CStr := (l.submit ++ [0]).take l.len

namespace StratumClient

/-- One step. -/
def step (stratumUser : CStr) (s : StratumClient) : ClientOp → StratumClient
  | .connect => if s.connected then s else s.connect
  | .line root => if s.connected then (root.map s.handleLine).getD s else s
  | .lost => { s with connected := false }
  | .share jobId nonce ntime written => (s.submitShare stratumUser jobId nonce ntime written).1

/-- The parameters of the request for a share, with as many digits as the size asks for. -/
def shareParams (s : StratumClient) (stratumUser : CStr) (jobId nonce ntime : UInt32) :
    List CStr :=
  [stratumUser, decimal jobId.toNat, List.replicate (2 * s.en2Size.toInt.toNat) 48,
    hexPadded 8 ntime.toNat, hexPadded 8 nonce.toNat]

/-- Every share that is submitted is safe, and what is sent is the line of its request. -/
def SharesRight (stratumUser : CStr) (s : StratumClient) : Prop :=
  ∀ jobId nonce ntime written line,
    (s.submitShare stratumUser jobId nonce ntime written).2 = some line →
      line.InBuffers ∧ ∃ w : Written,
        w.Says ⟨cstr "mining.submit", s.sReqId.toNat,
          s.shareParams stratumUser jobId nonce ntime⟩ ∧ line.sent = w.text ++ [10]

/-- The client takes this size from the line. -/
def Accepts (s : StratumClient) (root : Json) (size : Int32) : Prop :=
  notifyFaults root = false ∧ ∃ id items n,
    root.getObjectItemCaseSensitive "id" = some id ∧ id.valueint.toUInt32 = s.subscribeReqId ∧
      root.getObjectItemCaseSensitive "result" = some (.array items) ∧
      isRejected (.array items) (root.getObjectItemCaseSensitive "error") = false ∧
      3 ≤ items.length ∧ items[2]? = some (.number n) ∧ n.valueint = size

/-- No size above 32 is taken, and no connection is made under a user name that is not plain. -/
def Good (stratumUser : CStr) (s : StratumClient) : ClientOp → Prop
  | .connect => s.connected = false → IsPlain stratumUser
  | .line root => s.connected = true → ∀ root' ∈ root, ∀ size, s.Accepts root' size →
      size.toInt ≤ 32
  | _ => True

end StratumClient

/-! ### One share -/

/-- The line of a share copies its parameters. -/
theorem submitText_eq_requestText (reqId : UInt32) (user : CStr) (jobId : UInt32)
    (extranonce2 : CStr) (ntime nonce : UInt32) :
    submitText reqId user jobId extranonce2 ntime nonce =
      requestText (cstr "mining.submit") reqId.toNat [user, decimal jobId.toNat, extranonce2,
        hexPadded 8 ntime.toNat, hexPadded 8 nonce.toNat] ++ [10] := by
  have hopen : cstr "\x7b\"id\":" = 123 :: 34 :: (cstr "id" ++ [34, 58]) := by decide
  have hmiddle : cstr ",\"method\":\"mining.submit\",\"params\":[" = 44 :: 34 ::
      (cstr "method" ++ 34 :: 58 :: 34 :: (cstr "mining.submit" ++ 34 :: 44 :: 34 ::
        (cstr "params" ++ [34, 58, 91]))) := by decide
  have hclose : cstr "\"]\x7d" = [34, 93, 125] := by decide
  rw [submitText_eq, hopen, hmiddle, submitFields, hclose]
  simp [requestText, copiedArray, quoted]

/-- No share that the client can write for a small size is cut. -/
theorem length_submitText_lt (reqId : UInt32) {user : CStr} (huser : user.length < 128)
    (jobId : UInt32) {extranonce2 : CStr} (hextranonce2 : extranonce2.length ≤ 64)
    (ntime nonce : UInt32) :
    (submitText reqId user jobId extranonce2 ntime nonce).length < 512 := by
  have hdecimal : ∀ n : UInt32, (decimal n.toNat).length ≤ 10 :=
    fun n => length_decimal_le (by omega) (lt_trans n.toNat_lt (by norm_num))
  have hid := hdecimal reqId
  have hjob := hdecimal jobId
  have hopen : (cstr "\x7b\"id\":").length = 6 := by decide
  have hmiddle : (cstr ",\"method\":\"mining.submit\",\"params\":[\"").length = 37 := by decide
  have hnext : (cstr "\",\"").length = 3 := by decide
  have hclose : (cstr "\"]\x7d\n").length = 4 := by decide
  unfold submitText
  simp only [List.length_append, length_hexPadded, hopen, hmiddle, hnext, hclose]
  omega

namespace StratumClient

variable {stratumUser : CStr} {s : StratumClient}

/-- The size is that of the pool, or 8. -/
theorem en2Size_le_iff : s.en2Size.toInt ≤ 32 ↔ s.extranonce2Size.toInt ≤ 32 := by
  unfold en2Size
  split
  · rfl
  next hpos =>
    have hzero : (0 : Int32).toInt = 0 := rfl
    rw [Int32.lt_iff_toInt_lt, hzero] at hpos
    refine iff_of_true (by decide) (by omega)

theorem en2Size_pos : 0 < s.en2Size.toInt := by
  unfold en2Size
  split
  next hpos => exact Int32.lt_iff_toInt_lt.mp hpos
  · decide

/-- `memset` writes two bytes for each one that the size counts. -/
theorem filled_shareLine (jobId nonce ntime : UInt32) :
    (s.shareLine stratumUser jobId nonce ntime).filled.toNat = 2 * s.en2Size.toInt.toNat := by
  have hpos := s.en2Size_pos
  have hlt := s.en2Size.toInt_lt
  have hle : (0 : Int32) ≤ s.en2Size := Int32.le_iff_toInt_le.mpr hpos.le
  have hsize : s.en2Size.toUInt32.toNat = s.en2Size.toInt.toNat := Int32.toNat_toUInt32_of_le hle
  show (s.en2Size * 2).toUInt32.toNat = _
  rw [Int32.toUInt32_mul, UInt32.toNat_mul, hsize]
  show s.en2Size.toInt.toNat * 2 % 2 ^ 32 = _
  omega

theorem terminator_shareLine (h : s.en2Size.toInt ≤ 32) (jobId nonce ntime : UInt32) :
    (s.shareLine stratumUser jobId nonce ntime).terminator.toInt = 2 * s.en2Size.toInt := by
  have hpos := s.en2Size_pos
  show (s.en2Size * 2).toInt = _
  rw [Int32.toInt_mul]
  show (s.en2Size.toInt * 2).bmod (2 ^ 32) = _
  rw [Int.bmod_eq_of_le (by omega) (by omega)]
  omega

/-- A connected client writes the line and sends it. -/
theorem submitShare_of_connected (h : s.connected = true) (jobId nonce ntime : UInt32)
    (written : Bool) :
    (s.submitShare stratumUser jobId nonce ntime written).2 =
      some (s.shareLine stratumUser jobId nonce ntime) := by
  have hlen : ¬ (s.shareLine stratumUser jobId nonce ntime).len ≤ 0 := by
    show ¬ (submitText _ _ _ _ _ _).length ≤ 0
    rw [submitText_eq_requestText, List.length_append, List.length_singleton]
    omega
  unfold submitShare
  rw [h]
  simp only [Bool.not_true, Bool.false_eq_true, if_false, if_neg hlen]
  split
  · rfl
  · rfl

/-- A small size leaves the line whole. -/
theorem sent_shareLine (huser : stratumUser.length < 128) (h : s.en2Size.toInt ≤ 32)
    (jobId nonce ntime : UInt32) :
    (s.shareLine stratumUser jobId nonce ntime).len ≤ 512 ∧
      (s.shareLine stratumUser jobId nonce ntime).sent =
        requestText (cstr "mining.submit") s.sReqId.toNat
          (s.shareParams stratumUser jobId nonce ntime) ++ [10] := by
  have hfilled : (s.en2Size * 2).toUInt32.toNat = 2 * s.en2Size.toInt.toNat :=
    @filled_shareLine stratumUser s jobId nonce ntime
  have hextranonce2 : (List.replicate (s.en2Size * 2).toUInt32.toNat (48 : UInt8)).length ≤ 64 := by
    rw [List.length_replicate]
    omega
  have hfits := length_submitText_lt s.sReqId huser jobId hextranonce2 ntime nonce
  refine ⟨hfits.le, ?_⟩
  unfold ShareLine.sent shareLine buildSubmit
  dsimp only
  rw [snprintf_of_length_lt hfits, List.take_left, submitText_eq_requestText, hfilled]
  rfl

/-- **One share.** It is safe and complete exactly if the size is small and the name plain. -/
theorem sharesRight_iff (huser : stratumUser.length < 128) (h : s.connected = true) :
    s.SharesRight stratumUser ↔ IsPlain stratumUser ∧ s.extranonce2Size.toInt ≤ 32 := by
  have hmethod : IsPlain (cstr "mining.submit") := by decide
  refine ⟨fun hright => ?_, ?_⟩
  · -- one share shows both
    obtain ⟨⟨hfilled, -⟩, w, hsays, hsent⟩ :=
      hright 0 0 0 true _ (submitShare_of_connected h 0 0 0 true)
    rw [filled_shareLine] at hfilled
    have hsize : s.en2Size.toInt ≤ 32 := by omega
    rw [(sent_shareLine huser hsize 0 0 0).2] at hsent
    have htext := List.append_cancel_right hsent
    have hall := (says_requestText_iff hmethod _ _).mp ⟨w, hsays, htext⟩
    exact ⟨hall stratumUser List.mem_cons_self, en2Size_le_iff.mp hsize⟩
  · rintro ⟨hplain, hsize⟩ jobId nonce ntime written line hline
    rw [submitShare_of_connected h] at hline
    obtain rfl := Option.some.inj hline
    rw [← en2Size_le_iff] at hsize
    have hpos := s.en2Size_pos
    have hfilled := @filled_shareLine stratumUser s jobId nonce ntime
    have hterminator := @terminator_shareLine stratumUser s hsize jobId nonce ntime
    obtain ⟨hlen, hsent⟩ := sent_shareLine huser hsize jobId nonce ntime
    refine ⟨⟨by omega, by omega, by omega, hlen⟩, ?_⟩
    have hparams : ∀ t ∈ s.shareParams stratumUser jobId nonce ntime, IsPlain t := by
      -- the others are digits
      refine List.forall_mem_cons.mpr ⟨hplain, List.forall_mem_cons.mpr ⟨?_, ?_⟩⟩
      · exact isPlain_of_digits fun b hb => isDigit_sixteen (isDigit_decimal hb)
      · refine List.forall_mem_cons.mpr ⟨isPlain_of_digits fun b hb => ?_, ?_⟩
        · rw [(List.mem_replicate.mp hb).2]
          decide
        · exact List.forall_mem_cons.mpr ⟨isPlain_of_digits fun b hb => isDigit_hexPadded hb,
            List.forall_mem_singleton.mpr (isPlain_of_digits fun b hb => isDigit_hexPadded hb)⟩
    obtain ⟨w, hsays, htext⟩ := (says_requestText_iff hmethod s.sReqId.toNat _).mpr hparams
    exact ⟨w, hsays, by rw [hsent, htext]⟩

/-! ### Runs -/

/-- A line restarts the client, gives it the size that it accepts, or changes nothing. -/
theorem handleLine_cases (s : StratumClient) (root : Json) :
    s.handleLine root = init ∨ s.handleLine root = s ∨
      ∃ size, s.Accepts root size ∧ s.handleLine root = { s with extranonce2Size := size } := by
  unfold handleLine
  cases hfault : notifyFaults root with
  | true => exact .inl rfl
  | false =>
    rw [if_neg Bool.false_ne_true]
    cases hid : root.getObjectItemCaseSensitive "id" with
    | none => exact .inr (.inl rfl)
    | some id =>
      cases hresult : root.getObjectItemCaseSensitive "result" with
      | none => exact .inr (.inl rfl)
      | some result =>
        dsimp only
        cases hrejected : isRejected result (root.getObjectItemCaseSensitive "error") with
        | true => exact .inr (.inl rfl)
        | false =>
          rw [if_neg Bool.false_ne_true]
          cases result with
          | array items =>
            dsimp only
            unfold handleSubscribeResponse
            by_cases hreq : id.valueint.toUInt32 = s.subscribeReqId
            · rw [if_neg (not_not.mpr hreq)]
              dsimp only
              by_cases hshort : items.length < 3
              · rw [if_pos hshort]
                exact .inr (.inl rfl)
              · rw [if_neg hshort]
                cases hitem : items[2]? with
                | none => exact .inr (.inl rfl)
                | some item =>
                  cases item with
                  | number n =>
                    exact .inr (.inr ⟨n.valueint, ⟨hfault, id, items, n, hid, hreq, hresult,
                      hrejected, not_lt.mp hshort, hitem, rfl⟩, rfl⟩)
                  | null | bool | string | array | object => exact .inr (.inl rfl)
            · rw [if_pos hreq]
              exact .inr (.inl rfl)
          | null | bool | number | string | object => exact .inr (.inl rfl)

/-- A size that is accepted is kept. -/
theorem handleLine_of_accepts {root : Json} {size : Int32} (h : s.Accepts root size) :
    s.handleLine root = { s with extranonce2Size := size } := by
  obtain ⟨hfault, id, items, n, hid, hreq, hresult, hrejected, hlength, hitem, rfl⟩ := h
  unfold handleLine
  rw [hfault, if_neg Bool.false_ne_true, hid, hresult]
  dsimp only
  rw [hrejected, if_neg Bool.false_ne_true]
  unfold handleSubscribeResponse
  rw [if_neg (not_not.mpr hreq)]
  dsimp only
  rw [if_neg (not_lt.mpr hlength), hitem]

/-- A share leaves the connection and the size. -/
theorem submitShare_state (s : StratumClient) (stratumUser : CStr) (jobId nonce ntime : UInt32)
    (written : Bool) :
    (s.submitShare stratumUser jobId nonce ntime written).1.connected = s.connected ∧
      (s.submitShare stratumUser jobId nonce ntime written).1.extranonce2Size =
        s.extranonce2Size := by
  unfold submitShare
  dsimp only
  split_ifs
  all_goals exact ⟨rfl, rfl⟩

/-- The size is small, and a connection is made under a plain name only. -/
structure Inv (stratumUser : CStr) (s : StratumClient) : Prop where
  size : s.extranonce2Size.toInt ≤ 32
  plain : s.connected = true → IsPlain stratumUser

theorem inv_init : Inv stratumUser init := ⟨by decide, nofun⟩

theorem Inv.step (h : Inv stratumUser s) {op : ClientOp} (hop : Good stratumUser s op) :
    Inv stratumUser (step stratumUser s op) := by
  cases op with
  | connect =>
    unfold StratumClient.step
    cases hconnected : s.connected with
    | true => exact ⟨h.size, h.plain⟩
    | false => exact ⟨h.size, fun _ => hop hconnected⟩
  | line root =>
    unfold StratumClient.step
    cases hconnected : s.connected with
    | false => exact ⟨h.size, h.plain⟩
    | true =>
      rw [if_pos rfl]
      cases root with
      | none => exact ⟨h.size, h.plain⟩
      | some root =>
        -- the line restarts the device, changes nothing, or brings a size
        show Inv stratumUser (s.handleLine root)
        obtain hinit | hsame | ⟨size, haccepts, hsize⟩ := s.handleLine_cases root
        · rw [hinit]
          exact inv_init
        · rw [hsame]
          exact h
        · rw [hsize]
          exact ⟨hop hconnected root rfl size haccepts, h.plain⟩
  | lost => exact ⟨h.size, nofun⟩
  | share jobId nonce ntime written =>
    obtain ⟨hconnected, hsize⟩ := s.submitShare_state stratumUser jobId nonce ntime written
    refine ⟨?_, ?_⟩
    · exact (congrArg Int32.toInt hsize).trans_le h.size
    · exact fun hstill => h.plain (hconnected.symm.trans hstill)

theorem Inv.sharesRight (huser : stratumUser.length < 128) (h : Inv stratumUser s) :
    s.SharesRight stratumUser := by
  cases hconnected : s.connected with
  | true => exact (sharesRight_iff huser hconnected).mpr ⟨h.plain hconnected, h.size⟩
  | false =>
    intro jobId nonce ntime written line hline
    unfold submitShare at hline
    rw [hconnected] at hline
    cases hline

/-- What a step must be for the shares behind it to be right. -/
theorem good_of_sharesRight (huser : stratumUser.length < 128) {op : ClientOp}
    (h : (step stratumUser s op).SharesRight stratumUser) : Good stratumUser s op := by
  cases op with
  | connect =>
    intro hconnected
    have hstep : step stratumUser s .connect = s.connect := by
      show (if s.connected then s else s.connect) = s.connect
      rw [hconnected, if_neg Bool.false_ne_true]
    rw [hstep] at h
    exact ((sharesRight_iff (s := s.connect) huser rfl).mp h).1
  | line root =>
    rintro hconnected root rfl size haccepts
    have hstep : step stratumUser s (.line (some root)) = s.handleLine root := if_pos hconnected
    rw [hstep, handleLine_of_accepts haccepts] at h
    exact ((sharesRight_iff (s := { s with extranonce2Size := size }) huser hconnected).mp h).2
  | lost | share => trivial

end StratumClient

/-- **Exactly when all shares are safe and complete.** In every run of connections, lines of the
pool and shares: every share that is submitted at any point of it is, if and only if no size above
32 is accepted and no connection is made under a user name that is not plain. -/
theorem shares_right_iff (stratumUser : CStr) (huser : stratumUser.length < 128)
    (ops : List ClientOp) :
    Always (StratumClient.step stratumUser) (StratumClient.SharesRight stratumUser) .init ops ↔
      AllSteps (StratumClient.step stratumUser) (StratumClient.Good stratumUser) .init ops := by
  refine ⟨fun h => allSteps_iff.mpr fun front op back hops => ?_, fun h front back hops => ?_⟩
  · -- the state behind the step shows what the step was
    have hnext := h (front ++ [op]) back (by rw [hops, List.append_assoc, List.singleton_append])
    rw [run_concat] at hnext
    exact StratumClient.good_of_sharesRight huser hnext
  · rw [hops, allSteps_append] at h
    have hinv := run_guarded (P := StratumClient.Inv stratumUser)
      (fun s op hs hop => hs.step hop) StratumClient.inv_init h.1
    exact hinv.sharesRight huser

/-! ### Two sizes -/

/-- A reply to the first subscription. -/
def subscribeReply (size : Int32) : Json :=
  .object [(cstr "id", .number (.ofInt 1)), (cstr "error", .null),
    (cstr "result", .array [.array [], .string (cstr "08000002"), .number (.ofInt size)])]

/-- The client connects, and the pool gives a size. -/
def subscribedRun (size : Int32) : List ClientOp :=
  [.connect, .line (some (subscribeReply size))]

/-- The size is four. -/
theorem shares_right_four :
    (cstr "worker").length < 128 ∧
      (Always (StratumClient.step (cstr "worker")) (StratumClient.SharesRight (cstr "worker"))
          .init (subscribedRun 4) ↔
        AllSteps (StratumClient.step (cstr "worker")) (StratumClient.Good (cstr "worker"))
          .init (subscribedRun 4)) :=
  ⟨by decide, shares_right_iff (cstr "worker") (by decide) (subscribedRun 4)⟩

/-- With a size of 33 a share writes 66 bytes to the buffer of 65. -/
theorem size_too_large :
    ¬ ∀ ops s line, s = run (StratumClient.step (cstr "worker")) .init ops →
      (s.submitShare (cstr "worker") 7 0 0 true).2 = some line → line.InBuffers := by
  intro h
  have hsize := (h (subscribedRun 33) _ _ rfl
    (StratumClient.submitShare_of_connected rfl 7 0 0 true)).1
  exact absurd hsize (by decide)

end Mining

end TollGate
