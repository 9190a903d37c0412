import TollGate.Lib.CTypes
import TollGate.Lib.Run

/-!
# The answer of the faucet

`http_event_handler` collects the chunks of an answer in a buffer that it doubles once when a chunk
does not fit. The buffer, its length and its capacity are kept in static variables over all polls.

`accumulates_iff` says in which runs every write is below the capacity and the buffer holds what was
received: those in which each chunk fits, or fits after one doubling. The first chunk of a poll
finds no buffer, so a poll does not depend on those before it.
-/

namespace TollGate

namespace Wallet

open StepRun

/-! ### The source operations -/

/-- What is written to a block from an offset on. -/
def writeAt (block : List UInt8) (offset : ℕ) (bytes : List UInt8) : List UInt8 :=
  block.take offset ++ bytes ++ block.drop (offset + bytes.length)

/-- The data of an event; `data_len` is an `int`. -/
structure Chunk where
  bytes : List UInt8
  length_lt : bytes.length < 2 ^ 31

/-- `data_len`. -/
def Chunk.dataLen (evt : Chunk) : Int32 := Int32.ofNat evt.bytes.length

/-- `s_response_buf`, as far as it was written, `s_response_len` and `s_response_cap`. -/
structure Response where
  buf : Option (List UInt8)
  len : Int32
  cap : Int32

namespace Response

/-- Static memory. -/
def init : Response := ⟨none, 0, 0⟩

/-- The first chunk gets a buffer; `alloc` says which sizes the heap gives. -/
def allocate (alloc : Int32 → Bool) (s : Response) : Response × Bool :=
  match s.buf with
  | some _ => (s, true)
  | none => if alloc 8192 then (⟨some [], 0, 8192⟩, true) else ({ s with cap := 8192 }, false)

/-- The doubling. -/
def grow (alloc : Int32 → Bool) (s : Response) (dataLen : Int32) : Response × Bool :=
  if s.len + dataLen + 1 > s.cap then
    let newCap := s.cap * 2
    if alloc newCap then ({ s with cap := newCap }, true) else (s, false)
  else (s, true)

/-- The chunk and the terminator behind it. -/
def append (s : Response) (evt : Chunk) : Response :=
  let len := s.len + evt.dataLen
  { s with
    buf := s.buf.map fun buf =>
      writeAt (writeAt buf s.len.toNatClampNeg evt.bytes) len.toNatClampNeg [0]
    len }

/-- `http_event_handler` for `HTTP_EVENT_ON_DATA`, and whether it returns `ESP_OK`. -/
def httpEventHandler (alloc : Int32 → Bool) (s : Response) (evt : Chunk) : Response × Bool :=
  let (s, allocated) := s.allocate alloc
  if !allocated then (s, false)
  else
    let (s, grown) := s.grow alloc evt.dataLen
    if !grown then (s, false) else (s.append evt, true)

/-- `faucet_poll_once` up to the request. -/
def beginPoll (s : Response) : Response := { s with buf := none, len := 0 }

/-- `faucet_poll_once` behind the request, with the text that it parses; `ok` says whether the
request was made and has the status 200. -/
def finishPoll (s : Response) (ok : Bool) : Response × Option CStr :=
  if !ok then ({ s with buf := none }, none)
  else match s.buf with
    | none => (s, none)
    | some buf =>
      if s.len = 0 then (s, none) else ({ s with buf := none }, some (buf.takeWhile (· ≠ 0)))

end Response

/-! ### Runs -/

/-- The buffer, and what was received in the current poll. -/
structure FaucetRun where
  response : Response
  received : List UInt8

/-- What happens in polls. -/
inductive PollOp where
  | beginPoll
  | data (evt : Chunk)
  | finishPoll (ok : Bool)

/-- The buffer holds what was received, its terminator stands behind it, and it is below the
capacity, as is then all that was written before. -/
structure Response.Holds (s : Response) (buf received : List UInt8) : Prop where
  len : s.len.toInt = received.length
  content : buf.take received.length = received
  terminated : buf[received.length]? = some 0
  below : s.len.toInt < s.cap.toInt

namespace FaucetRun

/-- At the start. -/
def init : FaucetRun := ⟨.init, []⟩

/-- One step, with all allocations succeeding. -/
def step (r : FaucetRun) : PollOp → FaucetRun
  | .beginPoll => ⟨r.response.beginPoll, []⟩
  | .data evt => ⟨(r.response.httpEventHandler (fun _ => true) evt).1, r.received ++ evt.bytes⟩
  | .finishPoll ok => ⟨(r.response.finishPoll ok).1, []⟩

/-- What was received is in the buffer; without a buffer nothing was. -/
def Accumulated (r : FaucetRun) : Prop :=
  match r.response.buf with
  | none => r.received = []
  | some buf => r.response.Holds buf r.received

/-- The capacity that a chunk finds. -/
def capacity (r : FaucetRun) : ℤ := if r.response.buf.isNone then 8192 else r.response.cap.toInt

/-- What was received, the chunk and the terminator fit, or do so after one doubling. -/
def Fits (r : FaucetRun) : PollOp → Prop
  | .data evt => (r.received.length + evt.bytes.length + 1 : ℤ) ≤ r.capacity ∨
      r.capacity < 2 ^ 30 ∧ (r.received.length + evt.bytes.length + 1 : ℤ) ≤ 2 * r.capacity
  | _ => True

end FaucetRun

/-! ### One chunk -/

namespace Response

variable {s : Response} {buf received : List UInt8}

theorem toInt_dataLen (evt : Chunk) : evt.dataLen.toInt = evt.bytes.length := by
  have hlt := evt.length_lt
  unfold Chunk.dataLen
  exact Int32.toInt_ofNat_of_lt hlt

/-- The sum of two lengths, in `int`. -/
theorem toInt_add_length {a b : Int32} {m n : ℕ} (ha : a.toInt = m) (hb : b.toInt = n) :
    (a + b).toInt = ((m + n : ℕ) : ℤ).bmod (2 ^ 32) := by
  rw [Int32.toInt_add, ha, hb, Nat.cast_add]

/-- Both writes, when the chunk goes behind what the buffer holds. -/
theorem take_writeAt (hcontent : buf.take received.length = received) (bytes : List UInt8) :
    (writeAt (writeAt buf received.length bytes) (received ++ bytes).length [0]).take
        (received ++ bytes).length = received ++ bytes ∧
      (writeAt (writeAt buf received.length bytes) (received ++ bytes).length [0])[
        (received ++ bytes).length]? = some 0 := by
  have hfirst : (writeAt buf received.length bytes).take (received ++ bytes).length =
      received ++ bytes := by
    unfold writeAt
    rw [hcontent, List.take_left]
  unfold writeAt at hfirst ⊢
  -- the terminator does not touch the bytes in front of it
  rw [hfirst, List.append_assoc]
  refine ⟨List.take_left, ?_⟩
  rw [List.getElem?_append_right le_rfl, Nat.sub_self]
  rfl

/-- **The capacity behind the doubling.** The end of the chunk is below it exactly if the chunk
fits, or does so after one doubling that stays in `int`. -/
theorem below_grow_iff {m : ℕ} (hlen : s.len.toInt = m) (hbelow : (m : ℤ) < s.cap.toInt)
    (evt : Chunk) :
    ((m + evt.bytes.length : ℕ) : ℤ) < (s.grow (fun _ => true) evt.dataLen).1.cap.toInt ↔
      (m + evt.bytes.length + 1 : ℤ) ≤ s.cap.toInt ∨
        s.cap.toInt < 2 ^ 30 ∧ (m + evt.bytes.length + 1 : ℤ) ≤ 2 * s.cap.toInt := by
  have hevt := evt.length_lt
  have hcap := s.cap.toInt_lt
  have hsum : (s.len + evt.dataLen + 1).toInt =
      ((m + evt.bytes.length + 1 : ℕ) : ℤ).bmod (2 ^ 32) := by
    have hone : (1 : Int32).toInt = 1 := rfl
    rw [Int32.toInt_add, toInt_add_length hlen (toInt_dataLen evt), hone, Int.bmod_add_bmod,
      Nat.cast_succ]
  have hdouble : (s.cap * 2).toInt = (s.cap.toInt * 2).bmod (2 ^ 32) := Int32.toInt_mul s.cap 2
  rw [Int.bmod_eq_emod] at hsum hdouble
  unfold grow
  by_cases htest : s.len + evt.dataLen + 1 > s.cap
  · rw [if_pos htest]
    rw [gt_iff_lt, Int32.lt_iff_toInt_lt, hsum] at htest
    show _ < (s.cap * 2).toInt ↔ _
    rw [hdouble]
    -- a sum beyond `int` is negative, and so is a capacity
    split at htest <;> split <;> omega
  · rw [if_neg htest]
    rw [gt_iff_lt, Int32.lt_iff_toInt_lt, hsum] at htest
    show _ < s.cap.toInt ↔ _
    split at htest <;> omega

/-- The doubling changes the capacity only. -/
theorem exists_grow (s : Response) (dataLen : Int32) :
    ∃ cap, s.grow (fun _ => true) dataLen = ({ s with cap }, true) := by
  unfold grow
  split
  · exact ⟨s.cap * 2, rfl⟩
  · exact ⟨s.cap, rfl⟩

/-- The chunk is behind what was received, if its end is below the capacity. -/
theorem holds_append_iff (hbuf : s.buf = some buf) (hlen : s.len.toInt = received.length)
    (hcontent : buf.take received.length = received) (evt : Chunk) :
    (∃ buf', (s.append evt).buf = some buf' ∧
        (s.append evt).Holds buf' (received ++ evt.bytes)) ↔
      ((received.length + evt.bytes.length : ℕ) : ℤ) < s.cap.toInt := by
  have hcap := s.cap.toInt_lt
  have hsum : (s.append evt).len.toInt = _ := toInt_add_length hlen (toInt_dataLen evt)
  have hcapacity : (s.append evt).cap = s.cap := rfl
  refine ⟨?_, fun hbelow => ?_⟩
  · rintro ⟨buf', -, hholds⟩
    have hbelow := hholds.below
    rw [hholds.len, hcapacity, List.length_append] at hbelow
    exact hbelow
  · -- below a capacity no length overflows
    rw [Int.bmod_eq_of_le (by omega) (by omega)] at hsum
    have hoffset : s.len.toNatClampNeg = received.length := by
      show s.len.toInt.toNat = _
      rw [hlen, Int.toNat_natCast]
    have hend : (s.len + evt.dataLen).toNatClampNeg = (received ++ evt.bytes).length := by
      show (s.append evt).len.toInt.toNat = _
      rw [hsum, Int.toNat_natCast, List.length_append]
    obtain ⟨htake, hterminated⟩ := take_writeAt hcontent evt.bytes
    refine ⟨_, ?_, ?_, htake, hterminated, ?_⟩
    · unfold append
      simp only [hbuf, Option.map_some, hoffset, hend]
    · rw [hsum, List.length_append]
    · rw [hsum]
      exact hbelow

end Response

namespace FaucetRun

variable {r : FaucetRun}

theorem accumulated_iff {s : Response} {received : List UInt8} (h : s.buf.isSome = true) :
    Accumulated ⟨s, received⟩ ↔ ∃ buf, s.buf = some buf ∧ s.Holds buf received := by
  obtain ⟨buf, hbuf⟩ := Option.isSome_iff_exists.mp h
  unfold Accumulated
  simp only [hbuf, Option.some.injEq, exists_eq_left']

/-- **One chunk.** -/
theorem accumulated_data_iff (h : r.Accumulated) (evt : Chunk) :
    (r.step (.data evt)).Accumulated ↔ r.Fits (.data evt) := by
  obtain ⟨s, received⟩ := r
  -- the buffer that the chunk finds or gets, with what was received in it
  have hstep : ∀ (s' : Response) (buf : List UInt8), s'.buf = some buf →
      s'.len.toInt = received.length → buf.take received.length = received →
      (received.length : ℤ) < s'.cap.toInt → s.allocate (fun _ => true) = (s', true) →
      ((step ⟨s, received⟩ (.data evt)).Accumulated ↔
        (received.length + evt.bytes.length + 1 : ℤ) ≤ s'.cap.toInt ∨ s'.cap.toInt < 2 ^ 30 ∧
          (received.length + evt.bytes.length + 1 : ℤ) ≤ 2 * s'.cap.toInt) := by
    intro s' buf hbuf hlen hcontent hbelow hallocate
    obtain ⟨cap, hgrow⟩ := s'.exists_grow evt.dataLen
    have hhandler : (s.httpEventHandler (fun _ => true) evt).1 =
        Response.append { s' with cap } evt := by
      unfold Response.httpEventHandler
      simp only [hallocate, hgrow]
      rfl
    rw [← Response.below_grow_iff hlen hbelow evt, hgrow]
    show Accumulated ⟨(s.httpEventHandler (fun _ => true) evt).1, received ++ evt.bytes⟩ ↔ _
    rw [hhandler, accumulated_iff (by simp [Response.append, hbuf])]
    exact Response.holds_append_iff (s := { s' with cap }) hbuf hlen hcontent evt
  -- the first chunk of a poll, or a later one
  cases hbuf : s.buf with
  | none =>
    have hreceived : received = [] := by
      unfold Accumulated at h
      simpa only [hbuf] using h
    have hnew := hstep ⟨some [], 0, 8192⟩ [] rfl (by rw [hreceived]; rfl) (by rw [hreceived]; rfl)
      (by rw [hreceived]; decide) (by unfold Response.allocate; simp only [hbuf]; rfl)
    rw [hnew]
    unfold Fits capacity
    simp only [hbuf]
    rfl
  | some buf =>
    have hholds : s.Holds buf received := by
      unfold Accumulated at h
      simpa only [hbuf] using h
    have hold := hstep s buf hbuf hholds.len hholds.content (hholds.len ▸ hholds.below)
      (by unfold Response.allocate; simp only [hbuf])
    rw [hold]
    unfold Fits capacity
    simp only [hbuf]
    rfl

/-! ### Polls -/

theorem accumulated_init : init.Accumulated := rfl

/-- The end of a poll leaves an empty answer in its buffer, if anything. -/
theorem accumulated_finishPoll (h : r.Accumulated) (ok : Bool) :
    (r.step (.finishPoll ok)).Accumulated := by
  obtain ⟨s, received⟩ := r
  unfold step Response.finishPoll
  cases ok with
  | false => rfl
  | true =>
    unfold Accumulated at h
    cases hbuf : s.buf with
    | none => simp [Accumulated, hbuf]
    | some buf =>
      simp only [hbuf] at h
      by_cases hempty : s.len = 0
      · -- the buffer stays, but nothing was received
        have hlen := h.len
        have hzero : (0 : Int32).toInt = 0 := rfl
        rw [hempty, hzero] at hlen
        have hreceived : received = [] := List.length_eq_zero_iff.mp (by omega)
        simp only [Bool.not_true, Bool.false_eq_true, if_false, hempty, if_true, Accumulated, hbuf]
        exact hreceived ▸ h
      · simp [Accumulated, hempty]

theorem accumulated_step_iff (r : FaucetRun) (op : PollOp) (h : r.Accumulated) :
    (r.step op).Accumulated ↔ r.Fits op := by
  cases op with
  | beginPoll => exact iff_of_true rfl trivial
  | data evt => exact accumulated_data_iff h evt
  | finishPoll ok => exact iff_of_true (accumulated_finishPoll h ok) trivial

/-- What is parsed at the end of a poll is what was received in it, up to a zero. -/
theorem parsed_eq (h : r.Accumulated) {text : CStr}
    (htext : (r.response.finishPoll true).2 = some text) :
    text = r.received.takeWhile (· ≠ 0) := by
  unfold Accumulated at h
  unfold Response.finishPoll at htext
  cases hbuf : r.response.buf with
  | none => simp [hbuf] at htext
  | some buf =>
    simp only [hbuf] at h htext
    by_cases hempty : r.response.len = 0
    · simp [hempty] at htext
    · simp only [Bool.not_true, Bool.false_eq_true, if_false, if_neg hempty] at htext
      obtain rfl := Option.some.inj htext
      -- the terminator stands behind what was received
      obtain ⟨hlt, hzero⟩ := List.getElem?_eq_some_iff.mp h.terminated
      have hsplit : buf = r.received ++ 0 :: buf.drop (r.received.length + 1) := by
        conv_lhs => rw [← List.take_append_drop r.received.length buf, h.content,
          List.drop_eq_getElem_cons hlt, hzero]
      rw [hsplit, List.takeWhile_append, List.takeWhile_cons_of_neg (by simp), List.append_nil]
      split
      next hall => exact ((List.takeWhile_prefix _).eq_of_length hall).symm
      · rfl

end FaucetRun

/-- **Exactly when the answers are accumulated.** In every run of polls, chunks of any lengths and
ends of requests: in every state all writes are below the capacity and the buffer holds what was
received, if and only if every chunk fits, or fits after one doubling. -/
theorem accumulates_iff (ops : List PollOp) :
    Always FaucetRun.step FaucetRun.Accumulated .init ops ↔
      AllSteps FaucetRun.step FaucetRun.Fits .init ops :=
  always_iff FaucetRun.accumulated_step_iff FaucetRun.accumulated_init

/-- A first chunk that is longer than two buffers. -/
theorem not_accumulated_of_long {evt : Chunk} (hlong : 16384 ≤ evt.bytes.length) :
    ¬ Always FaucetRun.step FaucetRun.Accumulated .init [.beginPoll, .data evt] := by
  intro h
  have hafter := h [.beginPoll, .data evt] [] (List.append_nil _).symm
  rw [run_cons, run_cons, run_nil] at hafter
  have hbefore : (FaucetRun.init.step .beginPoll).Accumulated := rfl
  have hfits := (FaucetRun.accumulated_data_iff hbefore evt).mp hafter
  have hcapacity : (FaucetRun.init.step .beginPoll).capacity = 8192 := rfl
  have hreceived : (FaucetRun.init.step .beginPoll).received.length = 0 := rfl
  unfold FaucetRun.Fits at hfits
  dsimp only at hfits
  rw [hcapacity, hreceived] at hfits
  omega

/-- A chunk of 20000 bytes. -/
def longChunk : Chunk := ⟨List.replicate 20000 97, by rw [List.length_replicate]; decide⟩

/-- It is written beyond a buffer of 16384 bytes. -/
theorem longChunk_overflows :
    ¬ Always FaucetRun.step FaucetRun.Accumulated .init [.beginPoll, .data longChunk] := by
  refine not_accumulated_of_long ?_
  show 16384 ≤ (List.replicate 20000 97).length
  rw [List.length_replicate]
  decide

end Wallet

end TollGate
