import TollGate.Cvm.Frames

/-!
# The frames that a sync session reads

`ws_read_text` of `sync_manager.c` reads a frame in up to four reads: two bytes, the rest of the
length, the mask and the payload. It takes each read but the first for complete, adds the length
up in an `int`, and leaves the part of a payload that is too long for the buffer in the stream.

`sessionCalls` are its calls as the loop of `sync_manager_do_reqdiff_sync` makes them, the one that
fails and ends the loop among them; `readTexts` are those whose text the loop goes on to parse. When
no read falls short and every payload is shorter than the buffer, they write inside of the buffer
only and give the payloads of the frames, one after the other (`delivers_of_complete`).
-/

namespace TollGate

namespace Relay

open WebSocket

/-- The connection: the bytes that come, and by how much the next reads fall short of what they
are asked for. -/
structure Wire where
  stream : List UInt8
  short : List ℕ

/-- `esp_tls_conn_read` of `n` bytes. -/
def Wire.read (w : Wire) (n : ℕ) : List UInt8 × Wire :=
  let got := w.stream.take (n - w.short.headD 0)
  (got, ⟨w.stream.drop got.length, w.short.tail⟩)

/-- What stands in `ext` and in the buffer before a call. -/
structure Memory where
  ext : ℕ → UInt8
  buf : ℕ → UInt8

/-- A field of `n` bytes, of which the first are read. -/
def readInto (n : ℕ) (old : ℕ → UInt8) (got : List UInt8) : List UInt8 :=
  (List.range n).map fun i => got.getD i (old i)

/-- What a call of `ws_read_text` leaves behind: its result, the bytes before the terminator, and
the indices of the buffer that it has written. -/
structure Reading where
  result : Int32
  text : List UInt8
  writes : List ℤ

/-- `payload_len`, behind the header. -/
def Wire.readLength (w : Wire) (mem : Memory) (second : UInt8) : Int32 × Wire :=
  let short := second &&& 0x7F
  if short = 126 then
    let (ext, w) := w.read 2
    ((shiftBytes32 (readInto 2 mem.ext ext)).toInt32, w)
  else if short = 127 then
    let (ext, w) := w.read 8
    ((shiftBytes32 (readInto 8 mem.ext ext)).toInt32, w)
  else (short.toUInt32.toInt32, w)

/-- `mask`, which is zero where it is not read. -/
def Wire.readMask (w : Wire) (second : UInt8) : List UInt8 × Wire :=
  if second &&& 0x80 ≠ 0 then
    let (mask, w) := w.read 4
    (readInto 4 (fun _ => 0) mask, w)
  else ([0, 0, 0, 0], w)

/-- The rest of `ws_read_text`, from the read of the payload on. A negative length is a large
number for the read. -/
def Wire.readPayload (w : Wire) (size : Cvm.SizeT) (mem : Memory) (mask : List UInt8)
    (payloadLen : Int32) : Reading × Wire :=
  let (got, w) := w.read (payloadLen.toInt % 2 ^ size.bits).toNat
  let n := payloadLen.toNatClampNeg
  let text := (readInto n mem.buf got).mapIdx fun i b => b ^^^ mask.getD (i % 4) 0
  (⟨payloadLen, text, (List.range (max got.length n)).map (↑) ++ [payloadLen.toInt]⟩, w)

/-- `ws_read_text`. -/
def Wire.readText (w : Wire) (size : Cvm.SizeT) (mem : Memory) (bufLen : ℕ) : Reading × Wire :=
  let (header, w) := w.read 2
  if header.length < 2 then (⟨-1, [], []⟩, w)
  else if header.getD 0 0 &&& 0x0F = 0x08 then (⟨-1, [], []⟩, w)
  else
    let second := header.getD 1 0
    let (payloadLen, w) := w.readLength mem second
    let (mask, w) := w.readMask second
    let room := Int32.ofNat bufLen - 1
    w.readPayload size mem mask (if payloadLen > room then room else payloadLen)

/-- The calls of a session up to the first that fails, that one among them; at most `n`. A call
that fails may have written before: a negative length is returned after its terminator. -/
def sessionCalls (size : Cvm.SizeT) (mem : ℕ → Memory) (bufLen : ℕ) : ℕ → Wire → List Reading
  | 0, _ => []
  | n + 1, w =>
    let r := w.readText size (mem n) bufLen
    r.1 :: if r.1.result < 0 then [] else sessionCalls size mem bufLen n r.2

/-- The calls whose text the session goes on to parse. -/
def readTexts (size : Cvm.SizeT) (mem : ℕ → Memory) (bufLen n : ℕ) (w : Wire) : List Reading :=
  (sessionCalls size mem bufLen n w).takeWhile fun r => decide (0 ≤ r.result)

/-! ### What the session should see -/

/-- A close frame. -/
def closes (f : Frame) : Bool := f.first &&& 0x0F = 0x08

/-- The calls, also one that fails, write inside of the buffer only; those that do not fail give
the payloads of the frames before a close frame, as far as the buffer takes them. -/
def Delivers (size : Cvm.SizeT) (mem : ℕ → Memory) (bufLen n : ℕ) (frames : List Frame)
    (short : List ℕ) : Prop :=
  let w : Wire := ⟨frames.flatMap Frame.bytes, short⟩
  (∀ r ∈ sessionCalls size mem bufLen n w, ∀ i ∈ r.writes, 0 ≤ i ∧ i < bufLen) ∧
    (readTexts size mem bufLen n w).map (fun r => r.text) =
      ((frames.takeWhile fun f => !closes f).take n).map fun f => f.payload.take (bufLen - 1)

/-- No read falls short, and every payload is shorter than the buffer. -/
def Complete (bufLen : ℕ) (frames : List Frame) (short : List ℕ) : Prop :=
  (∀ s ∈ short, s = 0) ∧ ∀ f ∈ frames, f.payload.length < bufLen

/-! ### A frame that is read whole -/

section Whole

variable {short : List ℕ} (hshort : ∀ s ∈ short, s = 0)

include hshort in
theorem tail_zero : ∀ s ∈ short.tail, s = 0 := fun s hs => hshort s (List.mem_of_mem_tail hs)

include hshort in
/-- A read that does not fall short. -/
theorem read_append (xs rest : List UInt8) :
    Wire.read ⟨xs ++ rest, short⟩ xs.length = (xs, ⟨rest, short.tail⟩) := by
  have hzero : short.headD 0 = 0 := by
    cases short with
    | nil => rfl
    | cons s short => exact hshort s List.mem_cons_self
  unfold Wire.read
  simp only [hzero, Nat.sub_zero, List.take_left', List.drop_left']

theorem readInto_of_length {n : ℕ} {got : List UInt8} (h : got.length = n) (old : ℕ → UInt8) :
    readInto n old got = got := by
  subst h
  refine List.ext_getElem (by simp [readInto]) fun i hi hi' => ?_
  simp [readInto, hi']

/-- The length of a frame, added up in an `int`. -/
theorem toInt32_shiftBytes32 {k n : ℕ} (hk : n < 256 ^ k) :
    (shiftBytes32 (beBytes k n)).toInt32 = Int32.ofNat n := by
  have hword : shiftBytes32 (beBytes k n) = UInt32.ofNat n := by
    rw [← UInt32.toNat_inj, toNat_shiftBytes32, beNat_beBytes_of_lt hk, UInt32.toNat_ofNat']
  rw [hword]
  rfl

/-- The second byte of a frame, and what follows of its length. -/
theorem bytes_eq (f : Frame) : ∃ code ext, code.toNat ≤ 127 ∧
    f.bytes = f.first :: (maskBit f.mask ||| code) :: (ext ++ f.body) ∧
    (code = 126 ∧ ext = beBytes 2 f.payload.length ∧ f.payload.length < 256 ^ 2 ∨
      code = 127 ∧ ext = beBytes 8 f.payload.length ∧ f.payload.length < 256 ^ 8 ∨
      code = UInt8.ofNat f.payload.length ∧ ext = [] ∧ f.payload.length < 126) := by
  obtain ⟨first, form, mask, payload, hfits⟩ := f
  -- the length is in the second byte, or in two or eight bytes behind it
  cases form with
  | short =>
    have hcode : (UInt8.ofNat payload.length).toNat = payload.length := by
      rw [UInt8.toNat_ofNat', Nat.mod_eq_of_lt (lt_trans hfits (by decide))]
    have hfits : payload.length < 126 := hfits
    refine ⟨UInt8.ofNat payload.length, [], ?_, rfl, .inr (.inr ⟨rfl, rfl, hfits⟩)⟩
    rw [hcode]
    exact hfits.le.trans (by norm_num)
  | word => exact ⟨126, beBytes 2 payload.length, by decide, rfl, .inl ⟨rfl, rfl, hfits⟩⟩
  | quad => exact ⟨127, beBytes 8 payload.length, by decide, rfl, .inr (.inl ⟨rfl, rfl, hfits⟩)⟩

/-- The bits of the second byte. -/
theorem second_bits {code : UInt8} (hcode : code.toNat ≤ 127) (mask : Option (Vector UInt8 4)) :
    (maskBit mask ||| code) &&& 0x7F = code ∧
      ((maskBit mask ||| code) &&& 0x80 ≠ 0 ↔ mask.isSome = true) := by
  obtain ⟨hvalue, hbit⟩ := Cvm.bits_second hcode mask
  rw [UInt8.ofNat_toNat] at hvalue hbit
  exact ⟨UInt8.toNat_inj.mp hvalue, hbit⟩

include hshort in
/-- The length is read from what follows of it. -/
theorem readLength_ext (f : Frame) (mem : Memory) (rest : List UInt8) {code : UInt8}
    {ext : List UInt8} {second : UInt8} (hsecond : second &&& 0x7F = code)
    (hcode : code = 126 ∧ ext = beBytes 2 f.payload.length ∧ f.payload.length < 256 ^ 2 ∨
      code = 127 ∧ ext = beBytes 8 f.payload.length ∧ f.payload.length < 256 ^ 8 ∨
      code = UInt8.ofNat f.payload.length ∧ ext = [] ∧ f.payload.length < 126) :
    ∃ short', (∀ s ∈ short', s = 0) ∧ Wire.readLength ⟨ext ++ rest, short⟩ mem second =
      (Int32.ofNat f.payload.length, ⟨rest, short'⟩) := by
  unfold Wire.readLength
  rw [hsecond]
  obtain ⟨rfl, rfl, hlt⟩ | ⟨rfl, rfl, hlt⟩ | ⟨rfl, rfl, hlt⟩ := hcode
  · refine ⟨short.tail, tail_zero hshort, ?_⟩
    have hread := read_append hshort (beBytes 2 f.payload.length) rest
    rw [length_beBytes] at hread
    simp only [if_true, hread, readInto_of_length (length_beBytes 2 _), toInt32_shiftBytes32 hlt]
  · refine ⟨short.tail, tail_zero hshort, ?_⟩
    have hread := read_append hshort (beBytes 8 f.payload.length) rest
    rw [length_beBytes] at hread
    simp only [hread, readInto_of_length (length_beBytes 8 _), toInt32_shiftBytes32 hlt]
    rfl
  · -- no read: the code is the length, and neither of the two others
    refine ⟨short, hshort, ?_⟩
    have hcode : (UInt8.ofNat f.payload.length).toNat = f.payload.length := by
      rw [UInt8.toNat_ofNat', Nat.mod_eq_of_lt (by omega)]
    have hne : ∀ k : UInt8, k.toNat ≥ 126 → UInt8.ofNat f.payload.length ≠ k := by
      rintro k hk rfl
      omega
    have hword : (UInt8.ofNat f.payload.length).toUInt32 = UInt32.ofNat f.payload.length := by
      rw [← UInt32.toNat_inj, UInt8.toNat_toUInt32, hcode, UInt32.toNat_ofNat',
        Nat.mod_eq_of_lt (by omega)]
    rw [if_neg (hne 126 (by decide)), if_neg (hne 127 (by decide)), hword]
    rfl

include hshort in
/-- The mask is read, and the payload without it. -/
theorem readMask_body (f : Frame) (rest : List UInt8) {second : UInt8}
    (hsecond : second &&& 0x80 ≠ 0 ↔ f.mask.isSome = true) :
    ∃ short' mask masked, (∀ s ∈ short', s = 0) ∧ masked.length = f.payload.length ∧
      Wire.readMask ⟨f.body ++ rest, short⟩ second = (mask, ⟨masked ++ rest, short'⟩) ∧
      (masked.mapIdx fun i b => b ^^^ mask.getD (i % 4) 0) = f.payload := by
  unfold Wire.readMask Frame.body
  cases hmask : f.mask with
  | none =>
    rw [hmask] at hsecond
    refine ⟨short, [0, 0, 0, 0], f.payload, hshort, rfl, ?_, ?_⟩
    · rw [if_neg fun h => Bool.false_ne_true (hsecond.mp h)]
    · -- four zeros are no mask
      refine List.ext_getElem (by simp) fun i hi _ => ?_
      have hzero : ([0, 0, 0, 0] : List UInt8).getD (i % 4) 0 = 0 := by
        have hmod : i % 4 < 4 := Nat.mod_lt i (by norm_num)
        interval_cases i % 4 <;> rfl
      rw [List.getElem_mapIdx, hzero, UInt8.xor_zero]
  | some m =>
    rw [hmask] at hsecond
    have hread := read_append hshort m.toList (applyMask m f.payload ++ rest)
    rw [Vector.length_toList] at hread
    refine ⟨short.tail, m.toList, applyMask m f.payload, tail_zero hshort,
      length_applyMask m f.payload, ?_, applyMask_applyMask m f.payload⟩
    rw [if_pos (hsecond.mpr rfl), List.append_assoc]
    simp only [hread, readInto_of_length Vector.length_toList]

include hshort in
/-- The payload of a frame that fits is read whole. -/
theorem readPayload_whole {masked mask payload rest : List UInt8} (size : Cvm.SizeT) (mem : Memory)
    (hlength : masked.length = payload.length) (hsmall : payload.length < 2 ^ 31)
    (hmask : (masked.mapIdx fun i b => b ^^^ mask.getD (i % 4) 0) = payload) :
    Wire.readPayload ⟨masked ++ rest, short⟩ size mem mask (Int32.ofNat payload.length) =
      (⟨Int32.ofNat payload.length, payload,
        (List.range payload.length).map (↑) ++ [(payload.length : ℤ)]⟩, ⟨rest, short.tail⟩) := by
  have hint : (Int32.ofNat payload.length).toInt = payload.length := Int32.toInt_ofNat_of_lt hsmall
  have hasked : ((payload.length : ℤ) % 2 ^ size.bits).toNat = payload.length := by
    rw [Int.emod_eq_of_lt (Int.natCast_nonneg _), Int.toNat_natCast]
    have hbits : (2 : ℤ) ^ 32 ≤ 2 ^ size.bits := by
      cases size with
      | bits32 => exact le_rfl
      | bits64 => exact pow_le_pow_right₀ (by norm_num) (by decide)
    omega
  have hread := read_append hshort masked rest
  rw [hlength] at hread
  unfold Wire.readPayload
  rw [Int32.toNatClampNeg, hint, Int.toNat_natCast, hasked, hread]
  dsimp only
  rw [readInto_of_length hlength, hmask, hlength, max_self]

include hshort in
/-- The first two bytes are read as the header. -/
theorem read_header (f : Frame) (rest : List UInt8) {second : UInt8} {ext : List UInt8}
    (hbytes : f.bytes = f.first :: second :: (ext ++ f.body)) :
    Wire.read ⟨f.bytes ++ rest, short⟩ 2 =
      ([f.first, second], ⟨ext ++ (f.body ++ rest), short.tail⟩) := by
  have hstream : f.bytes ++ rest = [f.first, second] ++ (ext ++ (f.body ++ rest)) := by
    rw [hbytes, ← List.append_assoc ext]
    rfl
  rw [hstream]
  exact read_append hshort [f.first, second] _

/-- What a call gives for a frame. -/
def readingOf (f : Frame) : Reading :=
  ⟨Int32.ofNat f.payload.length, f.payload,
    (List.range f.payload.length).map (↑) ++ [(f.payload.length : ℤ)]⟩

include hshort in
/-- A frame that fits is read whole, and the next call finds what is behind it. -/
theorem readText_whole (size : Cvm.SizeT) (mem : Memory) {bufLen : ℕ} (hbuf : bufLen < 2 ^ 31)
    {f : Frame} (hfits : f.payload.length < bufLen) (hopen : closes f = false) (rest : List UInt8) :
    ∃ short', (∀ s ∈ short', s = 0) ∧
      Wire.readText ⟨f.bytes ++ rest, short⟩ size mem bufLen =
        (readingOf f, ⟨rest, short'⟩) := by
  obtain ⟨code, ext, hcode, hbytes, hlength⟩ := bytes_eq f
  obtain ⟨hseven, hbit⟩ := second_bits hcode f.mask
  obtain ⟨short₁, hshort₁, hext⟩ :=
    readLength_ext (tail_zero hshort) f mem (f.body ++ rest) hseven hlength
  obtain ⟨short₂, mask, masked, hshort₂, hmasked, hmask, hpayload⟩ :=
    readMask_body hshort₁ f rest hbit
  have hheader := read_header hshort f rest hbytes
  -- the buffer has room for the payload and its terminator, so nothing is cut
  have hroom : ¬ Int32.ofNat f.payload.length > Int32.ofNat bufLen - 1 := by
    have hbufInt : (Int32.ofNat bufLen).toInt = bufLen := Int32.toInt_ofNat_of_lt hbuf
    have hint : (Int32.ofNat f.payload.length).toInt = f.payload.length :=
      Int32.toInt_ofNat_of_lt (hfits.trans hbuf)
    have hone : (1 : Int32).toInt = 1 := rfl
    have hsub : (Int32.ofNat bufLen - 1).toInt = (bufLen : ℤ) - 1 := by
      rw [Int32.toInt_sub, hbufInt, hone]
      exact Int.bmod_eq_of_le (by omega) (by omega)
    rw [gt_iff_lt, Int32.lt_iff_toInt_lt, hsub, hint]
    omega
  have hfirst : ¬ f.first &&& 0x0F = 0x08 := of_decide_eq_false hopen
  refine ⟨short₂.tail, tail_zero hshort₂, ?_⟩
  unfold Wire.readText
  rw [hheader]
  simp only [List.getD_cons_zero, List.getD_cons_succ, List.length_cons, List.length_nil,
    if_neg hfirst, hext, hmask, if_neg hroom]
  exact readPayload_whole hshort₂ size mem hmasked (hfits.trans hbuf) hpayload

include hshort in
/-- A call that finds a close frame fails before it writes. -/
theorem readText_closes (size : Cvm.SizeT) (mem : Memory) (bufLen : ℕ) {f : Frame}
    (hcloses : closes f = true) (rest : List UInt8) :
    (Wire.readText ⟨f.bytes ++ rest, short⟩ size mem bufLen).1 = ⟨-1, [], []⟩ := by
  obtain ⟨code, ext, -, hbytes, -⟩ := bytes_eq f
  have hheader := read_header hshort f rest hbytes
  have hfirst : f.first &&& 0x0F = 0x08 := of_decide_eq_true hcloses
  unfold Wire.readText
  rw [hheader]
  simp only [List.getD_cons_zero, List.length_cons, List.length_nil, if_pos hfirst, ite_self]

/-- So does one that finds nothing. -/
theorem readText_nil (size : Cvm.SizeT) (mem : Memory) (bufLen : ℕ) (short : List ℕ) :
    (Wire.readText ⟨[], short⟩ size mem bufLen).1 = ⟨-1, [], []⟩ := by
  unfold Wire.readText Wire.read
  simp only [List.take_nil, List.length_nil, Nat.ofNat_pos, if_true]

/-- The result of a call that reads a frame is a length. -/
theorem result_readingOf {f : Frame} (hsmall : f.payload.length < 2 ^ 31) :
    0 ≤ (readingOf f).result := by
  have hint : (Int32.ofNat f.payload.length).toInt = f.payload.length :=
    Int32.toInt_ofNat_of_lt hsmall
  rw [Int32.le_iff_toInt_le]
  show 0 ≤ (Int32.ofNat f.payload.length).toInt
  rw [hint]
  exact Int.natCast_nonneg _

/-- The calls read one frame after the other, up to a close frame; one that fails behind them
writes nothing. -/
theorem sessionCalls_of_complete (size : Cvm.SizeT) (mem : ℕ → Memory) {bufLen : ℕ}
    (hbuf : bufLen < 2 ^ 31) {frames : List Frame} (hcomplete : Complete bufLen frames short)
    (n : ℕ) : ∃ failed : List Reading, (∀ r ∈ failed, r.result < 0 ∧ r.writes = []) ∧
      sessionCalls size mem bufLen n ⟨frames.flatMap Frame.bytes, short⟩ =
        ((frames.takeWhile fun f => !closes f).take n).map readingOf ++ failed := by
  have hminus : ∀ r ∈ [(⟨-1, [], []⟩ : Reading)], r.result < 0 ∧ r.writes = [] :=
    List.forall_mem_singleton.mpr ⟨by decide, rfl⟩
  -- each call takes one frame from the stream
  induction n generalizing frames short with
  | zero => exact ⟨[], nofun, rfl⟩
  | succ n ih =>
    obtain ⟨hshort, hfits⟩ := hcomplete
    cases frames with
    | nil =>
      refine ⟨[⟨-1, [], []⟩], hminus, ?_⟩
      rw [List.flatMap_nil, sessionCalls]
      simp only [readText_nil]
      rfl
    | cons f frames =>
      obtain ⟨hfit, hrest⟩ := List.forall_mem_cons.mp hfits
      rw [List.flatMap_cons, sessionCalls]
      cases hcloses : closes f with
      | true =>
        refine ⟨[⟨-1, [], []⟩], hminus, ?_⟩
        simp only [readText_closes hshort size (mem n) bufLen hcloses, List.takeWhile_cons, hcloses]
        rfl
      | false =>
        obtain ⟨short', hshort', hread⟩ := readText_whole hshort size (mem n) hbuf hfit hcloses
          (frames.flatMap Frame.bytes)
        obtain ⟨failed, hfailed, hcalls⟩ := ih ⟨hshort', hrest⟩
        have hresult : ¬ (readingOf f).result < 0 :=
          Int32.not_lt.mpr (result_readingOf (hfit.trans hbuf))
        refine ⟨failed, hfailed, ?_⟩
        rw [hread]
        dsimp only
        rw [if_neg hresult, hcalls]
        simp only [List.takeWhile_cons, hcloses, Bool.not_false, if_true, List.take_succ_cons,
          List.map_cons, List.cons_append]

/-- The texts that are parsed are the payloads of these frames. -/
theorem readTexts_of_complete (size : Cvm.SizeT) (mem : ℕ → Memory) {bufLen : ℕ}
    (hbuf : bufLen < 2 ^ 31) {frames : List Frame} (hcomplete : Complete bufLen frames short)
    (n : ℕ) : readTexts size mem bufLen n ⟨frames.flatMap Frame.bytes, short⟩ =
      ((frames.takeWhile fun f => !closes f).take n).map readingOf := by
  obtain ⟨failed, hfailed, hcalls⟩ := sessionCalls_of_complete size mem hbuf hcomplete n
  have hread : ∀ r ∈ ((frames.takeWhile fun f => !closes f).take n).map readingOf,
      decide (0 ≤ r.result) = true := by
    intro r hr
    obtain ⟨f, hf, rfl⟩ := List.mem_map.mp hr
    have hfit := hcomplete.2 f
      ((List.takeWhile_sublist _).subset ((List.take_sublist _ _).subset hf))
    exact decide_eq_true (result_readingOf (hfit.trans hbuf))
  have hnone : failed.takeWhile (fun r => decide (0 ≤ r.result)) = [] := by
    refine List.takeWhile_eq_nil_iff.mpr fun hne => ?_
    have hneg := (hfailed _ (List.getElem_mem hne)).1
    exact fun h => Int32.not_lt.mpr (of_decide_eq_true h) hneg
  rw [readTexts, hcalls, List.takeWhile_append_of_pos hread, hnone, List.append_nil]

end Whole

/-- **Frames that fit.** When no read falls short and every payload is shorter than the buffer, the
calls write inside of the buffer only and give the payloads of the frames. -/
theorem delivers_of_complete (size : Cvm.SizeT) (mem : ℕ → Memory) {bufLen : ℕ}
    (hbuf : bufLen < 2 ^ 31) (n : ℕ) {frames : List Frame} {short : List ℕ}
    (hcomplete : Complete bufLen frames short) :
    Delivers size mem bufLen n frames short := by
  have hframe : ∀ f ∈ (frames.takeWhile fun f => !closes f).take n,
      f.payload.length < bufLen := fun f hf =>
    hcomplete.2 f ((List.takeWhile_sublist _).subset ((List.take_sublist _ _).subset hf))
  obtain ⟨failed, hfailed, hcalls⟩ := sessionCalls_of_complete size mem hbuf hcomplete n
  unfold Delivers
  dsimp only
  rw [readTexts_of_complete size mem hbuf hcomplete, hcalls]
  refine ⟨fun r hr i hi => ?_, ?_⟩
  · obtain hr | hr := List.mem_append.mp hr
    · obtain ⟨f, hf, rfl⟩ := List.mem_map.mp hr
      have hfit := hframe f hf
      obtain hi | hi := List.mem_append.mp hi
      · obtain ⟨k, hk, rfl⟩ := List.mem_map.mp hi
        have hk := List.mem_range.mp hk
        omega
      · rw [List.mem_singleton.mp hi]
        omega
    · rw [(hfailed r hr).2] at hi
      exact absurd hi List.not_mem_nil
  · rw [List.map_map]
    refine List.map_congr_left fun f hf => ?_
    have hfit := hframe f hf
    show f.payload = f.payload.take (bufLen - 1)
    rw [List.take_of_length_le (by omega)]

/-- Two text frames of a relay. -/
def twoFrames : List Frame :=
  [⟨0x81, .short, none, [0x61, 0x62], by decide⟩, ⟨0x81, .short, none, [0x63], by decide⟩]

/-- Memory that was zero. -/
def zeroMemory : ℕ → Memory := fun _ => ⟨fun _ => 0, fun _ => 0⟩

theorem delivers_two :
    Complete 8192 twoFrames [] ∧ Delivers .bits32 zeroMemory 8192 2 twoFrames [] := by
  have hcomplete : Complete 8192 twoFrames [] := ⟨nofun, by decide⟩
  exact ⟨hcomplete, delivers_of_complete .bits32 zeroMemory (by decide) 2 hcomplete⟩

/-- A byte of the first payload that comes late is taken for the header of the second frame. -/
theorem late_byte_is_header : ¬ Delivers .bits32 zeroMemory 8192 2 twoFrames [0, 1] := by
  rintro ⟨-, htexts⟩
  exact absurd htexts (by decide)

end Relay

end TollGate
