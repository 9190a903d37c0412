import TollGate.Cvm.Server
import TollGate.Lib.WebSocket

/-!
# Text frames

`ws_send_text` writes a message as one masked frame, and `parse_ws_text_frame` reads a frame
from the front of a buffer. On frames in the shortest form (`WebSocket.encode`) the reader
gives the message as soon as all of it is there (`parseWsTextFrame_encode_append`), and nothing
before (`parseWsTextFrame_of_lt_encode`).

The writer computes the bytes of a long length with shifts of a `size_t` by up to 56, which
have no value where `size_t` has 32 bits, as on the device; so `frames_round_trip_iff` says up
to which length the writer's bytes are read back.
-/

namespace TollGate

namespace Cvm

open CStr WebSocket

/-! ### The writer -/

/-- The width of `size_t`: 32 bits on the device, 64 on the host of the unit tests. -/
inductive SizeT where
  | bits32
  | bits64
deriving DecidableEq

/-- The number of bits. -/
def SizeT.bits : SizeT → ℕ
  | .bits32 => 32
  | .bits64 => 64

/-- `len >> s`. A shift by the width or more is undefined; `wild` is what comes of it. -/
def shiftSize (size : SizeT) (wild : ℕ → ℕ → ℕ) (len s : ℕ) : ℕ :=
  if s < size.bits then len >>> s else wild len s

/-- The frame that `ws_send_text` fills in. -/
def wsFrame (size : SizeT) (wild : ℕ → ℕ → ℕ) (mask : Vector UInt8 4) (msg : CStr) :
    List UInt8 :=
  let len := msg.length
  let start :=
    if len ≤ 125 then [0x81, UInt8.ofNat (0x80 ||| len)]
    else if len ≤ 65535 then
      [0x81, 0x80 ||| 126, UInt8.ofNat ((len >>> 8) &&& 0xff), UInt8.ofNat (len &&& 0xff)]
    else
      [0x81, 0x80 ||| 127] ++ (List.range 8).map fun i =>
        UInt8.ofNat (shiftSize size wild len (56 - i * 8) &&& 0xff)
  start ++ mask.toList ++ msg.mapIdx fun i b => b ^^^ mask.toList.getD (i &&& 3) 0

/-- How a call of `ws_send_text` goes on. -/
inductive Sending where
  | sent
  | failed
  | waiting
deriving DecidableEq

/-- The loop over `esp_tls_conn_write`, with what it returns: the bytes that were written. -/
def writeLoop : List UInt8 → List Int32 → List UInt8 × Sending
  | [], _ => ([], .sent)
  | _, [] => ([], .waiting)
  | b :: frame, w :: ws =>
    if w < 0 then ([], .failed)
    else
      let r := writeLoop ((b :: frame).drop w.toNatClampNeg) ws
      ((b :: frame).take w.toNatClampNeg ++ r.1, r.2)

/-- `ws_send_text`, where `allocated` says whether there was memory for the frame. The number
of bytes to be written is an `int`. -/
def wsSendText (size : SizeT) (wild : ℕ → ℕ → ℕ) (mask : Vector UInt8 4)
    (allocated : Bool) (msg : CStr) (ws : List Int32) : List UInt8 × Sending :=
  if !allocated then ([], .failed)
  else
    let frame := wsFrame size wild mask msg
    writeLoop (frame.take (Int32.ofNat frame.length).toNatClampNeg) ws

/-! ### The reader on frames -/

/-- The bits of the second byte. -/
theorem bits_second {n : ℕ} (hn : n ≤ 127) (mask : Option (Vector UInt8 4)) :
    ((maskBit mask ||| UInt8.ofNat n) &&& 0x7F).toNat = n ∧
      ((maskBit mask ||| UInt8.ofNat n) &&& 0x80 ≠ 0 ↔ mask.isSome = true) := by
  have hclear : ∀ n ≤ 127, ((0 ||| UInt8.ofNat n) &&& 0x7F).toNat = n ∧
      (0 ||| UInt8.ofNat n) &&& 0x80 = 0 := by decide
  have hset : ∀ n ≤ 127, ((0x80 ||| UInt8.ofNat n) &&& 0x7F).toNat = n ∧
      (0x80 ||| UInt8.ofNat n) &&& 0x80 ≠ 0 := by decide
  cases mask with
  | none =>
    obtain ⟨hvalue, hbit⟩ := hclear n hn
    exact ⟨hvalue, iff_of_false (not_not.mpr hbit) Bool.false_ne_true⟩
  | some m =>
    obtain ⟨hvalue, hbit⟩ := hset n hn
    exact ⟨hvalue, iff_of_true hbit rfl⟩

/-- The length and the mask bit are read once the header is there. -/
theorem payloadLength_of_header {first : UInt8} {mask : Option (Vector UInt8 4)} {n : ℕ}
    (hn : n < 256 ^ 8) {buf : List UInt8} (h : header first mask n <+: buf) :
    payloadLength buf = some (n, (header first mask n).length) ∧
      (buf.getD 1 0 &&& 0x80 ≠ 0 ↔ mask.isSome = true) := by
  obtain ⟨rest, rfl⟩ := h
  rw [length_header]
  unfold header lengthField payloadLength
  split
  next hshort =>
    obtain ⟨hvalue, hmask⟩ := bits_second (by omega : n ≤ 127) mask
    refine ⟨?_, hmask⟩
    simp only [List.cons_append, List.nil_append, List.getD_cons_succ, List.getD_cons_zero, hvalue]
    rw [if_neg (by omega), if_neg (by omega)]
  next hlong =>
    split
    next hword =>
      obtain ⟨hvalue, hmask⟩ := bits_second (by omega : 126 ≤ 127) mask
      have hvalue : ((maskBit mask ||| 126) &&& 0x7F).toNat = 126 := hvalue
      have hbytes : ((beBytes 2 n ++ rest).take 2) = beBytes 2 n :=
        List.take_left' (length_beBytes 2 n)
      refine ⟨?_, hmask⟩
      simp only [List.cons_append, List.getD_cons_succ, List.getD_cons_zero, List.drop_succ_cons,
        List.drop_zero, hbytes, beNat_beBytes_of_lt (by omega : n < 256 ^ 2), hvalue, if_true]
      rw [if_neg (by simp)]
    next hquad =>
      obtain ⟨hvalue, hmask⟩ := bits_second (by omega : 127 ≤ 127) mask
      have hbytes : ((beBytes 8 n ++ rest).take 8) = beBytes 8 n :=
        List.take_left' (length_beBytes 8 n)
      have hvalue : ((maskBit mask ||| 127) &&& 0x7F).toNat = 127 := hvalue
      refine ⟨?_, hmask⟩
      simp only [List.cons_append, List.getD_cons_succ, List.getD_cons_zero, List.drop_succ_cons,
        List.drop_zero, hbytes, beNat_beBytes_of_lt hn, hvalue, if_true]
      rw [if_neg (by omega), if_neg (by simp)]

/-- Nothing is read from a part of the header. -/
theorem parseWsTextFrame_of_lt_header {first : UInt8} {mask : Option (Vector UInt8 4)} {n : ℕ}
    {buf : List UInt8} (h : buf <+: header first mask n)
    (hlt : buf.length < (header first mask n).length) : parseWsTextFrame buf = none := by
  unfold parseWsTextFrame
  by_cases htwo : buf.length < 2
  · rw [if_pos htwo]
  rw [if_neg htwo]
  -- the second byte is there, and says that more bytes of length follow
  have hsecond : buf.getD 1 0 = (header first mask n).getD 1 0 := by
    rw [List.getD_eq_getElem?_getD, List.getD_eq_getElem?_getD,
      List.prefix_iff_getElem?.mp h 1 (by omega), List.getElem?_eq_getElem (by omega)]
  rw [length_header] at hlt
  have hnone : payloadLength buf = none := by
    unfold payloadLength
    rw [hsecond]
    unfold header lengthField
    split
    next hshort =>
      rw [if_pos hshort] at hlt
      omega
    next hlong =>
      rw [if_neg hlong] at hlt
      split
      next hword =>
        rw [if_pos hword] at hlt
        have hvalue : ((maskBit mask ||| 126) &&& 0x7F).toNat = 126 :=
          (bits_second (by omega : 126 ≤ 127) mask).1
        simp only [List.getD_cons_succ, List.getD_cons_zero, hvalue, if_true]
        rw [if_pos hlt]
      next hquad =>
        rw [if_neg hquad] at hlt
        have hvalue : ((maskBit mask ||| 127) &&& 0x7F).toNat = 127 :=
          (bits_second (by omega : 127 ≤ 127) mask).1
        simp only [List.getD_cons_succ, List.getD_cons_zero, hvalue, if_true]
        rw [if_neg (by omega), if_pos hlt]
  rw [hnone]

theorem two_le_header (first : UInt8) (mask : Option (Vector UInt8 4)) (n : ℕ) :
    2 ≤ (header first mask n).length := by
  rw [length_header]
  split_ifs <;> norm_num

/-- The reader once the header of a frame without a mask is there. -/
theorem parseWsTextFrame_of_header_none {first : UInt8} {n : ℕ} (hn : n < 256 ^ 8)
    {buf : List UInt8} (h : header first none n <+: buf) :
    parseWsTextFrame buf =
      if (header first none n).length + n > buf.length then none
      else some (((buf.drop (header first none n).length).take n).takeWhile (· ≠ 0)) := by
  obtain ⟨hlength, hmask⟩ := payloadLength_of_header hn h
  have hclear : ¬ buf.getD 1 0 &&& 0x80 ≠ 0 := fun hset => Bool.false_ne_true (hmask.mp hset)
  unfold parseWsTextFrame
  rw [if_neg (Nat.not_lt.mpr ((two_le_header first none n).trans h.length_le)), hlength]
  simp only [hclear, if_false]

/-- The reader once the header of a masked frame is there. -/
theorem parseWsTextFrame_of_header_some {first : UInt8} {m : Vector UInt8 4} {n : ℕ}
    (hn : n < 256 ^ 8) {buf : List UInt8} (h : header first (some m) n <+: buf) :
    parseWsTextFrame buf =
      if (header first (some m) n).length + 4 + n > buf.length then none
      else some ((((buf.drop ((header first (some m) n).length + 4)).take n).mapIdx fun i b =>
        b ^^^ buf.getD ((header first (some m) n).length + i % 4) 0).takeWhile (· ≠ 0)) := by
  obtain ⟨hlength, hmask⟩ := payloadLength_of_header hn h
  have hset : buf.getD 1 0 &&& 0x80 ≠ 0 := hmask.mpr rfl
  unfold parseWsTextFrame
  rw [if_neg (Nat.not_lt.mpr ((two_le_header first (some m) n).trans h.length_le)), hlength]
  simp only [hset, ne_eq, not_false_eq_true, if_true, Nat.add_sub_cancel]

section Encoded

variable {first : UInt8} {mask : Option (Vector UInt8 4)} {payload : List UInt8}

theorem header_prefix_encode (rest : List UInt8) :
    header first mask payload.length <+: encode first mask payload ++ rest := by
  unfold encode
  rw [List.append_assoc]
  exact List.prefix_append _ _

/-- Behind the whole frame anything may stand. -/
theorem parseWsTextFrame_encode_append (hn : payload.length < 256 ^ 8) (rest : List UInt8) :
    parseWsTextFrame (encode first mask payload ++ rest) =
      some (payload.takeWhile (· ≠ 0)) := by
  cases mask with
  | none =>
    rw [parseWsTextFrame_of_header_none hn (header_prefix_encode rest), encode, List.append_assoc,
      List.drop_left, List.take_left, if_neg]
    rw [List.length_append, List.length_append]
    omega
  | some m =>
    have hdrop : (header first (some m) payload.length ++ (m.toList ++ applyMask m payload) ++
        rest).drop ((header first (some m) payload.length).length + 4) =
          applyMask m payload ++ rest := by
      rw [← List.append_assoc, List.append_assoc _ _ rest]
      exact List.drop_left' (by rw [List.length_append, Vector.length_toList])
    -- the four bytes behind the header are the mask
    have hkey : ∀ i, (header first (some m) payload.length ++ (m.toList ++ applyMask m payload) ++
        rest).getD ((header first (some m) payload.length).length + i % 4) 0 =
          m.toList.getD (i % 4) 0 := by
      intro i
      have hi : i % 4 < m.toList.length := by
        rw [Vector.length_toList]
        exact Nat.mod_lt i (by norm_num)
      rw [List.append_assoc, List.append_assoc, List.getD_eq_getElem?_getD,
        List.getElem?_append_right (Nat.le_add_right _ _), Nat.add_sub_cancel_left,
        List.getElem?_append_left hi, List.getD_eq_getElem?_getD]
    have htake : (applyMask m payload ++ rest).take payload.length = applyMask m payload :=
      List.take_left' (length_applyMask m payload)
    rw [parseWsTextFrame_of_header_some hn (header_prefix_encode rest), encode, hdrop, htake,
      if_neg]
    · simp only [hkey]
      exact congrArg (fun text => some (text.takeWhile (· ≠ 0))) (applyMask_applyMask m payload)
    · rw [List.length_append, List.length_append, List.length_append, Vector.length_toList,
        length_applyMask]
      omega

/-- Nothing is read before all of the frame is there. -/
theorem parseWsTextFrame_of_lt_encode (hn : payload.length < 256 ^ 8) {buf : List UInt8}
    (h : buf <+: encode first mask payload)
    (hlt : buf.length < (encode first mask payload).length) : parseWsTextFrame buf = none := by
  have hwhole : header first mask payload.length <+: encode first mask payload :=
    List.prefix_append _ _
  rw [length_encode] at hlt
  rcases le_or_gt (header first mask payload.length).length buf.length with hle | hgt
  · -- the length is known, and the frame goes on
    have hheader := List.prefix_of_prefix_length_le hwhole h hle
    cases mask with
    | none =>
      rw [parseWsTextFrame_of_header_none hn hheader]
      exact if_pos hlt
    | some m =>
      rw [parseWsTextFrame_of_header_some hn hheader]
      exact if_pos hlt
  · exact parseWsTextFrame_of_lt_header (List.prefix_of_prefix_length_le h hwhole hgt.le) hgt

end Encoded

/-! ### The writer's frames -/

/-- What was sent is the frame, however the writes cut it. -/
theorem writeLoop_of_sent {frame : List UInt8} {ws : List Int32}
    (h : (writeLoop frame ws).2 = .sent) : (writeLoop frame ws).1 = frame := by
  induction ws generalizing frame with
  | nil =>
    cases frame with
    | nil => rfl
    | cons b frame => exact absurd h (by simp [writeLoop])
  | cons w ws ih =>
    cases frame with
    | nil => rfl
    | cons b frame =>
      unfold writeLoop at h ⊢
      split
      next hfailed =>
        rw [if_pos hfailed] at h
        exact absurd h (by simp)
      next hwritten =>
        rw [if_neg hwritten] at h
        dsimp only at h ⊢
        rw [ih h, List.take_append_drop]

/-- A single write of everything. -/
theorem writeLoop_at_once (frame : List UInt8) (hlen : frame.length < 2 ^ 31) :
    (writeLoop frame [Int32.ofNat frame.length]).2 = .sent := by
  have hint : (Int32.ofNat frame.length).toInt = frame.length :=
    Int32.toInt_ofNat_of_lt hlen
  cases frame with
  | nil => rfl
  | cons b frame =>
    have hpos : ¬ Int32.ofNat (b :: frame).length < 0 := by
      rw [Int32.lt_iff_toInt_lt, hint]
      exact not_lt.mpr (Int.natCast_nonneg _)
    have hnat : (Int32.ofNat (b :: frame).length).toNatClampNeg = (b :: frame).length := by
      rw [Int32.toNatClampNeg, hint, Int.toNat_natCast]
    unfold writeLoop
    rw [if_neg hpos, hnat, List.drop_length]
    rfl

/-- The length is a number that the shifts of this `size_t` can take apart. -/
def SizeT.Reads (size : SizeT) (n : ℕ) : Prop := n ≤ 65535 ∨ size = .bits64

theorem ofNat_and_mask (v : ℕ) : UInt8.ofNat (v &&& 0xff) = UInt8.ofNat v := by
  rw [show v &&& 0xff = v % 256 from Nat.and_two_pow_sub_one_eq_mod v 8]
  exact UInt8.ofNat_mod_size

theorem wsFrame_eq_encode {size : SizeT} {msg : CStr} (h : size.Reads msg.length)
    (wild : ℕ → ℕ → ℕ) (mask : Vector UInt8 4) :
    wsFrame size wild mask msg = encode 0x81 (some mask) msg := by
  have hbody : (msg.mapIdx fun i b => b ^^^ mask.toList.getD (i &&& 3) 0) = applyMask mask msg := by
    refine List.ext_getElem (by simp) fun i _ _ => ?_
    simp only [applyMask, List.getElem_mapIdx]
    rw [show i &&& 3 = i % 4 from Nat.and_two_pow_sub_one_eq_mod i 2]
  unfold wsFrame encode header lengthField maskBit
  dsimp only
  rw [hbody, List.append_assoc]
  congr 1
  split
  · rw [UInt8.ofNat_or]
    rfl
  · split
    next =>
      -- two bytes of length
      rw [ofNat_and_mask, ofNat_and_mask, Nat.shiftRight_eq_div_pow]
      simp [beBytes]
    next hlong =>
      -- eight bytes, which need shifts by up to 56
      obtain rfl : size = .bits64 := h.resolve_left hlong
      have hshift : ∀ i ∈ List.range 8, UInt8.ofNat
          (shiftSize .bits64 wild msg.length (56 - i * 8) &&& 0xff) =
            UInt8.ofNat (msg.length / 256 ^ (7 - i)) := by
        intro i hi
        have hi : i < 8 := List.mem_range.mp hi
        rw [ofNat_and_mask, shiftSize, if_pos (by simp only [SizeT.bits]; omega),
          Nat.shiftRight_eq_div_pow, show 56 - i * 8 = 8 * (7 - i) by omega, pow_mul]
        norm_num
      rw [List.map_congr_left hshift]
      rfl

/-! ### The round trip -/

/-- Whatever a long message is sent with, the bytes that `ws_send_text` writes are read back as
the message, and no part of them is read as anything. -/
def RoundTrips (size : SizeT) (mask : Vector UInt8 4) (msg : CStr) : Prop :=
  ∀ wild ws, (wsSendText size wild mask true msg ws).2 = .sent →
    parseWsTextFrame (wsSendText size wild mask true msg ws).1 = some msg ∧
      ∀ n < (wsSendText size wild mask true msg ws).1.length,
        parseWsTextFrame ((wsSendText size wild mask true msg ws).1.take n) = none

/-- What is read from a frame with eight bytes of length needs 14 more bytes. -/
theorem length_of_parse_quad {first second : UInt8} {field rest buf : List UInt8} {text : CStr}
    (hvalue : (second &&& 0x7F).toNat = 127) (hmask : second &&& 0x80 ≠ 0)
    (hfield : field.length = 8) (h : buf <+: first :: second :: (field ++ rest))
    (hparse : parseWsTextFrame buf = some text) :
    text.length + 14 ≤ buf.length ∧ beNat field + 14 ≤ buf.length := by
  unfold parseWsTextFrame at hparse
  split at hparse
  · exact absurd hparse (by simp)
  next htwo =>
    obtain ⟨tail, htail⟩ := h
    obtain ⟨a, b, more, rfl⟩ : ∃ a b more, buf = a :: b :: more := by
      cases buf with
      | nil => simp at htwo
      | cons a buf =>
        cases buf with
        | nil => simp at htwo
        | cons b more => exact ⟨a, b, more, rfl⟩
    rw [List.cons_append, List.cons_append, List.cons.injEq, List.cons.injEq] at htail
    obtain ⟨rfl, rfl, hmore⟩ := htail
    simp only [payloadLength, List.getD_cons_succ, List.getD_cons_zero, hvalue,
      List.drop_succ_cons, List.drop_zero] at hparse
    rw [if_neg (by omega), if_pos trivial] at hparse
    split at hparse
    · exact absurd hparse (by simp)
    next length offset hlength =>
      split at hlength
      · exact absurd hlength (by simp)
      next hten =>
        -- the eight bytes are there
        have htake : more.take 8 = field := by
          have hle : 8 ≤ more.length := by simpa using hten
          have := congrArg (List.take 8) hmore
          rwa [List.take_append_of_le_length hle, List.take_left' hfield] at this
        rw [htake, Option.some.injEq, Prod.mk.injEq] at hlength
        obtain ⟨rfl, rfl⟩ := hlength
        simp only [hmask, ne_eq, not_false_eq_true, if_true] at hparse
        split at hparse
        · exact absurd hparse (by simp)
        next hroom =>
          rw [← Option.some.inj hparse]
          refine ⟨?_, by omega⟩
          refine (Nat.add_le_add_right (List.takeWhile_sublist _).length_le 14).trans ?_
          rw [List.length_mapIdx, List.length_take, List.length_drop]
          omega

section Long

variable (size : SizeT) (wild : ℕ → ℕ → ℕ) (mask : Vector UInt8 4) {msg : CStr}

/-- The eight bytes that are meant for the length. -/
def quadField (size : SizeT) (wild : ℕ → ℕ → ℕ) (len : ℕ) : List UInt8 :=
  (List.range 8).map fun i => UInt8.ofNat (shiftSize size wild len (56 - i * 8) &&& 0xff)

theorem wsFrame_of_long (hlong : 65535 < msg.length) :
    ∃ rest, wsFrame size wild mask msg =
        0x81 :: 0xFF :: (quadField size wild msg.length ++ rest) ∧
      (wsFrame size wild mask msg).length = msg.length + 14 := by
  unfold wsFrame
  dsimp only
  rw [if_neg (by omega), if_neg (by omega), List.append_assoc]
  refine ⟨_, rfl, ?_⟩
  simp only [List.length_append, List.length_map, List.length_range, List.length_mapIdx,
    Vector.length_toList, List.length_cons, List.length_nil]
  omega

/-- The bytes of a frame that the `int` counts. -/
def written (frame : List UInt8) : List UInt8 :=
  frame.take (Int32.ofNat frame.length).toNatClampNeg

theorem written_of_lt {frame : List UInt8} (hlen : frame.length < 2 ^ 31) :
    written frame = frame := by
  rw [written, Int32.toNatClampNeg, Int32.toInt_ofNat_of_lt hlen, Int.toNat_natCast,
    List.take_length]

theorem length_written_lt (frame : List UInt8) : (written frame).length < 2 ^ 31 := by
  rw [written, List.length_take, Int32.toNatClampNeg]
  have := (Int32.ofNat frame.length).toInt_lt
  omega

/-- Everything is written at once. -/
theorem wsSendText_at_once (msg : CStr) :
    wsSendText size wild mask true msg
        [Int32.ofNat (written (wsFrame size wild mask msg)).length] =
      (written (wsFrame size wild mask msg), .sent) := by
  have hsent := writeLoop_at_once _ (length_written_lt (wsFrame size wild mask msg))
  exact Prod.ext (writeLoop_of_sent hsent) hsent

variable {size wild mask} in
/-- The length of a long message that is read back, and what its eight bytes say, are at most
that of what was written. -/
theorem length_of_parse_written (hlong : 65535 < msg.length) {text : CStr}
    (hparse : parseWsTextFrame (written (wsFrame size wild mask msg)) = some text) :
    text.length + 14 < 2 ^ 31 ∧
      beNat (quadField size wild msg.length) + 14 ≤
        (written (wsFrame size wild mask msg)).length := by
  obtain ⟨rest, hframe, -⟩ := wsFrame_of_long size wild mask hlong
  have hprefix : written (wsFrame size wild mask msg) <+:
      0x81 :: 0xFF :: (quadField size wild msg.length ++ rest) :=
    hframe ▸ List.take_prefix _ _
  obtain ⟨htext, hfield⟩ := length_of_parse_quad (by decide) (by decide)
    (by simp [quadField]) hprefix hparse
  exact ⟨htext.trans_lt (length_written_lt _), hfield⟩

/-- Where the shifts are undefined the first byte of the length may be anything. -/
theorem le_beNat_quadField (n : ℕ) :
    255 * 256 ^ 7 ≤ beNat (quadField .bits32 (fun _ _ => 255) n) := by
  unfold quadField
  rw [show List.range 8 = 0 :: (List.range 7).map (· + 1) from rfl, List.map_cons, beNat_cons,
    List.length_map, List.length_map, List.length_range, shiftSize, if_neg (by decide)]
  exact Nat.le_add_right (255 * 256 ^ 7) _

end Long

/-- **Text frames round trip** exactly up to the length at which the writer's shifts leave the
`size_t`, or where that has 64 bits, at which the number of bytes leaves the `int`. -/
theorem frames_round_trip_iff (size : SizeT) (mask : Vector UInt8 4) (msg : CStr)
    (hmsg : 0 ∉ msg) :
    RoundTrips size mask msg ↔
      msg.length ≤ 65535 ∨ size = .bits64 ∧ msg.length + 14 < 2 ^ 31 := by
  refine ⟨fun htrips => ?_, fun hlength wild ws hsent => ?_⟩
  · by_contra hlength
    have hlong : 65535 < msg.length := not_le.mp fun hle => hlength (.inl hle)
    have htrip := htrips (fun _ _ => 255) _ (congrArg Prod.snd (wsSendText_at_once _ _ _ _))
    rw [wsSendText_at_once] at htrip
    obtain ⟨htext, hfield⟩ := length_of_parse_written hlong htrip.1
    cases size with
    | bits32 =>
      have hlarge := le_beNat_quadField msg.length
      have hwritten := length_written_lt (wsFrame .bits32 (fun _ _ => 255) mask msg)
      omega
    | bits64 => exact hlength (.inr ⟨rfl, htext⟩)
  · -- all of the frame is counted and written, and it is in the shortest form
    have hreads : size.Reads msg.length := hlength.imp_right And.left
    have hframe := wsFrame_eq_encode hreads wild mask
    have hbound : (encode 0x81 (some mask) msg).length < 2 ^ 31 := by
      rw [length_encode, length_header, Option.isSome_some, if_pos rfl]
      split_ifs <;> omega
    have hwritten : (wsSendText size wild mask true msg ws).1 = encode 0x81 (some mask) msg := by
      rw [show wsSendText size wild mask true msg ws =
        writeLoop (written (wsFrame size wild mask msg)) ws from rfl, hframe,
        written_of_lt hbound] at hsent ⊢
      exact writeLoop_of_sent hsent
    have hsize : msg.length < 256 ^ 8 := by omega
    rw [hwritten]
    refine ⟨?_, fun n hn => ?_⟩
    · have hparse : parseWsTextFrame (encode 0x81 (some mask) msg ++ []) = _ :=
        parseWsTextFrame_encode_append hsize []
      rw [List.append_nil] at hparse
      rw [hparse, List.takeWhile_eq_self_iff.mpr]
      exact fun b hb => decide_eq_true fun hzero => hmsg (hzero ▸ hb)
    · refine parseWsTextFrame_of_lt_encode hsize (List.take_prefix n _) ?_
      rwa [List.length_take, min_eq_left hn.le]

theorem frames_round_trip_short : RoundTrips .bits32 #v[1, 2, 3, 4] (cstr "hi") :=
  (frames_round_trip_iff .bits32 #v[1, 2, 3, 4] (cstr "hi") (by decide)).mpr (.inl (by decide))

/-- What a machine sends that shifts by `s % 32`. -/
def sentModulo (msg : CStr) : List UInt8 × Sending :=
  wsSendText .bits32 (fun len s => len >>> (s % 32)) #v[1, 2, 3, 4] true msg [65550]

/-- The upper half of the eight bytes is the lower half once more. -/
theorem lost_of_length {msg : CStr} (hlength : msg.length = 65536) :
    (sentModulo msg).2 = .sent ∧ parseWsTextFrame (sentModulo msg).1 = none ∧
      ¬ RoundTrips .bits32 #v[1, 2, 3, 4] msg := by
  have hlong : 65535 < msg.length := by omega
  obtain ⟨rest, -, hframe⟩ :=
    wsFrame_of_long .bits32 (fun len s => len >>> (s % 32)) #v[1, 2, 3, 4] hlong
  have hwritten := written_of_lt (hframe.trans_lt (by omega))
  have hrun := wsSendText_at_once .bits32 (fun len s => len >>> (s % 32)) #v[1, 2, 3, 4] msg
  rw [hwritten, hframe, hlength] at hrun
  have hrun : sentModulo msg = _ := hrun
  have hnone : parseWsTextFrame (sentModulo msg).1 = none := by
    refine Option.eq_none_iff_forall_ne_some.mpr fun text hparse => ?_
    rw [hrun, ← hwritten] at hparse
    have hle := (length_of_parse_written hlong hparse).2
    have hfield : beNat (quadField .bits32 (fun len s => len >>> (s % 32)) 65536) =
        65536 * 2 ^ 32 + 65536 := rfl
    rw [hlength, hfield, hwritten, hframe, hlength] at hle
    omega
  have hsent : (sentModulo msg).2 = .sent := by rw [hrun]
  refine ⟨hsent, hnone, fun htrips => ?_⟩
  have htrip : parseWsTextFrame (sentModulo msg).1 = some msg := (htrips _ _ hsent).1
  rw [hnone] at htrip
  cases htrip

/-- 65536 letters. -/
def longText : CStr := List.replicate 65536 97

theorem frame_lost :
    0 ∉ longText ∧ (sentModulo longText).2 = .sent ∧
      parseWsTextFrame (sentModulo longText).1 = none ∧
      ¬ RoundTrips .bits32 #v[1, 2, 3, 4] longText :=
  ⟨fun hzero => absurd (List.eq_of_mem_replicate hzero) (by decide),
    lost_of_length List.length_replicate⟩

end Cvm

end TollGate
