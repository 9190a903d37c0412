import TollGate.Cvm.Frames

/-!
# The bytes that the frame reader touches

`parse_ws_text_frame` adds the length of the payload, a `uint64_t` that the peer chooses, to the
offset of the payload, and compares the sum with the length of the buffer. At the top of the range
the sum wraps and the test lets the frame pass. What is left is `malloc`: it is asked for the
length plus one, a sum that may wrap as well.

`frameParse` is the reader with its machine words, `FrameReads` the indices that it reads.
`inBuffer_iff` says for which frames they lie in the buffer; for those the reader is
`parseWsTextFrame` (`frameParse_text`).
-/

namespace TollGate

namespace Cvm

/-- The start of a frame: the mask bit, `payload_len` and the offset of the payload. -/
structure FrameStart where
  masked : Bool
  payloadLen : UInt64
  offset : ℕ

/-- Where the payload starts behind a length field that ends at `fieldEnd`. -/
def FrameStart.of (masked : Bool) (payloadLen : UInt64) (fieldEnd : ℕ) : FrameStart :=
  ⟨masked, payloadLen, if masked then fieldEnd + 4 else fieldEnd⟩

/-- `parse_ws_text_frame`, up to the length test. The memory begins with the buffer. -/
def frameStart (buf : ℕ → UInt8) (len : Int32) : Option FrameStart :=
  if len < 2 then none
  else
    let masked : Bool := buf 1 &&& 0x80 ≠ 0
    let short := buf 1 &&& 0x7F
    if short = 126 then
      if len < 4 then none
      else some (.of masked (((buf 2).toUInt64 <<< 8) ||| (buf 3).toUInt64) 4)
    else if short = 127 then
      if len < 10 then none
      else some (.of masked (shiftBytes64 ((List.range 8).map fun i => buf (2 + i))) 10)
    else some (.of masked short.toUInt64 2)

/-- What is copied: the start of the frame, and the bytes that `malloc` gave. -/
structure FrameCopy where
  start : FrameStart
  allocated : ℕ

/-- `(size_t)payload_len + 1`. -/
def mallocSize (size : SizeT) (payloadLen : UInt64) : ℕ :=
  (payloadLen.toNat % 2 ^ size.bits + 1) % 2 ^ size.bits

/-- `parse_ws_text_frame`, up to the copy; `malloc` says for which sizes there is memory. -/
def frameParse (size : SizeT) (malloc : ℕ → Bool) (buf : ℕ → UInt8) (len : Int32) :
    Option FrameCopy :=
  match frameStart buf len with
  | none => none
  | some f =>
    if UInt64.ofNat f.offset + f.payloadLen > len.toInt64.toUInt64 then none
    else if malloc (mallocSize size f.payloadLen) then
      some ⟨f, mallocSize size f.payloadLen⟩
    else none

/-- `parse_ws_text_frame` reads the byte with this index. -/
inductive FrameReads (size : SizeT) (malloc : ℕ → Bool) (buf : ℕ → UInt8) (len : Int32) :
    ℕ → Prop where
  | second (hlen : ¬ len < 2) : FrameReads size malloc buf len 1
  | word {i : ℕ} (hshort : buf 1 &&& 0x7F = 126) (hlen : ¬ len < 4) (hi : i < 2) :
      FrameReads size malloc buf len (2 + i)
  | quad {i : ℕ} (hshort : buf 1 &&& 0x7F = 127) (hlen : ¬ len < 10) (hi : i < 8) :
      FrameReads size malloc buf len (2 + i)
  | mask {c : FrameCopy} {i : ℕ} (hcopy : frameParse size malloc buf len = some c)
      (hmasked : c.start.masked = true) (hi : i < 4) :
      FrameReads size malloc buf len (c.start.offset - 4 + i)
  /-- `offset + i` has 64 bits. -/
  | unmasking {c : FrameCopy} {i : ℕ} (hcopy : frameParse size malloc buf len = some c)
      (hmasked : c.start.masked = true) (hi : i < c.start.payloadLen.toNat) :
      FrameReads size malloc buf len ((c.start.offset + i) % 2 ^ 64)
  /-- `memcpy`, whose length is a `size_t`. -/
  | copying {c : FrameCopy} {i : ℕ} (hcopy : frameParse size malloc buf len = some c)
      (hmasked : c.start.masked = false) (hi : i < c.start.payloadLen.toNat % 2 ^ size.bits) :
      FrameReads size malloc buf len (c.start.offset + i)

/-- Every byte that is read is in the buffer, and a text has all of the memory that it needs. -/
def InBuffer (size : SizeT) (malloc : ℕ → Bool) (buf : ℕ → UInt8) (len : Int32) : Prop :=
  (∀ i, FrameReads size malloc buf len i → (i : ℤ) < len.toInt) ∧
    ∀ c, frameParse size malloc buf len = some c → c.allocated = c.start.payloadLen.toNat + 1

/-- The end of the payload leaves 64 bits, what is left of it is in the buffer, and there is memory
for the size that is asked for. -/
def Overruns (size : SizeT) (malloc : ℕ → Bool) (buf : ℕ → UInt8) (len : Int32) : Prop :=
  ∃ f, frameStart buf len = some f ∧ 2 ^ 64 ≤ f.offset + f.payloadLen.toNat ∧
    ((f.offset + f.payloadLen.toNat : ℕ) : ℤ) - 2 ^ 64 ≤ len.toInt ∧
    malloc (mallocSize size f.payloadLen) = true

/-! ### The start of a frame -/

section Start

variable {size : SizeT} {malloc : ℕ → Bool} {buf : ℕ → UInt8} {len : Int32} {f : FrameStart}

/-- A length that passes a comparison. -/
theorem toInt_le_of_not_lt {n : Int32} (h : ¬ len < n) : n.toInt ≤ len.toInt := by
  rwa [Int32.lt_iff_toInt_lt, not_lt] at h

/-- The length field is in the buffer, and the mask stands between it and the payload. -/
theorem frameStart_eq (h : frameStart buf len = some f) :
    ∃ fieldEnd : ℕ, 2 ≤ fieldEnd ∧ fieldEnd ≤ 10 ∧ (fieldEnd : ℤ) ≤ len.toInt ∧
      f.offset = if f.masked then fieldEnd + 4 else fieldEnd := by
  unfold frameStart at h
  split at h
  · cases h
  next hlen =>
    have htwo := toInt_le_of_not_lt hlen
    dsimp only at h
    -- each form of the length is compared with `len` before it is read
    split at h
    · split at h
      · cases h
      next hlen =>
        cases h
        exact ⟨4, by norm_num, by norm_num, toInt_le_of_not_lt hlen, rfl⟩
    · split at h
      · split at h
        · cases h
        next hlen =>
          cases h
          exact ⟨10, by norm_num, by norm_num, toInt_le_of_not_lt hlen, rfl⟩
      · cases h
        exact ⟨2, by norm_num, by norm_num, htwo, rfl⟩

/-- The sum of the length test. -/
theorem toNat_sum (h : frameStart buf len = some f) :
    (UInt64.ofNat f.offset + f.payloadLen).toNat = (f.offset + f.payloadLen.toNat) % 2 ^ 64 ∧
      f.offset ≤ 14 := by
  obtain ⟨fieldEnd, -, hten, -, hoffset⟩ := frameStart_eq h
  have hle : f.offset ≤ 14 := by
    rw [hoffset]
    split <;> omega
  refine ⟨?_, hle⟩
  rw [UInt64.toNat_add, UInt64.toNat_ofNat', Nat.mod_eq_of_lt (by omega : f.offset < 2 ^ 64)]

/-- The length of a buffer that is not empty, as a `uint64_t`. -/
theorem toNat_len (h : 0 ≤ len.toInt) : (len.toInt64.toUInt64.toNat : ℤ) = len.toInt := by
  have hle : 0 ≤ len.toInt64 := by
    rw [Int64.le_iff_toInt_le, Int32.toInt_toInt64]
    exact h
  rw [Int64.toNat_toUInt64_of_le hle, Int64.toNatClampNeg, Int32.toInt_toInt64,
    Int.toNat_of_nonneg h]

/-- What passes the length test. -/
theorem frameParse_eq_some {c : FrameCopy} : frameParse size malloc buf len = some c ↔
    ∃ f, frameStart buf len = some f ∧
      (((f.offset + f.payloadLen.toNat) % 2 ^ 64 : ℕ) : ℤ) ≤ len.toInt ∧
      malloc (mallocSize size f.payloadLen) = true ∧
      c = ⟨f, mallocSize size f.payloadLen⟩ := by
  unfold frameParse
  cases hstart : frameStart buf len with
  | none => exact iff_of_false nofun fun ⟨f, hf, _⟩ => by cases hf
  | some f =>
    obtain ⟨hsum, -⟩ := toNat_sum hstart
    obtain ⟨fieldEnd, htwo, -, hfield, -⟩ := frameStart_eq hstart
    have htest : UInt64.ofNat f.offset + f.payloadLen > len.toInt64.toUInt64 ↔
        len.toInt < (((f.offset + f.payloadLen.toNat) % 2 ^ 64 : ℕ) : ℤ) := by
      rw [← hsum, ← toNat_len (by omega)]
      exact UInt64.lt_iff_toNat_lt.trans Int.ofNat_lt.symm
    dsimp only
    by_cases hover : UInt64.ofNat f.offset + f.payloadLen > len.toInt64.toUInt64
    · rw [if_pos hover]
      refine iff_of_false nofun ?_
      rintro ⟨f', hf', hfits, -⟩
      obtain rfl := Option.some.inj hf'
      exact absurd (htest.mp hover) (not_lt.mpr hfits)
    · rw [if_neg hover]
      have hfits := not_lt.mp fun h => hover (htest.mpr h)
      by_cases hmalloc : malloc (mallocSize size f.payloadLen) = true
      · rw [if_pos hmalloc, Option.some.injEq]
        refine ⟨fun hc => ⟨f, rfl, hfits, hmalloc, hc.symm⟩, ?_⟩
        rintro ⟨f', hf', -, -, rfl⟩
        rw [Option.some.inj hf']
      · rw [if_neg hmalloc]
        refine iff_of_false nofun ?_
        rintro ⟨f', hf', -, hmalloc', -⟩
        obtain rfl := Option.some.inj hf'
        exact hmalloc hmalloc'

/-- A size below two gigabytes is not cut. -/
theorem mallocSize_of_lt (size : SizeT) {n : UInt64} (h : n.toNat < 2 ^ 31) :
    mallocSize size n = n.toNat + 1 := by
  have hbits : 2 ^ 32 ≤ 2 ^ size.bits := by
    cases size with
    | bits32 => exact le_rfl
    | bits64 => exact Nat.pow_le_pow_right (by norm_num) (by decide)
  have hlt : n.toNat < 2 ^ size.bits := by omega
  have hlt' : n.toNat + 1 < 2 ^ size.bits := by omega
  rw [mallocSize, Nat.mod_eq_of_lt hlt, Nat.mod_eq_of_lt hlt']

/-- A frame that passes the test lies in the buffer, or its end leaves 64 bits. -/
theorem copy_fits {c : FrameCopy} (hcopy : frameParse size malloc buf len = some c)
    (hno : ¬ Overruns size malloc buf len) :
    ((c.start.offset + c.start.payloadLen.toNat : ℕ) : ℤ) ≤ len.toInt ∧
      c.allocated = c.start.payloadLen.toNat + 1 := by
  obtain ⟨f, hstart, hfits, hmalloc, rfl⟩ := frameParse_eq_some.mp hcopy
  obtain ⟨-, hoffset⟩ := toNat_sum hstart
  have hlen := len.toInt_lt
  have hpayload := f.payloadLen.toNat_lt
  have hsmall : f.offset + f.payloadLen.toNat < 2 ^ 64 := by
    -- a sum that wraps and passes the test overruns
    by_contra hwraps
    refine hno ⟨f, hstart, not_lt.mp hwraps, ?_, hmalloc⟩
    rw [Nat.mod_eq_sub_mod (not_lt.mp hwraps), Nat.mod_eq_of_lt (by omega)] at hfits
    omega
  rw [Nat.mod_eq_of_lt hsmall] at hfits
  refine ⟨hfits, mallocSize_of_lt size ?_⟩
  omega

/-- A frame whose end leaves 64 bits is read behind the buffer. -/
theorem reads_behind (h : Overruns size malloc buf len) :
    ∃ i, FrameReads size malloc buf len i ∧ len.toInt ≤ i := by
  obtain ⟨f, hstart, hwraps, hfits, hmalloc⟩ := h
  obtain ⟨-, hoffset⟩ := toNat_sum hstart
  obtain ⟨fieldEnd, htwo, -, hfield, -⟩ := frameStart_eq hstart
  have hlen := len.toInt_lt
  have hpayload := f.payloadLen.toNat_lt
  have hcopy : frameParse size malloc buf len = some ⟨f, mallocSize size f.payloadLen⟩ := by
    refine frameParse_eq_some.mpr ⟨f, hstart, ?_, hmalloc, rfl⟩
    rw [Nat.mod_eq_sub_mod hwraps, Nat.mod_eq_of_lt (by omega)]
    omega
  -- the first byte of the copy that is not in the buffer
  cases hmasked : f.masked with
  | true =>
    refine ⟨_, .unmasking hcopy hmasked (i := len.toInt.toNat - f.offset) ?_, ?_⟩
    · show len.toInt.toNat - f.offset < f.payloadLen.toNat
      omega
    · rw [Nat.mod_eq_of_lt (by show f.offset + (len.toInt.toNat - f.offset) < 2 ^ 64; omega)]
      show len.toInt ≤ ((f.offset + (len.toInt.toNat - f.offset) : ℕ) : ℤ)
      omega
  | false =>
    -- of a length near 2^64 a cut to 32 bits leaves more than any buffer has
    have hcut : 2 ^ 31 ≤ f.payloadLen.toNat % 2 ^ size.bits := by
      cases size with
      | bits32 =>
        show 2 ^ 31 ≤ f.payloadLen.toNat % 2 ^ 32
        omega
      | bits64 =>
        show 2 ^ 31 ≤ f.payloadLen.toNat % 2 ^ 64
        omega
    refine ⟨_, .copying hcopy hmasked (i := len.toInt.toNat - f.offset) ?_, ?_⟩
    · show len.toInt.toNat - f.offset < f.payloadLen.toNat % 2 ^ size.bits
      omega
    · show len.toInt ≤ ((f.offset + (len.toInt.toNat - f.offset) : ℕ) : ℤ)
      omega

end Start

/-- **The reads of a frame.** Every byte that the reader touches is in the buffer, and a text has
all of the memory that it needs, exactly if the end of the payload does not leave 64 bits for a
place in the buffer while there is memory for the size that is asked for. -/
theorem inBuffer_iff (size : SizeT) (malloc : ℕ → Bool) (buf : ℕ → UInt8) (len : Int32) :
    InBuffer size malloc buf len ↔ ¬ Overruns size malloc buf len := by
  refine ⟨?_, fun hno => ⟨?_, fun c hcopy => (copy_fits hcopy hno).2⟩⟩
  · rintro ⟨hreads, -⟩ hover
    obtain ⟨i, hi, hbehind⟩ := reads_behind hover
    exact absurd (hreads i hi) (not_lt.mpr hbehind)
  · intro i hi
    cases hi with
    | second hlen =>
      have htwo : (2 : ℤ) ≤ len.toInt := toInt_le_of_not_lt hlen
      omega
    | word _ hlen hi =>
      have hfour : (4 : ℤ) ≤ len.toInt := toInt_le_of_not_lt hlen
      omega
    | quad _ hlen hi =>
      have hten : (10 : ℤ) ≤ len.toInt := toInt_le_of_not_lt hlen
      omega
    | @mask c i hcopy hmasked hi =>
      obtain ⟨hfits, -⟩ := copy_fits hcopy hno
      obtain ⟨f, hstart, -, -, rfl⟩ := frameParse_eq_some.mp hcopy
      obtain ⟨fieldEnd, htwo, -, -, hoffset⟩ := frameStart_eq hstart
      rw [if_pos hmasked] at hoffset
      dsimp only at hfits ⊢
      omega
    | @unmasking c i hcopy hmasked hi =>
      obtain ⟨hfits, -⟩ := copy_fits hcopy hno
      have hlen := len.toInt_lt
      rw [Nat.mod_eq_of_lt (by omega)]
      omega
    | @copying c i hcopy hmasked hi =>
      obtain ⟨hfits, -⟩ := copy_fits hcopy hno
      have hlen := hi.trans_le (Nat.mod_le _ _)
      omega

/-- The longest length there is, on a machine that has memory for small sizes. -/
theorem longest_length_overruns :
    ¬ InBuffer .bits64 (fun n => n < 65536) (fun i => [0x81, 0x7F].getD i 0xFF) 10 := by
  rintro ⟨hreads, -⟩
  have hover : Overruns .bits64 (fun n => n < 65536) (fun i => [0x81, 0x7F].getD i 0xFF) 10 :=
    ⟨⟨false, 0xFFFFFFFFFFFFFFFF, 10⟩, rfl, by decide, by decide, by decide⟩
  obtain ⟨i, hi, hbehind⟩ := reads_behind hover
  exact absurd (hreads i hi) (not_lt.mpr hbehind)

/-! ### The text of a frame -/

/-- The bytes that are copied. -/
def FrameCopy.text (c : FrameCopy) (buf : ℕ → UInt8) : List UInt8 :=
  (List.range c.start.payloadLen.toNat).map fun i =>
    if c.start.masked then
      buf ((c.start.offset + i) % 2 ^ 64) ^^^ buf (c.start.offset - 4 + i % 4)
    else buf (c.start.offset + i)

section Text

variable {bytes : List UInt8}

/-- A piece of a buffer, byte by byte. -/
theorem map_range_getD {m k : ℕ} (h : m + k ≤ bytes.length) :
    (List.range k).map (fun i => bytes.getD (m + i) 0) = (bytes.drop m).take k := by
  refine List.ext_getElem (by simp; omega) fun i hi _ => ?_
  have hi : i < k := by simpa using hi
  rw [List.getElem_map, List.getElem_range, List.getElem_take, List.getElem_drop,
    List.getD_eq_getElem?_getD, List.getElem?_eq_getElem (by omega), Option.getD_some]

/-- The length of a buffer compares as a number. -/
theorem ofNat_lt_iff {n m : ℕ} {k : Int32} (hn : n < 2 ^ 31) (hk : k.toInt = m) :
    Int32.ofNat n < k ↔ n < m := by
  rw [Int32.lt_iff_toInt_lt, Int32.toInt_ofNat_of_lt hn, hk]
  exact Int.ofNat_lt

/-- The start of a frame is what `payloadLength` reads. -/
theorem frameStart_bytes (hlen : bytes.length < 2 ^ 31) :
    frameStart (fun i => bytes.getD i 0) (Int32.ofNat bytes.length) =
      if bytes.length < 2 then none
      else (payloadLength bytes).map fun r =>
        .of (bytes.getD 1 0 &&& 0x80 ≠ 0) (UInt64.ofNat r.1) r.2 := by
  have hvalue : ∀ word : List UInt8, word.length ≤ 8 →
      shiftBytes64 word = UInt64.ofNat (beNat word) := by
    intro word hword
    rw [← toNat_shiftBytes64 hword, UInt64.ofNat_toNat]
  have hshort : ∀ n : UInt8, bytes.getD 1 0 &&& 0x7F = n ↔
      (bytes.getD 1 0 &&& 0x7F).toNat = n.toNat := fun n => UInt8.toNat_inj.symm
  unfold frameStart payloadLength
  refine if_congr (ofNat_lt_iff hlen rfl) rfl ?_
  rw [apply_ite (Option.map _)]
  refine if_congr (hshort 126) ?_ ?_
  · rw [apply_ite (Option.map _)]
    by_cases hfour : bytes.length < 4
    · rw [if_pos ((ofNat_lt_iff hlen rfl).mpr hfour), if_pos hfour]
      rfl
    · rw [if_neg fun h => hfour ((ofNat_lt_iff hlen rfl).mp h), if_neg hfour, Option.map_some,
        ← map_range_getD (by omega), ← hvalue _ (by simp)]
      have hword : ∀ a b : UInt8, (a.toUInt64 <<< 8) ||| b.toUInt64 = shiftBytes64 [a, b] := by
        intro a b
        simp [shiftBytes64]
      rw [hword]
      rfl
  · rw [apply_ite (Option.map _)]
    refine if_congr (hshort 127) ?_ ?_
    · rw [apply_ite (Option.map _)]
      by_cases hten : bytes.length < 10
      · rw [if_pos ((ofNat_lt_iff hlen rfl).mpr hten), if_pos hten]
        rfl
      · rw [if_neg fun h => hten ((ofNat_lt_iff hlen rfl).mp h), if_neg hten, Option.map_some,
          ← map_range_getD (by omega), ← hvalue _ (by simp)]
    · rw [Option.map_some]
      have hcast : ∀ a : UInt8, a.toUInt64 = UInt64.ofNat a.toNat := by
        intro a
        rw [← UInt64.toNat_inj, UInt8.toNat_toUInt64, UInt64.toNat_ofNat',
          Nat.mod_eq_of_lt (a.toNat_lt.trans (by norm_num))]
      rw [hcast]

theorem payloadLength_lt {n fieldEnd : ℕ} (h : payloadLength bytes = some (n, fieldEnd)) :
    n < 2 ^ 64 := by
  have hfield : ∀ k ≤ 8, beNat ((bytes.drop 2).take k) < 2 ^ 64 := by
    intro k hk
    calc _ < 256 ^ ((bytes.drop 2).take k).length := beNat_lt _
      _ ≤ 256 ^ 8 := Nat.pow_le_pow_right (by norm_num) ((List.length_take_le _ _).trans hk)
      _ = 2 ^ 64 := by norm_num
  unfold payloadLength at h
  dsimp only at h
  split at h
  · split at h
    · cases h
    · cases h
      exact hfield 2 (by norm_num)
  · split at h
    · split at h
      · cases h
      · cases h
        exact hfield 8 le_rfl
    · cases h
      exact (UInt8.toNat_lt _).trans (by norm_num)

/-- The length test on a frame that does not overrun the buffer. -/
theorem frameParse_of_start (hlen : bytes.length < 2 ^ 31) {size : SizeT} {f : FrameStart}
    (hstart : frameStart (fun i => bytes.getD i 0) (Int32.ofNat bytes.length) = some f)
    (hno : ¬ Overruns size (fun _ => true) (fun i => bytes.getD i 0) (Int32.ofNat bytes.length)) :
    frameParse size (fun _ => true) (fun i => bytes.getD i 0) (Int32.ofNat bytes.length) =
      if f.offset + f.payloadLen.toNat > bytes.length then none
      else some ⟨f, mallocSize size f.payloadLen⟩ := by
  have hint : (Int32.ofNat bytes.length).toInt = bytes.length := Int32.toInt_ofNat_of_lt hlen
  split
  next hover =>
    refine Option.eq_none_iff_forall_ne_some.mpr fun c hcopy => ?_
    have hfits := (copy_fits hcopy hno).1
    obtain ⟨f', hstart', -, -, rfl⟩ := frameParse_eq_some.mp hcopy
    obtain rfl := Option.some.inj (hstart.symm.trans hstart')
    dsimp only at hfits
    omega
  next hfits =>
    refine frameParse_eq_some.mpr ⟨f, hstart, ?_, rfl, rfl⟩
    rw [Nat.mod_eq_of_lt (by omega), hint]
    omega

/-- What is copied of a frame in the buffer. -/
theorem text_eq {f : FrameStart} {allocated : ℕ} (hlen : bytes.length < 2 ^ 31)
    (hfits : f.offset + f.payloadLen.toNat ≤ bytes.length) :
    (FrameCopy.text ⟨f, allocated⟩ fun i => bytes.getD i 0) =
      if f.masked then ((bytes.drop f.offset).take f.payloadLen.toNat).mapIdx fun i b =>
        b ^^^ bytes.getD (f.offset - 4 + i % 4) 0
      else (bytes.drop f.offset).take f.payloadLen.toNat := by
  unfold FrameCopy.text
  dsimp only
  cases f.masked with
  | false =>
    rw [if_neg Bool.false_ne_true, ← map_range_getD hfits]
    rfl
  | true =>
    rw [if_pos rfl, ← map_range_getD hfits]
    refine List.ext_getElem (by simp) fun i hi _ => ?_
    have hi : i < f.payloadLen.toNat := by simpa using hi
    rw [List.getElem_map, List.getElem_range, List.getElem_mapIdx, List.getElem_map,
      List.getElem_range, if_pos rfl, Nat.mod_eq_of_lt (by omega)]

/-- **The reader as modelled.** On a frame that does not overrun the buffer the machine words make
no difference. -/
theorem frameParse_text (hlen : bytes.length < 2 ^ 31) (size : SizeT)
    (hno : ¬ Overruns size (fun _ => true) (fun i => bytes.getD i 0) (Int32.ofNat bytes.length)) :
    (frameParse size (fun _ => true) (fun i => bytes.getD i 0) (Int32.ofNat bytes.length)).map
        (fun c => (c.text fun i => bytes.getD i 0).takeWhile (· ≠ 0)) =
      parseWsTextFrame bytes := by
  have hstart := frameStart_bytes hlen
  have hint : (Int32.ofNat bytes.length).toInt = bytes.length := Int32.toInt_ofNat_of_lt hlen
  unfold parseWsTextFrame
  by_cases htwo : bytes.length < 2
  · rw [if_pos htwo] at hstart ⊢
    rw [frameParse, hstart]
    rfl
  rw [if_neg htwo] at hstart ⊢
  cases hpayload : payloadLength bytes with
  | none =>
    rw [hpayload] at hstart
    rw [frameParse, hstart]
    rfl
  | some r =>
    obtain ⟨n, fieldEnd⟩ := r
    rw [hpayload, Option.map_some] at hstart
    have hn : (UInt64.ofNat n).toNat = n := by
      rw [UInt64.toNat_ofNat', Nat.mod_eq_of_lt (payloadLength_lt hpayload)]
    have hcopy := frameParse_of_start hlen hstart hno
    generalize hf : FrameStart.of (decide (bytes.getD 1 0 &&& 0x80 ≠ 0)) (UInt64.ofNat n) fieldEnd =
      f at hcopy
    -- the same offset, the same test and the same bytes
    have hlength : f.payloadLen.toNat = n := by
      rw [← hf]
      exact hn
    have hmasked : f.masked = true ↔ bytes.getD 1 0 &&& 0x80 ≠ 0 := by
      rw [← hf]
      exact decide_eq_true_iff
    have hoffset : (if bytes.getD 1 0 &&& 0x80 ≠ 0 then fieldEnd + 4 else fieldEnd) = f.offset := by
      rw [← if_congr hmasked rfl rfl, ← hf]
      rfl
    rw [hcopy]
    dsimp only
    rw [hoffset, hlength]
    by_cases hover : f.offset + n > bytes.length
    · rw [if_pos hover, if_pos hover]
      rfl
    · rw [if_neg hover, if_neg hover, Option.map_some, text_eq hlen (by omega), hlength]
      exact congrArg (fun text : List UInt8 => some (text.takeWhile (· ≠ 0)))
        (if_congr hmasked rfl rfl)

end Text

end Cvm

end TollGate
