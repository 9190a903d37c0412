import Mathlib
import TollGate.Qr.Segment

/-!
# The symbol of a text

`qrcode_initBytes` puts it all together: the segment with its padding, the function patterns, the
error correction, the codewords, the mask. `Fits` says that a text has room in a symbol of version 1
to 11 at the level L, which is what the display uses.

The results are about the whole way from the text to the modules. The symbol is drawn from the
codewords of the text with the mask of the smallest penalty (`Fits.finished`), a reader finds these
codewords in its modules (`Fits.readCodewords`), and gets the text back (`Fits.read`).
-/

namespace TollGate

namespace Qr

open BitString ReedSolomon

/-- What the caller of the library gets: the symbol with its version, size and level, the mode of
its text, the mask, and the bits of its modules. -/
structure QRCode where
  version : ℕ
  size : ℕ
  ecc : ℕ
  mode : ℕ
  mask : ℕ
  modules : List UInt8

/-- The lowest of the four levels, which is the one that the display asks for. -/
def eccLow : ℕ := 0

/-- The numbers of the levels in the format bits, two bits for each level, since the standard does
not number them in order. -/
def eccFormatBits : ℕ := (0x02 <<< 6) ||| (0x03 <<< 4) ||| (0x00 <<< 2) ||| (0x01 <<< 0)

/-- The next place in the buffer after some bits were appended. -/
theorem offset_appendBits (bb : BitBucket) (val length : ℕ) :
    (bbAppendBits bb val length).bitOffsetOrWidth = bb.bitOffsetOrWidth + length := by
  have hrun : ∀ (bits : List Bool) (bb : BitBucket),
      (bits.foldl appendBit bb).bitOffsetOrWidth = bb.bitOffsetOrWidth + bits.length := by
    intro bits
    induction bits with
    | nil => exact fun bb => rfl
    | cons bit bits ih =>
      intro bb
      have hstep : (appendBit bb bit).bitOffsetOrWidth = bb.bitOffsetOrWidth + 1 := rfl
      rw [List.foldl_cons, ih, hstep, List.length_cons]
      omega
  rw [bbAppendBits, hrun, length_bitsOf]

/-- Pad with alternate bytes until the data capacity is reached. The loop ends because each byte
takes eight bits more. -/
def padBytes (dataCapacity : ℕ) (codewords : BitBucket) (padByte : ℕ) : BitBucket :=
  if codewords.bitOffsetOrWidth < dataCapacity * 8 then
    padBytes dataCapacity (bbAppendBits codewords padByte 8) (padByte ^^^ (0xEC ^^^ 0x11))
  else codewords
termination_by dataCapacity * 8 - codewords.bitOffsetOrWidth
decreasing_by
  rw [offset_appendBits]
  omega

/-- The terminator of four zeros, or fewer where there is no room for four, zeros up to the end of
the byte, and bytes of padding. -/
def addPadding (dataCapacity : ℕ) (codewords : BitBucket) : BitBucket :=
  -- a `uint32_t`, which wraps where the text is too long
  let padding := (dataCapacity * 8 + 2 ^ 32 - codewords.bitOffsetOrWidth) % 2 ^ 32
  let padding := if 4 < padding then 4 else padding
  let codewords := bbAppendBits codewords 0 padding
  let codewords := bbAppendBits codewords 0 ((8 - codewords.bitOffsetOrWidth % 8) % 8)
  padBytes dataCapacity codewords 0xEC

/-- The symbol of some data, step by step as the source has it: the segment, its padding, the
patterns, the codewords for error correction, the modules, and the mask. It never fails, since the
modes of the source are never negative; data that are too long are not noticed. -/
def qrcodeInitBytes (version ecc : ℕ) (data : List UInt8) : QRCode :=
  let size := (version * 4 + 17) % 256
  let eccFormatBits := (eccFormatBits >>> (2 * ecc)) &&& 0x03
  let moduleCount := numRawDataModules.getD (version - 1) 0
  let dataCapacity :=
    moduleCount / 8 - (numErrorCorrectionCodewords.getD eccFormatBits []).getD (version - 1) 0
  let codewords := bbInitBuffer (bbGetBufferSizeBytes moduleCount)
  let encoded := encodeDataCodewords codewords data version
  let codewords := addPadding dataCapacity encoded.2
  let c := drawFunctionPatterns ⟨bbInitGrid size, bbInitGrid size⟩ version eccFormatBits
  let codewords := performErrorCorrection version eccFormatBits codewords
  let c := drawCodewords c codewords
  let selected := selectMask c eccFormatBits
  ⟨version, size, ecc, encoded.1, selected.2, selected.1.modules.data⟩

/-- The symbol of a text, which is what is in front of the first zero. -/
def qrcodeInitText (version ecc : ℕ) (data : List UInt8) : QRCode :=
  qrcodeInitBytes version ecc (data.takeWhile (· != 0))

/-- The colour of a module, light outside of the symbol. -/
def qrcodeGetModule (qrcoded : QRCode) (x y : ℕ) : Bool :=
  if qrcoded.size ≤ x ∨ qrcoded.size ≤ y then false
  else bitAt qrcoded.modules (y * qrcoded.size + x)

/-! ### Room for the text -/

/-- The data codewords of a symbol at the level L, those of all its blocks. -/
def dataRoom (version : ℕ) : ℕ := (Reader.blockTable version).2.sum

/-- A text that a symbol of this version has room for at the level L, whatever its characters are,
since the byte mode needs the most room. The versions are those that the display uses. -/
structure Fits (version : ℕ) (text : List UInt8) : Prop where
  low : version ∈ List.range' 1 11
  room : 4 + Reader.countWidth version 4 + 8 * text.length ≤ 8 * dataRoom version

variable {version : ℕ} {text : List UInt8}

/-- The tables of the source and those of the standard agree on the versions that the display uses:
the room for data, the codewords of all blocks, the size, and the version by the size. -/
theorem tables_low : ∀ v ∈ List.range' 1 11,
    numRawDataModules.getD (v - 1) 0 / 8 -
        (numErrorCorrectionCodewords.getD 1 []).getD (v - 1) 0 = dataRoom v ∧
      dataRoom v + (Reader.blockTable v).2.length * (Reader.blockTable v).1 =
        numRawDataModules.getD (v - 1) 0 / 8 ∧
      (v * 4 + 17) % 256 = Reader.sizeOf v ∧ Reader.versionOf (Reader.sizeOf v) = v := by
  decide

/-- The counts of characters have width enough for the room of the symbol, and in no mode much more
than in the byte mode. -/
theorem widths_low : ∀ v ∈ List.range' 1 11,
    (∀ mode ∈ [1, 2, 4], dataRoom v < 2 ^ Reader.countWidth v mode ∧
      Reader.countWidth v mode ≤ Reader.countWidth v 4 + 2) ∧
      4 + Reader.countWidth v 4 + 8 ≤ 8 * dataRoom v := by
  decide

/-- Whatever the mode, the segment has room: the modes with fewer bits for a character have at most
two bits more for the count. -/
theorem Fits.segment_le (h : Fits version text) :
    (segmentBits version text).length ≤ 8 * dataRoom version := by
  have hlow := List.mem_range'_1.mp h.low
  obtain ⟨hnum, halph, hbyte⟩ := getModeBits_eq version (List.mem_range'_1.mpr (by omega))
  obtain ⟨hwidths, hmin⟩ := widths_low version h.low
  have h1 := (hwidths 1 (by decide)).2
  have h2 := (hwidths 2 (by decide)).2
  have hroom := h.room
  have hn := length_numericBits_le text
  have ha := length_alphanumericBits_le text
  unfold segmentBits
  rw [hnum, halph, hbyte]
  split
  · simp only [List.length_append, length_bitsOf]
    omega
  · split
    · simp only [List.length_append, length_bitsOf]
      omega
    · simp only [List.length_append, length_bitsOf, length_bitsOfBytes]
      omega

/-- The number of characters fits its width in each mode. -/
theorem Fits.count_lt (h : Fits version text) :
    ∀ mode ∈ [1, 2, 4], text.length < 2 ^ Reader.countWidth version mode := by
  intro mode hmode
  have hroom := h.room
  have hwidth := ((widths_low version h.low).1 mode hmode).1
  omega

/-! ### The codewords -/

variable {bb : BitBucket} {bits : List Bool} {cap : ℕ}

/-- The padding fills the buffer up to the capacity for data, byte by byte, and leaves what is in
it. -/
theorem holds_padBytes (h : bb.Holds bits) (hbyte : bits.length % 8 = 0)
    (hle : bits.length ≤ 8 * cap) (hcap : cap ≤ bb.capacityBytes) (padByte : ℕ) :
    ∃ pad, (padBytes cap bb padByte).Holds (bits ++ pad) ∧ (bits ++ pad).length = 8 * cap ∧
      (padBytes cap bb padByte).capacityBytes = bb.capacityBytes := by
  induction bb, padByte using padBytes.induct cap generalizing bits with
  | case1 bb padByte hlt ih =>
    have hoffset := h.offset
    have hnext := h.appendBits padByte (show bits.length + 8 ≤ 8 * bb.capacityBytes by omega)
    have hlen : (bits ++ bitsOf 8 padByte).length = bits.length + 8 := by
      rw [List.length_append, length_bitsOf]
    have hpad := ih hnext (by omega) (by omega) (by rwa [capacity_appendBits])
    obtain ⟨pad, hholds, hdone, hcapacity⟩ := hpad
    rw [padBytes, if_pos hlt]
    rw [List.append_assoc] at hholds hdone
    exact ⟨_, hholds, hdone, hcapacity.trans (capacity_appendBits _ _ _)⟩
  | case2 bb padByte hge =>
    have hoffset := h.offset
    rw [padBytes, if_neg hge]
    refine ⟨[], ?_, ?_, rfl⟩
    · rwa [List.append_nil]
    · rw [List.append_nil]
      omega

/-- **After the padding the data are full**, whether there was room for a whole terminator, for a
part of it or for none. -/
theorem holds_addPadding (h : bb.Holds bits) (hle : bits.length ≤ 8 * cap)
    (hcap : cap ≤ bb.capacityBytes) (hsmall : cap < 2 ^ 28) :
    ∃ pad, (addPadding cap bb).Holds (bits ++ pad) ∧ (bits ++ pad).length = 8 * cap ∧
      (addPadding cap bb).capacityBytes = bb.capacityBytes := by
  have hoffset := h.offset
  have hwrap : (cap * 8 + 2 ^ 32 - bb.bitOffsetOrWidth) % 2 ^ 32 = cap * 8 - bits.length := by omega
  unfold addPadding
  rw [hwrap]
  dsimp only
  generalize hpadding : (if 4 < cap * 8 - bits.length then 4 else cap * 8 - bits.length) = padding
  have hp : padding ≤ cap * 8 - bits.length := by
    rw [← hpadding]
    split
    · omega
    · omega
  have hterm := h.appendBits 0 (show bits.length + padding ≤ 8 * bb.capacityBytes by omega)
  have hlen : (bits ++ bitsOf padding 0).length = bits.length + padding := by
    rw [List.length_append, length_bitsOf]
  have hoffset' := hterm.offset
  generalize hfill : (8 - (bbAppendBits bb 0 padding).bitOffsetOrWidth % 8) % 8 = fill
  have hfill' : (bits.length + padding + fill) % 8 = 0 ∧
      bits.length + padding + fill ≤ 8 * cap := by omega
  have hbyte := hterm.appendBits 0 (show (bits ++ bitsOf padding 0).length + fill ≤
    8 * (bbAppendBits bb 0 padding).capacityBytes by
      rw [hlen, capacity_appendBits]
      omega)
  have hlen' : (bits ++ bitsOf padding 0 ++ bitsOf fill 0).length =
      bits.length + padding + fill := by
    rw [List.length_append, hlen, length_bitsOf]
  obtain ⟨pad, hholds, hdone, hcapacity⟩ := holds_padBytes hbyte (by omega)
    (hlen'.trans_le hfill'.2) (by rwa [capacity_appendBits, capacity_appendBits]) 0xEC
  rw [List.append_assoc, List.append_assoc] at hholds hdone
  exact ⟨_, hholds, hdone, by rw [hcapacity, capacity_appendBits, capacity_appendBits]⟩

/-- The buffer with the data codewords of a text, before those for error correction are added. -/
def textCodewords (version : ℕ) (text : List UInt8) : BitBucket :=
  addPadding (dataRoom version)
    (encodeDataCodewords (bbInitBuffer (bbGetBufferSizeBytes
      (numRawDataModules.getD (version - 1) 0))) text version).2

/-- **The data codewords are the segment and its padding.** -/
theorem Fits.textCodewords (h : Fits version text) :
    ∃ pad, (textCodewords version text).Holds (segmentBits version text ++ pad) ∧
      (segmentBits version text ++ pad).length = 8 * dataRoom version ∧
      (textCodewords version text).capacityBytes =
        bbGetBufferSizeBytes (numRawDataModules.getD (version - 1) 0) := by
  obtain ⟨-, htotal, -, -⟩ := tables_low version h.low
  have hseg := h.segment_le
  have hcap : dataRoom version ≤
      bbGetBufferSizeBytes (numRawDataModules.getD (version - 1) 0) := by
    rw [bbGetBufferSizeBytes]
    omega
  obtain ⟨hholds, hcapacity⟩ := holds_encodeDataCodewords text version
    (holds_initBuffer (bbGetBufferSizeBytes (numRawDataModules.getD (version - 1) 0)))
    (hseg.trans (Nat.mul_le_mul_left 8 hcap))
  have hsmall : dataRoom version < 2 ^ 28 := by
    have hall : ∀ v ∈ List.range' 1 11, dataRoom v < 2 ^ 28 := by decide
    exact hall version h.low
  obtain ⟨pad, hpad, hlen, hsame⟩ :=
    holds_addPadding hholds hseg (hcap.trans_eq hcapacity.symm) hsmall
  exact ⟨pad, hpad, hlen, hsame.trans hcapacity⟩

/-- The buffer has room for all codewords of the symbol, which the error correction writes into
it. -/
theorem Fits.room_textCodewords (h : Fits version text) :
    numRawDataModules.getD (version - 1) 0 / 8 ≤ (Qr.textCodewords version text).capacityBytes := by
  obtain ⟨pad, -, -, hcapacity⟩ := h.textCodewords
  rw [hcapacity, bbGetBufferSizeBytes]
  omega

/-! ### The modules -/

/-- **The function patterns leave as many modules as the table says**, by counting them. -/
theorem length_dataPlaces : ∀ v ∈ List.range' 1 11,
    (Reader.dataPlaces v).length = numRawDataModules.getD (v - 1) 0 := by
  decide +kernel

/-- The bits that are drawn: those of all codewords, and zeros for the modules that are left
over. -/
def drawnBits (version : ℕ) (text : List UInt8) : List Bool :=
  (List.range (numRawDataModules.getD (version - 1) 0)).map
    (bitAt (performErrorCorrection version 1 (textCodewords version text)).data)

/-- The modules as a picture, which is how a reader sees the symbol. -/
def view (qrcoded : QRCode) : Picture := fun p => qrcodeGetModule qrcoded p.1 p.2

/-- What the display and a reader know of a symbol: its size, its mask, and a picture `f` of the
function patterns and the data without mask that the modules come from. -/
structure Finished (version : ℕ) (qrcoded : QRCode) (f : Picture) : Prop where
  size : qrcoded.size = Reader.sizeOf version
  mask : qrcoded.mask < 8
  modules : ∀ x < Reader.sizeOf version, ∀ y < Reader.sizeOf version, view qrcoded (x, y) =
    finished (Reader.reserved version) f (Reader.sizeOf version) 1 qrcoded.mask (x, y)
  least : ∀ i < 8, penaltyOf (Reader.sizeOf version) (view qrcoded) ≤
    penaltyOf (Reader.sizeOf version)
      (finished (Reader.reserved version) f (Reader.sizeOf version) 1 i)
  first : ∀ i < qrcoded.mask, penaltyOf (Reader.sizeOf version) (view qrcoded) <
    penaltyOf (Reader.sizeOf version)
      (finished (Reader.reserved version) f (Reader.sizeOf version) 1 i)

/-- The sizes of the versions that the display uses. -/
theorem size_low {v : ℕ} (h : v ∈ List.range' 1 11) :
    21 ≤ Reader.sizeOf v ∧ Reader.sizeOf v ≤ 61 := by
  have hlow := List.mem_range'_1.mp h
  rw [Reader.sizeOf]
  omega

/-- The modules of the format bits are reserved, so drawing them again for another mask disturbs no
data. -/
theorem reserved_formatCells {v : ℕ} (h : v ∈ List.range' 1 11) :
    ∀ q ∈ formatCells (Reader.sizeOf v), Reader.reserved v q = true := by
  intro q hq
  have hsize := (size_low h).1
  rw [mem_formatCells (by omega)] at hq
  rw [reserved_iff, inCorner_iff]
  omega

/-- The symbol before it has a mask: the patterns, and the bits in the modules that are free. -/
def unmaskedCanvas (version : ℕ) (text : List UInt8) : Canvas :=
  drawCodewords
    (drawFunctionPatterns
      ⟨bbInitGrid (Reader.sizeOf version), bbInitGrid (Reader.sizeOf version)⟩ version 1)
    (performErrorCorrection version 1 (textCodewords version text))

/-- The function in one equation, for a text with room: the symbol without mask, and the choice of
the mask. -/
theorem Fits.qrcodeInitBytes_eq (h : Fits version text) :
    qrcodeInitBytes version eccLow text = ⟨version, Reader.sizeOf version, eccLow,
      (encodeDataCodewords (bbInitBuffer (bbGetBufferSizeBytes
        (numRawDataModules.getD (version - 1) 0))) text version).1,
      (selectMask (unmaskedCanvas version text) 1).2,
      (selectMask (unmaskedCanvas version text) 1).1.modules.data⟩ := by
  obtain ⟨hcap, -, hsize, -⟩ := tables_low version h.low
  have hecc : (eccFormatBits >>> (2 * eccLow)) &&& 0x03 = 1 := by decide
  unfold qrcodeInitBytes unmaskedCanvas Qr.textCodewords
  dsimp only
  rw [hsize, hecc, hcap]

/-- **The symbol that is made**: the patterns and the bits with the mask on them, where the mask is
the first one with the smallest penalty. -/
theorem Fits.finished (h : Fits version text) :
    ∃ f, Finished version (qrcodeInitBytes version eccLow text)
      (paint f ((Reader.dataPlaces version).zip (drawnBits version text))) := by
  obtain ⟨h21, h61⟩ := size_low h.low
  have hlow := List.mem_range'_1.mp h.low
  have hstart : Canvas.Shows (Reader.sizeOf version)
      ⟨bbInitGrid (Reader.sizeOf version), bbInitGrid (Reader.sizeOf version)⟩ (fun _ => false)
      (fun _ => false) := ⟨shows_initGrid _, shows_initGrid _⟩
  obtain ⟨f, hf⟩ := hstart.drawFunctionPatterns 1 hlow.1 (by omega)
  have hdrawn : (unmaskedCanvas version text).Shows (Reader.sizeOf version)
      (paint f ((Reader.dataPlaces version).zip (drawnBits version text)))
      (Reader.reserved version) :=
    hf.drawCodewords (performErrorCorrection version 1 (Qr.textCodewords version text))
  obtain ⟨hmask, hshows, hleast, hfirst⟩ :=
    hdrawn.selectMask h21 (h61.trans (by omega)) (reserved_formatCells h.low) 1
  refine ⟨f, ?_⟩
  rw [h.qrcodeInitBytes_eq]
  generalize selectMask (unmaskedCanvas version text) 1 = selected at *
  generalize (encodeDataCodewords (bbInitBuffer (bbGetBufferSizeBytes
    (numRawDataModules.getD (version - 1) 0))) text version).1 = mode
  have hview : ∀ x < Reader.sizeOf version, ∀ y < Reader.sizeOf version,
      view ⟨version, Reader.sizeOf version, eccLow, mode, selected.2, selected.1.modules.data⟩
          (x, y) =
        bbGetBit selected.1.modules x y := by
    intro x hx y hy
    rw [view, qrcodeGetModule, if_neg (by dsimp only; omega), bbGetBit, hshows.modules.width]
  have hpenalty : getPenaltyScore selected.1.modules = penaltyOf (Reader.sizeOf version)
      (view ⟨version, Reader.sizeOf version, eccLow, mode, selected.2,
        selected.1.modules.data⟩) := by
    rw [getPenaltyScore, hshows.modules.width]
    exact (penaltyOf_congr hview).symm
  rw [hpenalty] at hleast hfirst
  exact ⟨rfl, hmask, fun x hx y hy => (hview x hx y hy).trans (hshows.modules.bits x hx y hy),
    hleast, hfirst⟩

/-! ### Reading -/

variable {qrcoded : QRCode} {f : Picture}

/-- The format bits of a symbol, in both copies, say the level L and the mask. -/
theorem Finished.formatBits (h : Finished version qrcoded f) (hlow : version ∈ List.range' 1 11) :
    Reader.formatPlaces.map (view qrcoded) =
        Reader.formatBits (Reader.formatWord 1 qrcoded.mask) ∧
      (Reader.formatPlaces' (Reader.sizeOf version)).map (view qrcoded) =
        Reader.formatBits (Reader.formatWord 1 qrcoded.mask) := by
  have hsize := (size_low hlow).1
  have hword := formatData_eq 1 (by decide) qrcoded.mask (List.mem_range.mpr h.mask)
  obtain ⟨hfirst, hsecond⟩ := paint_formatModules f hsize 1 qrcoded.mask
  have hcell : ∀ p ∈ formatCells (Reader.sizeOf version), view qrcoded p =
      paint f (formatModules (Reader.sizeOf version) 1 qrcoded.mask) p := by
    intro p hp
    have hin := (mem_formatCells (by omega)).mp hp
    have hmodule := h.modules p.1 (by omega) p.2 (by omega)
    rw [finished, masked_of_reserved (reserved_formatCells hlow _ hp)] at hmodule
    exact hmodule
  rw [← hword, ← hfirst]
  refine ⟨List.map_congr_left fun p hp => hcell p ?_, Eq.trans (List.map_congr_left fun p hp =>
    hcell p ?_) (hsecond.trans hfirst.symm)⟩
  · exact List.mem_append_left _ (List.mem_append_left _ hp)
  · exact List.mem_append_left _ (List.mem_append_right _ hp)

/-- **A reader finds the bits that were drawn**: it follows the same modules in the same order and
takes the mask off. -/
theorem Finished.drawn (hlow : version ∈ List.range' 1 11) {bits : List Bool}
    (hlen : (Reader.dataPlaces version).length = bits.length)
    (h : Finished version qrcoded (paint f ((Reader.dataPlaces version).zip bits))) :
    ((Reader.dataPlaces version).map fun p =>
      xor (view qrcoded p) (Reader.maskCondition qrcoded.mask p.2 p.1)) = bits := by
  refine Eq.trans (List.map_congr_left fun p hp => ?_)
    (map_paint_zip (nodup_dataPlaces version) hlen f)
  obtain ⟨hscan, hfree⟩ := List.mem_filter.mp hp
  obtain ⟨hx, hy⟩ := mem_scanOrder_lt hscan
  have hreserved : Reader.reserved version p = false := by simpa using hfree
  have hsize := (size_low hlow).1
  have hcell : p ∉ (formatModules (Reader.sizeOf version) 1 qrcoded.mask).map Prod.fst := by
    rw [places_formatModules (by omega)]
    intro hmem
    rw [reserved_formatCells hlow p hmem] at hreserved
    exact absurd hreserved (by decide)
  have hmodule := h.modules p.1 hx p.2 hy
  rw [hmodule, Qr.finished, masked, hreserved, paint_of_notMem hcell, maskInvert_eq]
  simp

/-- The codewords that a reader gets are those that were drawn. -/
theorem Fits.readCodewords (h : Fits version text) :
    Reader.readCodewords version (qrcodeInitBytes version eccLow text).mask
        (view (qrcodeInitBytes version eccLow text)) =
      drawnCodewords version
        (performErrorCorrection version 1 (Qr.textCodewords version text)) := by
  obtain ⟨f, hf⟩ := h.finished
  obtain ⟨-, htotal, -, -⟩ := tables_low version h.low
  have hlen : (Reader.dataPlaces version).length = (drawnBits version text).length := by
    rw [length_dataPlaces version h.low, drawnBits, List.length_map, List.length_range]
  have hlength := ((layout_low h.low).corrected h.room_textCodewords).length
  have hroom := h.room_textCodewords
  have hcount : (Reader.blockTable version).2.sum +
      (Reader.blockTable version).2.length * (Reader.blockTable version).1 =
        numRawDataModules.getD (version - 1) 0 / 8 := htotal
  rw [Reader.readCodewords, hf.drawn h.low hlen, drawnBits, drawnCodewords, hcount]
  exact readBytes_range _ (by omega) (by omega)

/-- A reader looks at the modules of the symbol only, so what is around it does not matter. -/
theorem Reader.read_congr {size : ℕ} (h : Reader.sizeOf (Reader.versionOf size) = size)
    (h9 : 9 ≤ size)
    {g g' : Picture} (heq : ∀ x < size, ∀ y < size, g (x, y) = g' (x, y)) :
    Reader.read size g = Reader.read size g' := by
  have hformat : Reader.formatPlaces.map g = Reader.formatPlaces.map g' := by
    refine List.map_congr_left fun p hp => heq p.1 ?_ p.2 ?_
    all_goals
      revert p
      simp only [Reader.formatPlaces, List.forall_mem_cons, List.not_mem_nil, false_imp_iff,
        implies_true, and_true]
      omega
  have hdata : ∀ mask, Reader.readCodewords (Reader.versionOf size) mask g =
      Reader.readCodewords (Reader.versionOf size) mask g' := by
    intro mask
    refine congrArg (readBytes _) (List.map_congr_left fun p hp => ?_)
    obtain ⟨hx, hy⟩ := mem_scanOrder_lt (List.mem_filter.mp hp).1
    rw [h] at hx hy
    rw [show g p = g' p from heq p.1 hx p.2 hy]
  rw [Reader.read, Reader.read, hformat]
  simp only [hdata]

/-- The data codewords that are read hold the text, in front of the padding. -/
theorem Fits.readSegment_joinBlocks (h : Fits version text) :
    Reader.readSegment version (bitsOfBytes (Reader.joinBlocks (Reader.blockTable version).2
      (drawnCodewords version
        (performErrorCorrection version 1 (Qr.textCodewords version text))))) =
      some text := by
  obtain ⟨-, htotal, -, -⟩ := tables_low version h.low
  obtain ⟨pad, hholds, hlen, -⟩ := h.textCodewords
  have hlow := List.mem_range'_1.mp h.low
  have htable := blockTable_eq version h.low
  have hlens : (Reader.blockTable version).2 =
      blockLens (lowLayout version).1 (lowLayout version).2.1 (lowLayout version).2.2.1 := by
    rw [htable]
  have hjoin := (layout_low h.low).joinBlocks h.room_textCodewords hholds.capacity
  rw [← hlens] at hjoin
  have hbits : bitsOfBytes ((Qr.textCodewords version text).data.take
      (Reader.blockTable version).2.sum) = segmentBits version text ++ pad :=
    hholds.bytes.bitsOfBytes_take (by
      rw [hholds.capacity]
      exact (Nat.le_add_right _ _).trans (htotal.trans_le h.room_textCodewords)) hlen
  rw [hjoin, hbits]
  exact readSegment_segmentBits hlow.1 (by omega) h.count_lt pad

/-- **What was drawn is read**: the text comes back from the modules of its symbol. -/
theorem Fits.read (h : Fits version text) :
    Reader.read (qrcodeInitBytes version eccLow text).size
      (view (qrcodeInitBytes version eccLow text)) = some text := by
  obtain ⟨f, hf⟩ := h.finished
  obtain ⟨-, -, -, hversion⟩ := tables_low version h.low
  have hformat : Reader.readFormat (Reader.formatPlaces.map
      (view (qrcodeInitBytes version eccLow text))) =
        some (1, (qrcodeInitBytes version eccLow text).mask) := by
    rw [(hf.formatBits h.low).1]
    refine readFormat_of_near (by omega) hf.mask (length_formatBits _) ?_
    rw [distance_self]
    exact Nat.zero_le 3
  rw [Reader.read, hf.size, hversion, hformat, Option.bind_eq_bind, Option.bind_some]
  dsimp only
  rw [if_pos rfl, h.readCodewords]
  exact h.readSegment_joinBlocks

end Qr

end TollGate
