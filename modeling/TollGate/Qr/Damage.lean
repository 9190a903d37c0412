import Mathlib
import TollGate.Qr.Symbol

/-!
# Damaged symbols

A symbol that is scanned may have some of its modules wrong. `Reader.Corrects` says what a reader
that corrects errors is allowed to do: replace each block of codewords by a word of the Reed–Solomon
code that differs from it in at most half as many places as there are codewords for error
correction. Nothing is said about how it finds one.

Every such reader gets the text (`Fits.textOf_corrects`), as long as no block has more wrong
codewords than that, because there is no other word of the code so near.
-/

namespace TollGate

namespace Qr

open BitString ReedSolomon

namespace Reader

/-- A block of a symbol, with its codewords for error correction, as the modules say before anything
is corrected. -/
def blockRead (version mask : ℕ) (module : Place → Bool) (b : ℕ) : List UInt8 :=
  fullBlock (blockTable version).1 (blockTable version).2 (readCodewords version mask module) b

/-- Blocks that a reader may take those of a symbol for: codewords of the right length, each of
which differs from what was read in at most half as many places as there are codewords for error
correction. -/
structure Corrects (version mask : ℕ) (module : Place → Bool) (blocks : List (List UInt8)) :
    Prop where
  count : blocks.length = (blockTable version).2.length
  length : ∀ b < blocks.length, (blocks.getD b []).length =
    (blockTable version).2.getD b 0 + (blockTable version).1
  word : ∀ b < blocks.length,
    IsCodeword GF256.root (blockTable version).1 (inField (blocks.getD b []))
  near : ∀ b < blocks.length,
    2 * distance (blocks.getD b []) (blockRead version mask module b) ≤ (blockTable version).1

/-- The text in the data codewords of the blocks, one block after the other. -/
def textOf (version : ℕ) (blocks : List (List UInt8)) : Option (List UInt8) :=
  readSegment version (bitsOfBytes
    ((List.range blocks.length).flatMap fun b => (blocks.getD b []).take
      ((blockTable version).2.getD b 0)))

end Reader

/-- Bytes differ if they differ as elements of the field. -/
theorem distance_inField (u v : List UInt8) : distance (inField u) (inField v) = distance u v := by
  induction u generalizing v with
  | nil => rfl
  | cons a u ih =>
    cases v with
    | nil => rfl
    | cons b v =>
      have hrest := ih v
      rw [inField, inField] at hrest
      rw [inField, inField, List.map_cons, List.map_cons, distance_cons, distance_cons, hrest]
      simp only [GF256.mk.injEq]

/-- Lists of bytes are the same if they are the same as lists of elements of the field. -/
theorem inField_injective : Function.Injective inField :=
  List.map_injective_iff.mpr fun _ _ hab => congrArg GF256.byte hab

variable {version : ℕ} {text : List UInt8}

/-- The blocks that were drawn, as one reads them from a symbol without damage. -/
def drawnBlocks (version : ℕ) (text : List UInt8) : List (List UInt8) :=
  (List.range (Reader.blockTable version).2.length).map
    (Reader.blockRead version (qrcodeInitBytes version eccLow text).mask
      (view (qrcodeInitBytes version eccLow text)))

/-- There are as many as the table says. -/
theorem length_drawnBlocks :
    (drawnBlocks version text).length = (Reader.blockTable version).2.length := by
  rw [drawnBlocks, List.length_map, List.length_range]

/-- One of the blocks that were drawn. -/
theorem getD_drawnBlocks {b : ℕ} (hb : b < (Reader.blockTable version).2.length) :
    (drawnBlocks version text).getD b [] =
      Reader.blockRead version (qrcodeInitBytes version eccLow text).mask
        (view (qrcodeInitBytes version eccLow text)) b := by
  rw [List.getD_eq_getElem _ _ (by rwa [length_drawnBlocks])]
  simp only [drawnBlocks, List.getElem_map, List.getElem_range]

/-- The number of blocks, short ones and long ones. -/
theorem length_table {v : ℕ} (h : v ∈ List.range' 1 11) :
    (Reader.blockTable v).2.length = (lowLayout v).1 + (lowLayout v).2.1 := by
  rw [blockTable_eq v h, length_blockLens]

/-- The blocks are no longer than the powers of the root are different, so the places of a block can
be told apart. -/
theorem short_blocks : ∀ v ∈ List.range' 1 11, ∀ len ∈ (Reader.blockTable v).2,
    len + (Reader.blockTable v).1 ≤ 255 := by
  decide

/-- A block of the symbol is a codeword, and its data are those of the text. -/
theorem Fits.blockRead (h : Fits version text) {b : ℕ}
    (hb : b < (Reader.blockTable version).2.length) :
    inField ((drawnBlocks version text).getD b []) =
        codeword (monicTail (roots (Reader.blockTable version).1))
          (inField (blockData (Qr.textCodewords version text).data (lowLayout version).1
            (lowLayout version).2.2.1 b ((Reader.blockTable version).2.getD b 0))) := by
  obtain ⟨pad, hholds, -, -⟩ := h.textCodewords
  have hfull := (layout_low h.low).fullBlock h.room_textCodewords hholds.capacity
    (length_table h.low ▸ hb)
  rw [getD_drawnBlocks hb, Reader.blockRead, h.readCodewords, blockTable_eq version h.low]
  exact hfull

/-- The data codewords that a reader gets for a block are those of the text, as many as the table
says. -/
theorem Fits.blockOf_read (h : Fits version text) {b : ℕ}
    (hb : b < (Reader.blockTable version).2.length) :
    Reader.blockOf (Reader.blockTable version).2
        (drawnCodewords version
          (performErrorCorrection version 1 (Qr.textCodewords version text))) b =
      blockData (Qr.textCodewords version text).data (lowLayout version).1
        (lowLayout version).2.2.1 b ((Reader.blockTable version).2.getD b 0) ∧
    (blockData (Qr.textCodewords version text).data (lowLayout version).1
      (lowLayout version).2.2.1 b ((Reader.blockTable version).2.getD b 0)).length =
        (Reader.blockTable version).2.getD b 0 := by
  obtain ⟨pad, hholds, -, -⟩ := h.textCodewords
  have hb' : b < (lowLayout version).1 + (lowLayout version).2.1 := length_table h.low ▸ hb
  have hdrawn := (layout_low h.low).blockOf_drawn h.room_textCodewords hholds.capacity hb'
  have htotal := (layout_low h.low).total
  have hroom := h.room_textCodewords
  have hstart := blockStart_le (s := (lowLayout version).2.2.1) hb'
  have hcap := hholds.capacity
  rw [blockTable_eq version h.low]
  refine ⟨hdrawn, ?_⟩
  rw [blockData, List.length_take, List.length_drop]
  dsimp only
  omega

/-- A codeword has the data and as many places more as the generator has roots. -/
theorem length_codeword {E : ℕ} (hE : 0 < E) (data : List GF256) :
    (codeword (monicTail (roots E)) data).length = data.length + E := by
  have hlen : (monicTail (roots E)).length = E := by
    rw [length_monicTail, roots, List.length_map, List.length_range]
  have hne : monicTail (roots E) ≠ [] := List.ne_nil_of_length_pos (hlen.symm ▸ hE)
  rw [codeword, List.length_append, List.length_map, length_remainder hne, hlen]

/-- Data with the remainder behind them are a codeword: all roots of the generator are roots of
it. -/
theorem isCodeword_codeword {E : ℕ} (hE : 0 < E) (data : List GF256) :
    IsCodeword GF256.root E (codeword (monicTail (roots E)) data) := by
  intro k hk
  have hlen : (monicTail (roots E)).length = E := by
    rw [length_monicTail, roots, List.length_map, List.length_range]
  have hne : monicTail (roots E) ≠ [] := List.ne_nil_of_length_pos (hlen.symm ▸ hE)
  have hroot : GF256.root ^ k ∈ roots E := List.mem_map.mpr ⟨k, List.mem_range.mpr hk, rfl⟩
  exact value_codeword (root_monicTail hroot) hne data

/-- Each block has some codewords for error correction. -/
theorem ecc_pos {v : ℕ} (h : v ∈ List.range' 1 11) : 0 < (Reader.blockTable v).1 := by
  rw [blockTable_eq v h]
  exact (layout_low h).some_ecc

/-- **Each block of a symbol is a codeword**, as long as the standard says. -/
theorem Fits.word (h : Fits version text) {b : ℕ} (hb : b < (Reader.blockTable version).2.length) :
    IsCodeword GF256.root (Reader.blockTable version).1
        (inField ((drawnBlocks version text).getD b [])) ∧
      ((drawnBlocks version text).getD b []).length =
        (Reader.blockTable version).2.getD b 0 + (Reader.blockTable version).1 := by
  have hblock := h.blockRead hb
  have hlen := congrArg List.length hblock
  rw [length_codeword (ecc_pos h.low), length_inField, length_inField,
    (h.blockOf_read hb).2] at hlen
  rw [hblock]
  exact ⟨isCodeword_codeword (ecc_pos h.low) _, hlen⟩

/-- The text is in the blocks that were drawn. -/
theorem Fits.textOf_drawnBlocks (h : Fits version text) :
    Reader.textOf version (drawnBlocks version text) = some text := by
  have hread := h.readSegment_joinBlocks
  rw [Reader.joinBlocks] at hread
  rw [Reader.textOf, length_drawnBlocks, ← hread]
  refine congrArg (fun bytes => Reader.readSegment version (bitsOfBytes bytes))
    (List.flatMap_congr fun b hb => ?_)
  have hb := List.mem_range.mp hb
  obtain ⟨hblock, hlen⟩ := h.blockOf_read hb
  rw [getD_drawnBlocks hb, Reader.blockRead, Reader.fullBlock, h.readCodewords, hblock]
  exact List.take_left' hlen

/-! ### Reading with errors -/

/-- How many codewords are picked for a block depends on the places and not on what is there. -/
theorem length_filterMap_zip (b : ℕ) {places : List (ℕ × ℕ)} {stream : List UInt8}
    (h : places.length ≤ stream.length) :
    ((places.zip stream).filterMap fun p => if p.1.1 = b then some p.2 else none).length =
      (places.filter fun p => p.1 = b).length := by
  induction places generalizing stream with
  | nil => rfl
  | cons p places ih =>
    cases stream with
    | nil => simp at h
    | cons a stream =>
      have hrest := @ih stream (by simpa using h)
      rw [List.zip_cons_cons, List.filterMap_cons]
      by_cases hp : p.1 = b
      · simp only [if_pos hp]
        rw [List.filter_cons_of_pos (by simpa using hp), List.length_cons, List.length_cons, hrest]
      · simp only [if_neg hp]
        rw [List.filter_cons_of_neg (by simpa using hp), hrest]

/-- A block has its length whatever the stream is, as long as that is long enough. -/
theorem length_blockOf {a c s b : ℕ} (ha : 0 < a) (hb : b < a + c) {stream : List UInt8}
    (h : (blockLens a c s).sum ≤ stream.length) :
    (Reader.blockOf (blockLens a c s) stream b).length = (blockLens a c s).getD b 0 := by
  rw [Reader.blockOf, length_filterMap_zip b ((length_dealing ha).trans_le h), filter_dealing ha hb,
    List.length_map, List.length_range]

/-- A block has its length whatever was scanned. -/
theorem length_blockRead (h : version ∈ List.range' 1 11) (mask : ℕ) (g : Picture) {b : ℕ}
    (hb : b < (Reader.blockTable version).2.length) :
    (Reader.blockRead version mask g b).length =
      (Reader.blockTable version).2.getD b 0 + (Reader.blockTable version).1 := by
  have hlayout := layout_low h
  have hstream : (Reader.readCodewords version mask g).length = (Reader.blockTable version).2.sum +
      (Reader.blockTable version).2.length * (Reader.blockTable version).1 := by
    rw [Reader.readCodewords, readBytes, List.length_map, List.length_range]
  rw [blockTable_eq version h] at hstream hb ⊢
  rw [Reader.blockRead, blockTable_eq version h]
  dsimp only at hstream hb ⊢
  rw [length_blockLens] at hstream hb
  have hroom : (blockLens ((lowLayout version).1 + (lowLayout version).2.1) 0
      (lowLayout version).2.2.2).sum ≤ ((Reader.readCodewords version mask g).drop
        (blockLens (lowLayout version).1 (lowLayout version).2.1
          (lowLayout version).2.2.1).sum).length := by
    rw [← replicate_eq_blockLens, List.sum_replicate, smul_eq_mul, List.length_drop, hstream]
    omega
  have hB : 0 < (lowLayout version).1 + (lowLayout version).2.1 := by omega
  rw [Reader.fullBlock, List.length_append, length_blockOf hlayout.some_short hb (by omega),
    length_blockLens, replicate_eq_blockLens, length_blockOf hB hb hroom, getD_blockLens_zero hb]

variable {g : Picture}

/-- What is read differs from what was drawn in few codewords of each block: in at most half as many
as there are codewords for error correction. -/
def FewErrors (version : ℕ) (text : List UInt8) (g : Picture) : Prop :=
  ∀ b < (Reader.blockTable version).2.length, 2 * distance ((drawnBlocks version text).getD b [])
    (Reader.blockRead version (qrcodeInitBytes version eccLow text).mask g b) ≤
      (Reader.blockTable version).1

/-- The blocks that were drawn are among those that a reader may find. -/
theorem Fits.drawnBlocks_corrects (h : Fits version text) (hfew : FewErrors version text g) :
    Reader.Corrects version (qrcodeInitBytes version eccLow text).mask g
      (drawnBlocks version text) := by
  refine ⟨length_drawnBlocks, fun b hb => ?_, fun b hb => ?_, fun b hb => ?_⟩
  · exact (h.word (length_drawnBlocks ▸ hb)).2
  · exact (h.word (length_drawnBlocks ▸ hb)).1
  · exact hfew b (length_drawnBlocks ▸ hb)

/-- No other blocks are as near: two codewords that are both near to what was read would be nearer
to each other than codewords are. -/
theorem Fits.eq_of_corrects (h : Fits version text) (hfew : FewErrors version text g)
    {blocks : List (List UInt8)}
    (hblocks : Reader.Corrects version (qrcodeInitBytes version eccLow text).mask g blocks) :
    blocks = drawnBlocks version text := by
  have hcount : blocks.length = (drawnBlocks version text).length :=
    hblocks.count.trans length_drawnBlocks.symm
  refine List.ext_getElem hcount fun b hb hb' => ?_
  have hlt : b < (Reader.blockTable version).2.length := hblocks.count ▸ hb
  obtain ⟨hword, hlen⟩ := h.word hlt
  have hword' := hblocks.word b hb
  have hlen' := hblocks.length b hb
  have hnear := hblocks.near b hb
  have hnear' := hfew b hlt
  have hshort : (Reader.blockTable version).2.getD b 0 + (Reader.blockTable version).1 ≤ 255 := by
    rw [List.getD_eq_getElem _ _ hlt]
    exact short_blocks version h.low _ (List.getElem_mem hlt)
  rw [List.getD_eq_getElem _ _ hb] at hword' hlen' hnear
  rw [List.getD_eq_getElem _ _ hb'] at hword hlen hnear'
  have hr := length_blockRead h.low (qrcodeInitBytes version eccLow text).mask g hlt
  generalize Reader.blockRead version (qrcodeInitBytes version eccLow text).mask g b = r at *
  -- both words are near to the same one, so uniqueness over the field says that they are equal
  apply inField_injective
  refine codeword_unique (r := inField r) (GF256.pow_root_injOn ?_) hword' hword ?_ ?_ ?_
  · rwa [length_inField, hlen']
  · rw [length_inField, length_inField, hlen', hr]
  · rw [length_inField, length_inField, hlen, hr]
  · rw [distance_inField, distance_inField]
    omega

/-! ### Wrong modules and wrong codewords -/

/-- A symbol whose modules in some places have the other colour. -/
def damaged (bad : Place → Bool) (g : Picture) : Picture := fun p => xor (g p) (bad p)

/-- The damage is where it is said to be. -/
theorem damaged_ne {bad : Place → Bool} {p : Place} : g p ≠ damaged bad g p ↔ bad p = true := by
  rw [damaged]
  cases bad p with
  | false => simp
  | true => simp

/-- The codewords that have a wrong module, each by its place in the stream. -/
def spoiled (version : ℕ) (bad : Place → Bool) : List ℕ :=
  (List.range ((Reader.blockTable version).2.sum +
    (Reader.blockTable version).2.length * (Reader.blockTable version).1)).filter fun i =>
      (((Reader.dataPlaces version).drop (8 * i)).take 8).any bad

/-- **The codewords with a wrong module are the wrong ones**, whichever and however many of its
eight modules are wrong. -/
theorem distance_readCodewords (h : version ∈ List.range' 1 11) (mask : ℕ) (bad : Place → Bool) :
    distance (Reader.readCodewords version mask g)
        (Reader.readCodewords version mask (damaged bad g)) =
      (spoiled version bad).length := by
  obtain ⟨-, htotal, -, -⟩ := tables_low version h
  have hplaces := length_dataPlaces version h
  have hcount : (Reader.blockTable version).2.sum +
      (Reader.blockTable version).2.length * (Reader.blockTable version).1 =
        numRawDataModules.getD (version - 1) 0 / 8 := htotal
  rw [Reader.readCodewords, Reader.readCodewords, readBytes, readBytes, distance_map, spoiled,
    ← List.countP_eq_length_filter, hcount]
  refine List.countP_congr fun i hi => ?_
  have hi := List.mem_range.mp hi
  rw [decide_eq_true_iff, List.any_eq_true, ← List.map_drop, ← List.map_drop, ← List.map_take,
    ← List.map_take]
  -- eight modules make a number below 256, so two bytes are equal when all their modules are
  have hlen : (((Reader.dataPlaces version).drop (8 * i)).take 8).length = 8 := by
    rw [List.length_take, List.length_drop, hplaces]
    omega
  generalize ((Reader.dataPlaces version).drop (8 * i)).take 8 = places at hlen ⊢
  have hbyte : ∀ g : Picture, numOf (places.map fun p =>
      xor (g p) (Reader.maskCondition mask p.2 p.1)) < 256 := by
    intro g
    have hlt := numOf_lt (places.map fun p => xor (g p) (Reader.maskCondition mask p.2 p.1))
    rwa [List.length_map, hlen] at hlt
  rw [Ne, ← UInt8.toNat_inj, UInt8.toNat_ofNat', UInt8.toNat_ofNat', Nat.mod_eq_of_lt (hbyte g),
    Nat.mod_eq_of_lt (hbyte _), numOf_inj (by rw [List.length_map, List.length_map]),
    List.map_inj_left]
  simp only [not_forall, exists_prop]
  refine exists_congr fun p => and_congr_right fun _ => ?_
  rw [Bool.xor_left_inj, ← Ne, damaged_ne]

/-- The codewords that are picked from a stream differ in no more places than the stream. -/
theorem distance_filterMap_zip_le (b : ℕ) (places : List (ℕ × ℕ)) {u v : List UInt8}
    (h : u.length = v.length) :
    distance ((places.zip u).filterMap fun p => if p.1.1 = b then some p.2 else none)
        ((places.zip v).filterMap fun p => if p.1.1 = b then some p.2 else none) ≤
      distance (u.take places.length) (v.take places.length) := by
  induction places generalizing u v with
  | nil => exact Nat.zero_le _
  | cons p places ih =>
    cases u with
    | nil => exact Nat.zero_le _
    | cons a u =>
      cases v with
      | nil => simp at h
      | cons c v =>
        have hrest := @ih u v (by simpa using h)
        rw [List.zip_cons_cons, List.zip_cons_cons, List.filterMap_cons, List.filterMap_cons,
          List.length_cons, List.take_succ_cons, List.take_succ_cons, distance_cons]
        -- a codeword of another block is left out, and then a place where it differs is not counted
        by_cases hp : p.1 = b
        · simp only [if_pos hp]
          rw [distance_cons]
          omega
        · simp only [if_neg hp]
          omega

/-- The data codewords of a block are picked from the beginning of the stream and the ones for error
correction from behind it, so together they differ in no more places than the stream. -/
theorem distance_fullBlock_le {a c s b : ℕ} (ecc : ℕ) (ha : 0 < a) (hb : b < a + c)
    {u v : List UInt8} (h : u.length = v.length) (hroom : (blockLens a c s).sum ≤ u.length) :
    distance (Reader.fullBlock ecc (blockLens a c s) u b)
        (Reader.fullBlock ecc (blockLens a c s) v b) ≤ distance u v := by
  have hroom' := hroom
  rw [h] at hroom'
  rw [Reader.fullBlock, Reader.fullBlock, distance_append (by
    rw [length_blockOf ha hb hroom, length_blockOf ha hb hroom'])]
  generalize hn : (blockLens a c s).sum = n at *
  have htake : (u.take n).length = (v.take n).length := by
    rw [List.length_take, List.length_take, h]
  have hdrop : (u.drop n).length = (v.drop n).length := by
    rw [List.length_drop, List.length_drop, h]
  have hdata := distance_filterMap_zip_le b (Reader.dealing (blockLens a c s)) h
  have hecc := distance_filterMap_zip_le b
    (Reader.dealing (List.replicate (blockLens a c s).length ecc)) hdrop
  -- the stream is cut where its data ends, and each part bounds the codewords picked from it
  have hwhole := distance_append htake (u.drop n) (v.drop n)
  rw [List.take_append_drop, List.take_append_drop] at hwhole
  rw [length_dealing ha, hn] at hdata
  rw [hwhole]
  exact Nat.add_le_add hdata (hecc.trans (distance_take_le hdrop _))

/-- A block has no more wrong codewords than the symbol. -/
theorem distance_blockRead_le (h : version ∈ List.range' 1 11) (mask : ℕ) (g g' : Picture) {b : ℕ}
    (hb : b < (Reader.blockTable version).2.length) :
    distance (Reader.blockRead version mask g b) (Reader.blockRead version mask g' b) ≤
      distance (Reader.readCodewords version mask g) (Reader.readCodewords version mask g') := by
  have hlen : ∀ g : Picture, (Reader.readCodewords version mask g).length =
      (Reader.blockTable version).2.sum +
        (Reader.blockTable version).2.length * (Reader.blockTable version).1 := by
    intro g
    rw [Reader.readCodewords, readBytes, List.length_map, List.length_range]
  have hsame := (hlen g).trans (hlen g').symm
  have hroom : (Reader.blockTable version).2.sum ≤
      (Reader.readCodewords version mask g).length := by
    rw [hlen]
    exact Nat.le_add_right _ _
  rw [Reader.blockRead, Reader.blockRead]
  rw [length_table h] at hb
  rw [blockTable_eq version h] at hroom ⊢
  exact distance_fullBlock_le _ (layout_low h).some_short hb hsame hroom

/-- Few wrong codewords in the symbol as a whole are few in each block. -/
theorem fewErrors_damaged (h : version ∈ List.range' 1 11) {bad : Place → Bool}
    (hfew : 2 * (spoiled version bad).length ≤ (Reader.blockTable version).1) :
    FewErrors version text (damaged bad (view (qrcodeInitBytes version eccLow text))) := by
  intro b hb
  rw [getD_drawnBlocks hb]
  have hblock := distance_blockRead_le h (qrcodeInitBytes version eccLow text).mask
    (view (qrcodeInitBytes version eccLow text))
    (damaged bad (view (qrcodeInitBytes version eccLow text))) hb
  rw [distance_readCodewords h] at hblock
  exact (Nat.mul_le_mul_left 2 hblock).trans hfew

/-! ### Readers that correct errors -/

/-- **A reader that corrects errors gets the text**, and there are blocks for it to find. Nothing is
said of where the errors are, or of how it finds the blocks. -/
theorem Fits.textOf_corrects (h : Fits version text) (hfew : FewErrors version text g) :
    (∃ blocks, Reader.Corrects version (qrcodeInitBytes version eccLow text).mask g blocks) ∧
      ∀ blocks, Reader.Corrects version (qrcodeInitBytes version eccLow text).mask g blocks →
        Reader.textOf version blocks = some text := by
  refine ⟨⟨_, h.drawnBlocks_corrects hfew⟩, fun blocks hblocks => ?_⟩
  rw [h.eq_of_corrects hfew hblocks]
  exact h.textOf_drawnBlocks

/-- A text of four characters in the smallest symbol. -/
theorem fits_one : Fits 1 [84, 111, 108, 108] := ⟨by decide, by decide⟩

/-- A stain over the two columns at the right edge, below the finder pattern. -/
def stain (p : Place) : Bool := Nat.ble 19 p.1 && Nat.ble 9 p.2

/-- Three of the twenty-six codewords are wrong, in all their modules: as many as seven codewords
for error correction can correct. -/
theorem textOf_corrects_one :
    distance
        (Reader.readCodewords 1 (qrcodeInitBytes 1 eccLow [84, 111, 108, 108]).mask
          (view (qrcodeInitBytes 1 eccLow [84, 111, 108, 108])))
        (Reader.readCodewords 1 (qrcodeInitBytes 1 eccLow [84, 111, 108, 108]).mask
          (damaged stain (view (qrcodeInitBytes 1 eccLow [84, 111, 108, 108])))) = 3 ∧
      (∃ blocks, Reader.Corrects 1 (qrcodeInitBytes 1 eccLow [84, 111, 108, 108]).mask
        (damaged stain (view (qrcodeInitBytes 1 eccLow [84, 111, 108, 108]))) blocks) ∧
      ∀ blocks, Reader.Corrects 1 (qrcodeInitBytes 1 eccLow [84, 111, 108, 108]).mask
        (damaged stain (view (qrcodeInitBytes 1 eccLow [84, 111, 108, 108]))) blocks →
          Reader.textOf 1 blocks = some [84, 111, 108, 108] := by
  have hthree : (spoiled 1 stain).length = 3 := by decide +kernel
  refine ⟨?_, Fits.textOf_corrects fits_one (fewErrors_damaged fits_one.low (by
    rw [hthree]
    decide))⟩
  rw [distance_readCodewords fits_one.low, hthree]

/-! ### Level and mask -/

/-- A copy of the format information differs from what was drawn in the modules that are wrong. -/
theorem distance_damaged (places : List Place) (bad : Place → Bool) (g : Picture) :
    distance (places.map g) (places.map (damaged bad g)) = places.countP bad := by
  rw [distance_map]
  refine List.countP_congr fun p _ => ?_
  rw [decide_eq_true_iff, damaged_ne]

/-- **Either copy of the format information will do**, with up to three of its modules wrong: a
reader gets the level L and the mask. -/
theorem Fits.readFormat_of_copy (h : Fits version text) {places : List Place}
    (hplaces : places = Reader.formatPlaces ∨
      places = Reader.formatPlaces' (qrcodeInitBytes version eccLow text).size)
    (hnear : distance (places.map (view (qrcodeInitBytes version eccLow text)))
      (places.map g) ≤ 3) :
    Reader.readFormat (places.map g) = some (1, (qrcodeInitBytes version eccLow text).mask) := by
  obtain ⟨f, hf⟩ := h.finished
  obtain ⟨hfirst, hsecond⟩ := hf.formatBits h.low
  have hcopy : places.map (view (qrcodeInitBytes version eccLow text)) =
      Reader.formatBits (Reader.formatWord 1 (qrcodeInitBytes version eccLow text).mask) := by
    rcases hplaces with rfl | rfl
    · exact hfirst
    · rw [hf.size]
      exact hsecond
  have hlen := congrArg List.length hcopy
  rw [List.length_map, length_formatBits] at hlen
  rw [hcopy] at hnear
  exact readFormat_of_near (by omega) hf.mask (by rw [List.length_map, hlen]) hnear

/-- A scratch over three modules of one row, in the second copy of the format information. -/
def scratch (p : Place) : Bool := Nat.ble 18 p.1 && Nat.beq p.2 8

/-- The second copy of the format information, with the first three of its modules misread. -/
theorem readFormat_of_copy_one :
    distance ((Reader.formatPlaces' 21).map (view (qrcodeInitBytes 1 eccLow [84, 111, 108, 108])))
        ((Reader.formatPlaces' 21).map
          (damaged scratch (view (qrcodeInitBytes 1 eccLow [84, 111, 108, 108])))) = 3 ∧
      Reader.readFormat ((Reader.formatPlaces' 21).map
        (damaged scratch (view (qrcodeInitBytes 1 eccLow [84, 111, 108, 108])))) =
          some (1, (qrcodeInitBytes 1 eccLow [84, 111, 108, 108]).mask) := by
  have hthree : (Reader.formatPlaces' 21).countP scratch = 3 := by decide
  obtain ⟨f, hf⟩ := fits_one.finished
  have hsize : (qrcodeInitBytes 1 eccLow [84, 111, 108, 108]).size = 21 := hf.size
  refine ⟨(distance_damaged _ _ _).trans hthree, Fits.readFormat_of_copy fits_one
    (Or.inr (by rw [hsize])) ?_⟩
  rw [distance_damaged, hthree]

/-- **The mask is the first one with the smallest penalty**, and the other ones that were tried have
left nothing in the symbol: it is one picture with the format bits of the mask and the mask. -/
theorem Fits.mask_least (h : Fits version text) :
    ∃ f : Picture, (qrcodeInitBytes version eccLow text).mask < 8 ∧
      (∀ x < Reader.sizeOf version, ∀ y < Reader.sizeOf version,
        view (qrcodeInitBytes version eccLow text) (x, y) =
          Qr.finished (Reader.reserved version) f (Reader.sizeOf version) 1
            (qrcodeInitBytes version eccLow text).mask (x, y)) ∧
      (∀ i < 8, penaltyOf (Reader.sizeOf version) (view (qrcodeInitBytes version eccLow text)) ≤
        penaltyOf (Reader.sizeOf version)
          (Qr.finished (Reader.reserved version) f (Reader.sizeOf version) 1 i)) ∧
      ∀ i < (qrcodeInitBytes version eccLow text).mask,
        penaltyOf (Reader.sizeOf version) (view (qrcodeInitBytes version eccLow text)) <
          penaltyOf (Reader.sizeOf version)
            (Qr.finished (Reader.reserved version) f (Reader.sizeOf version) 1 i) := by
  obtain ⟨f, hf⟩ := h.finished
  exact ⟨_, hf.mask, hf.modules, hf.least, hf.first⟩

/-- The mask of the symbol of four characters. -/
theorem mask_least_one :
    ∃ f : Picture, (qrcodeInitBytes 1 eccLow [84, 111, 108, 108]).mask < 8 ∧
      (∀ x < 21, ∀ y < 21, view (qrcodeInitBytes 1 eccLow [84, 111, 108, 108]) (x, y) =
        finished (Reader.reserved 1) f 21 1 (qrcodeInitBytes 1 eccLow [84, 111, 108, 108]).mask
          (x, y)) ∧
      (∀ i < 8, penaltyOf 21 (view (qrcodeInitBytes 1 eccLow [84, 111, 108, 108])) ≤
        penaltyOf 21 (finished (Reader.reserved 1) f 21 1 i)) ∧
      ∀ i < (qrcodeInitBytes 1 eccLow [84, 111, 108, 108]).mask,
        penaltyOf 21 (view (qrcodeInitBytes 1 eccLow [84, 111, 108, 108])) <
          penaltyOf 21 (finished (Reader.reserved 1) f 21 1 i) :=
  Fits.mask_least fits_one

end Qr

end TollGate
