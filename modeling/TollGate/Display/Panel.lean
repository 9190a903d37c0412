import Mathlib
import TollGate.Lib.ByteOrder
import TollGate.Lib.BitString

/-!
# The frame buffer and the panel

Everything is drawn into a frame buffer in memory, which `axs15231b_flush` sends to the panel, row
after row, each colour with its high byte first. The frame buffer is a function of the index, for
negative ones too, so that a write outside of it would be seen: `Keeps` says that nothing changes in
front of the buffer, in front of a row of it, or behind it.

`pixel_fillRect` is the one fact about rectangles that the rest uses. `shown_flush` says that the
panel shows what is in the buffer.
-/

namespace TollGate

namespace Display

/-- The words of the memory around `s_fb`, by their distance from it: the buffer itself is from 0
on, and what is at a negative index or behind the last row belongs to somebody else. -/
abbrev Frame := ℤ → UInt16

/-- The columns of the panel, which stands upright; the code asks for them by
`axs15231b_get_width`, and never changes them. -/
def axs15231bWidth : ℕ := 320

/-- The rows of the panel, which the code asks for by `axs15231b_get_height`. -/
def axs15231bHeight : ℕ := 480

/-- The words of a row of the buffer, `s_stride`: they are as many as there are columns, so that no
word is left over between two rows. -/
def axs15231bStride : ℕ := 320

/-- The colour that the frame buffer has in a column and a row. -/
def pixel (fb : Frame) (col row : ℕ) : UInt16 := fb ((row * axs15231bStride + col : ℕ) : ℤ)

/-- The values of a loop's counter that starts at `start` and is below `start + n`; there are none
when `n` is negative. -/
def counter (start n : ℤ) : List ℤ := (List.range n.toNat).map fun k : ℕ => start + k

/-- The indices that the two loops over a rectangle come to, in their order: the rows from above,
and in each of them the columns from the left. -/
def rectIndices (x y w h : ℤ) : List ℤ :=
  (counter y h).flatMap fun row => (counter x w).map fun col => row * axs15231bStride + col

/-- The writes of one colour to some indices, one after the other. -/
def fillIndices (fb : Frame) (color : UInt16) (is : List ℤ) : Frame :=
  is.foldl (fun fb i => Function.update fb i color) fb

/-- All rows and columns get one colour. -/
def axs15231bFillScreen (fb : Frame) (color : UInt16) : Frame :=
  fillIndices fb color (rectIndices 0 0 axs15231bWidth axs15231bHeight)

/-- A rectangle that is not on the screen as a whole is not drawn at all: this is the only check
that stands between the places that the callers compute and the memory around the buffer. -/
def axs15231bFillRect (fb : Frame) (x y w h : ℤ) (color : UInt16) : Frame :=
  if x < 0 ∨ y < 0 ∨ axs15231bWidth < x + w ∨ axs15231bHeight < y + h then fb
  else fillIndices fb color (rectIndices x y w h)

/-! ### Rectangles -/

variable {fb fb' fb'' : Frame} {color : UInt16}

/-- What a word is after some writes of one colour: that colour if it was among those written to,
and else what it was. -/
theorem fillIndices_apply (is : List ℤ) (fb : Frame) (k : ℤ) :
    fillIndices fb color is k = if k ∈ is then color else fb k := by
  unfold fillIndices
  induction is generalizing fb with
  | nil => rfl
  | cons i is ih =>
    rw [List.foldl_cons, ih]
    by_cases hk : k ∈ is
    · rw [if_pos hk, if_pos (List.mem_cons_of_mem i hk)]
    · rw [if_neg hk]
      by_cases hi : k = i
      · subst hi
        rw [Function.update_self, if_pos List.mem_cons_self]
      · rw [Function.update_of_ne hi, if_neg (by simp [hi, hk])]

/-- A counter takes the values from its start on, as many as there are steps. -/
theorem mem_counter {start n k : ℤ} : k ∈ counter start n ↔ start ≤ k ∧ k < start + n := by
  simp only [counter, List.mem_map, List.mem_range]
  constructor
  · rintro ⟨i, hi, rfl⟩
    omega
  · rintro ⟨hle, hlt⟩
    exact ⟨(k - start).toNat, by omega, by omega⟩

/-- The index of each row and column of the rectangle, as the source computes it. -/
theorem mem_rectIndices {x y w h k : ℤ} :
    k ∈ rectIndices x y w h ↔ ∃ row, (y ≤ row ∧ row < y + h) ∧
      ∃ col, (x ≤ col ∧ col < x + w) ∧ row * axs15231bStride + col = k := by
  simp only [rectIndices, List.mem_flatMap, List.mem_map, mem_counter]

/-- The index of a pixel is in a rectangle that is on the screen just if the pixel is: an index says
which row and which column it belongs to, because no column is beyond the stride. -/
theorem index_mem_rectIndices {x y w h : ℤ} {col row : ℕ} (hcol : col < axs15231bWidth)
    (hx : 0 ≤ x) (hw : x + w ≤ axs15231bWidth) :
    ((row * axs15231bStride + col : ℕ) : ℤ) ∈ rectIndices x y w h ↔
      (x ≤ col ∧ col < x + w) ∧ y ≤ row ∧ row < y + h := by
  rw [mem_rectIndices]
  simp only [axs15231bWidth, axs15231bStride] at *
  constructor
  · rintro ⟨row', hrow, col', hcol', heq⟩
    have hsame : row' = row ∧ col' = col := by omega
    obtain ⟨rfl, rfl⟩ := hsame
    exact ⟨hcol', hrow⟩
  · rintro ⟨hcol', hrow⟩
    exact ⟨row, hrow, col, hcol', by push_cast; rfl⟩

/-- **What a rectangle changes**: the pixels in it when it is on the screen as a whole, and nothing
when it is not. -/
theorem pixel_fillRect (fb : Frame) (x y w h : ℤ) {col row : ℕ} (hcol : col < axs15231bWidth) :
    pixel (axs15231bFillRect fb x y w h color) col row =
      if (0 ≤ x ∧ 0 ≤ y ∧ x + w ≤ axs15231bWidth ∧ y + h ≤ axs15231bHeight) ∧
        (x ≤ col ∧ col < x + w) ∧ y ≤ row ∧ row < y + h then color else pixel fb col row := by
  unfold axs15231bFillRect
  by_cases hout : x < 0 ∨ y < 0 ∨ axs15231bWidth < x + w ∨ axs15231bHeight < y + h
  · rw [if_pos hout, if_neg (by omega)]
  · rw [if_neg hout, pixel, fillIndices_apply]
    refine if_congr ?_ rfl rfl
    rw [index_mem_rectIndices hcol (by omega) (by omega)]
    omega

/-! ### What is not drawn on -/

/-- Drawing that begins in row `top`: every word in front of the buffer stays as it is, every word
in front of that row, and every word behind the last row. With `top` 0 this is to say that nothing
is written outside of the buffer. -/
def Keeps (top : ℤ) (fb fb' : Frame) : Prop :=
  ∀ i : ℤ, i < 0 ∨ i < top * axs15231bStride ∨ axs15231bHeight * axs15231bStride ≤ i →
    fb' i = fb i

/-- Drawing nothing keeps everything. -/
theorem Keeps.refl (top : ℤ) (fb : Frame) : Keeps top fb fb := fun _ _ => rfl

/-- Drawing twice below a row. -/
theorem Keeps.trans {top : ℤ} (h : Keeps top fb fb') (h' : Keeps top fb' fb'') :
    Keeps top fb fb'' := fun i hi => (h' i hi).trans (h i hi)

/-- Drawing that begins in some row begins below each row that is above it. -/
theorem Keeps.mono {top top' : ℤ} (htop : top' ≤ top) (h : Keeps top fb fb') :
    Keeps top' fb fb' := by
  intro i hi
  refine h i (hi.imp_right (Or.imp_left fun hlt => hlt.trans_le ?_))
  exact mul_le_mul_of_nonneg_right htop (Int.natCast_nonneg _)

/-- Wherever it begins, drawing leaves what is outside of the buffer. -/
theorem Keeps.zero {top : ℤ} (h : Keeps top fb fb') : Keeps 0 fb fb' := by
  intro i hi
  rw [zero_mul] at hi
  refine h i ?_
  rcases hi with hfront | hfront | hbehind
  · exact Or.inl hfront
  · exact Or.inl hfront
  · exact Or.inr (Or.inr hbehind)

/-- A pixel in a row above the one where the drawing begins is as it was. -/
theorem Keeps.pixel_eq {top : ℤ} (h : Keeps top fb fb') {col row : ℕ} (hcol : col < axs15231bWidth)
    (hrow : (row : ℤ) < top) : pixel fb' col row = pixel fb col row := by
  refine h _ (Or.inr (Or.inl ?_))
  simp only [axs15231bWidth, axs15231bStride] at *
  omega

/-- **A rectangle keeps what is outside of the buffer and what is above it**, because of the check
in front of its loops. -/
theorem keeps_fillRect (fb : Frame) (x y w h : ℤ) (color : UInt16) :
    Keeps y fb (axs15231bFillRect fb x y w h color) := by
  intro i hi
  unfold axs15231bFillRect
  by_cases hout : x < 0 ∨ y < 0 ∨ axs15231bWidth < x + w ∨ axs15231bHeight < y + h
  · rw [if_pos hout]
  · rw [if_neg hout, fillIndices_apply, if_neg]
    rw [mem_rectIndices]
    rintro ⟨row, hrow, col, hcol, heq⟩
    simp only [axs15231bWidth, axs15231bHeight, axs15231bStride] at *
    omega

/-- Filling the screen stays within the buffer. -/
theorem keeps_fillScreen (fb : Frame) (color : UInt16) :
    Keeps 0 fb (axs15231bFillScreen fb color) := by
  intro i hi
  rw [axs15231bFillScreen, fillIndices_apply, if_neg]
  rw [mem_rectIndices]
  rintro ⟨row, hrow, col, hcol, heq⟩
  simp only [axs15231bWidth, axs15231bHeight, axs15231bStride] at *
  omega

/-! ### Text -/

/-- The columns of a glyph. -/
def fontGlyphW : ℤ := 8

/-- The rows of a glyph, each a byte whose highest bit is on the left. -/
def fontGlyphH : ℤ := 8

/-- The body of the loops over the rows and the columns of a glyph. The test in front of the call
only looks at the right and the lower edge; what is too far to the left or above is left to
`axs15231b_fill_rect`. -/
def glyphDot (glyph : ℕ → UInt8) (cx cy : ℤ) (fg bg : UInt16) (scale : ℤ) (fb : Frame)
    (p : ℕ × ℕ) : Frame :=
  let color := if glyph p.1 &&& (0x80 >>> UInt8.ofNat p.2) ≠ 0 then fg else bg
  let px := cx + p.2 * scale
  let py := cy + p.1 * scale
  if px < axs15231bWidth ∧ py < axs15231bHeight then axs15231bFillRect fb px py scale scale color
  else fb

/-- The two loops over a glyph, row after row. -/
def renderGlyph (glyph : ℕ → UInt8) (cx cy : ℤ) (fg bg : UInt16) (scale : ℤ) (fb : Frame) : Frame :=
  (List.range 8 ×ˢ List.range 8).foldl (glyphDot glyph cx cy fg bg scale) fb

/-- The loop over the characters, which begins a new line where the next one does not fit, and ends
where the next line does not. A byte that is no ASCII character is drawn as a question mark. -/
def renderChars (font8x8Basic : UInt8 → ℕ → UInt8) (x : ℤ) (fg bg : UInt16) (scale : ℤ) :
    List UInt8 → ℤ → ℤ → Frame → Frame
  | [], _, _, fb => fb
  | ch :: text, cx, cy, fb =>
    let ch := if 128 ≤ ch then 63 else ch
    let at' := if axs15231bWidth < cx + fontGlyphW * scale then (x, cy + fontGlyphH * scale)
      else (cx, cy)
    if axs15231bHeight < at'.2 + fontGlyphH * scale then fb
    else
      renderChars font8x8Basic x fg bg scale text (at'.1 + fontGlyphW * scale) at'.2
        (renderGlyph (font8x8Basic ch) at'.1 at'.2 fg bg scale fb)

/-- A text, with its first character at a place. The table of glyphs is a parameter: nothing depends
on what the characters look like. -/
def displayRenderText (font8x8Basic : UInt8 → ℕ → UInt8) (fb : Frame) (x y : ℤ)
    (text : List UInt8) (fg bg : UInt16) (scale : ℤ) : Frame :=
  renderChars font8x8Basic x fg bg scale text x y fb

/-- A glyph is drawn below its first row. -/
theorem keeps_renderGlyph (glyph : ℕ → UInt8) (cx cy : ℤ) (fg bg : UInt16) {scale : ℤ}
    (hscale : 0 ≤ scale) (fb : Frame) : Keeps cy fb (renderGlyph glyph cx cy fg bg scale fb) := by
  unfold renderGlyph
  generalize List.range 8 ×ˢ List.range 8 = ps
  induction ps generalizing fb with
  | nil => exact Keeps.refl cy fb
  | cons p ps ih =>
    have hdot : Keeps cy fb (glyphDot glyph cx cy fg bg scale fb p) := by
      unfold glyphDot
      dsimp only
      split
      · refine (keeps_fillRect fb _ _ scale scale _).mono ?_
        exact Int.le_add_of_nonneg_right (mul_nonneg (Int.natCast_nonneg _) hscale)
      · exact Keeps.refl cy fb
    exact hdot.trans (ih _)

/-- Lines that begin anew are below, and at the lower end the text is cut off. -/
theorem keeps_renderChars (font8x8Basic : UInt8 → ℕ → UInt8) (x : ℤ) (fg bg : UInt16) {scale : ℤ}
    (hscale : 0 ≤ scale) (text : List UInt8) (cx cy : ℤ) (fb : Frame) :
    Keeps cy fb (renderChars font8x8Basic x fg bg scale text cx cy fb) := by
  induction text generalizing cx cy fb with
  | nil => exact Keeps.refl cy fb
  | cons ch text ih =>
    rw [renderChars]
    generalize (if 128 ≤ ch then 63 else ch) = ch'
    have hline : ∀ at' : ℤ × ℤ, cy ≤ at'.2 →
        Keeps cy fb (if axs15231bHeight < at'.2 + fontGlyphH * scale then fb
          else renderChars font8x8Basic x fg bg scale text (at'.1 + fontGlyphW * scale) at'.2
            (renderGlyph (font8x8Basic ch') at'.1 at'.2 fg bg scale fb)) := by
      intro at' hle
      split
      · exact Keeps.refl cy fb
      · have hglyph := keeps_renderGlyph (font8x8Basic ch') at'.1 at'.2 fg bg hscale fb
        exact (hglyph.trans (ih _ _ _)).mono hle
    apply hline
    split
    · have hheight : 0 ≤ fontGlyphH := by decide
      exact Int.le_add_of_nonneg_right (mul_nonneg hheight hscale)
    · exact le_rfl

/-- **Text is drawn downwards.** -/
theorem keeps_renderText (font8x8Basic : UInt8 → ℕ → UInt8) (fb : Frame) (x y : ℤ)
    (text : List UInt8) (fg bg : UInt16) {scale : ℤ} (hscale : 0 ≤ scale) :
    Keeps y fb (displayRenderText font8x8Basic fb x y text fg bg scale) :=
  keeps_renderChars font8x8Basic x fg bg hscale text x y fb

/-! ### Sending -/

/-- The pixels that the buffer for sending has room for, more than a row has. -/
def swapBufPixels : ℕ := 2048

/-- The bytes of each colour change places on their way into the buffer for sending: the processor
has the low one first, and the panel expects the high one first. -/
def swapPairs : List UInt8 → List UInt8
  | a :: b :: bytes => b :: a :: swapPairs bytes
  | bytes => bytes

/-- The chunks that a row is sent in, each of at most `SWAP_BUF_PIXELS` pixels. -/
def rowChunks (pixels : List UInt16) : List (List UInt8) :=
  if pixels.length = 0 then []
  else
    swapPairs ((pixels.take swapBufPixels).flatMap le16) :: rowChunks (pixels.drop swapBufPixels)
termination_by pixels.length
decreasing_by
  rw [List.length_drop, swapBufPixels]
  omega

/-- The data that are sent, in the order of the transactions. -/
def axs15231bFlush (fb : Frame) : List (List UInt8) :=
  (List.range axs15231bHeight).flatMap fun row =>
    rowChunks ((List.range axs15231bWidth).map (pixel fb · row))

/-- The colours that the panel makes of the bytes it is sent: it takes two for a pixel, the high one
first. -/
def received : List UInt8 → List UInt16
  | a :: b :: bytes => ofBe16 a b :: received bytes
  | _ => []

/-- What the panel shows in a column and a row: the commands in front of the data set its window to
the whole screen, which is filled row after row. -/
def shown (transactions : List (List UInt8)) (col row : ℕ) : UInt16 :=
  (received transactions.flatten).getD (row * axs15231bWidth + col) 0

/-- With their bytes exchanged, colours are sent with the high byte first. -/
theorem swapPairs_flatMap (pixels : List UInt16) :
    swapPairs (pixels.flatMap le16) = pixels.flatMap be16 := by
  induction pixels with
  | nil => rfl
  | cons v pixels ih =>
    rw [List.flatMap_cons, List.flatMap_cons, ← ih]
    rfl

/-- However a row is divided into chunks, all of its colours are sent in their order. -/
theorem flatten_rowChunks (pixels : List UInt16) :
    (rowChunks pixels).flatten = pixels.flatMap be16 := by
  induction pixels using rowChunks.induct with
  | case1 pixels hnone =>
    rw [rowChunks, if_pos hnone, List.length_eq_zero_iff.mp hnone]
    rfl
  | case2 pixels hsome ih =>
    rw [rowChunks, if_neg hsome, List.flatten_cons, ih, swapPairs_flatMap, ← List.flatMap_append,
      List.take_append_drop]

/-- What the panel makes of the bytes are the colours that were sent. -/
theorem received_flatMap (pixels : List UInt16) : received (pixels.flatMap be16) = pixels := by
  induction pixels with
  | nil => rfl
  | cons v pixels ih =>
    rw [List.flatMap_cons]
    show ofBe16 _ _ :: received (pixels.flatMap be16) = _
    rw [ih, ofBe16_be16]

/-- All rows together are the frame buffer from its beginning to its end. -/
theorem flatten_flush (fb : Frame) : (axs15231bFlush fb).flatten =
    ((List.range (axs15231bHeight * axs15231bWidth)).map fun k : ℕ => fb k).flatMap be16 := by
  rw [← BitString.flatMap_range_mul, List.flatMap_assoc, axs15231bFlush]
  generalize List.range axs15231bHeight = rows
  induction rows with
  | nil => rfl
  | cons row rows ih =>
    rw [List.flatMap_cons, List.flatMap_cons, List.flatten_append, ih, flatten_rowChunks]
    rfl

/-- **The panel shows what is in the frame buffer.** -/
theorem shown_flush (fb : Frame) {col row : ℕ} (hcol : col < axs15231bWidth)
    (hrow : row < axs15231bHeight) : shown (axs15231bFlush fb) col row = pixel fb col row := by
  have hindex : row * axs15231bWidth + col < axs15231bHeight * axs15231bWidth := by
    simp only [axs15231bWidth, axs15231bHeight] at *
    omega
  rw [shown, flatten_flush, received_flatMap, List.getD_eq_getElem _ _ (by simpa using hindex),
    List.getElem_map, List.getElem_range, pixel]
  rfl

end Display

end TollGate
