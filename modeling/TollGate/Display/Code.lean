import Mathlib
import TollGate.Qr.Symbol
import TollGate.Display.Panel

/-!
# Symbols on the screen

`render_qr_at` chooses the version and the size of a module by the length of the text, and draws the
symbol in the middle of an area. `Scans` says what this is for: a reader who samples the area finds
the text, whichever pixel of each module it looks at.

The screens are black, and the code draws the dark modules of a symbol white and the light ones
black. Such a symbol, with the two colours exchanged, can be read by a reader that tries both ways,
so `Scans` names the colour that the reader takes for dark.

Any text of up to 321 bytes can be scanned (`scans_of_renderQrAt`) in any area that has room for the
largest symbol, which is less than all the screens give it. What is drawn elsewhere afterwards does
not matter (`Scans.congr`).
-/

namespace TollGate

namespace Display

open Qr

/-- Black: the screens are drawn on it, and the light modules of a symbol have this colour. -/
def colorBg : UInt16 := 0x0000

/-- White, which most of the texts have, and the dark modules of a symbol. -/
def colorWhite : UInt16 := 0xFFFF

/-- The version by the length of the text in bytes: the smallest with room for it at the level L,
where the last branch takes all longer texts, whether version 11 has room for them or not. -/
def qrVersionFromStrlen (len : ℕ) : ℕ :=
  if len ≤ 17 then 1
  else if len ≤ 32 then 2
  else if len ≤ 53 then 3
  else if len ≤ 78 then 4
  else if len ≤ 106 then 5
  else if len ≤ 134 then 6
  else if len ≤ 154 then 7
  else if len ≤ 192 then 8
  else if len ≤ 230 then 9
  else if len ≤ 271 then 10
  else 11

/-- The pixels along each side of a module, fewer in the larger symbols. -/
def qrPixelSize (len : ℕ) : ℕ :=
  if len ≤ 53 then 4
  else if len ≤ 134 then 3
  else 2

/-- The body of the loops over the modules: each is a square of one colour, white where the symbol
has a dark module. -/
def drawModule (qrcode : QRCode) (cx cy px : ℤ) (fb : Frame) (p : Place) : Frame :=
  let mod := qrcodeGetModule qrcode p.1 p.2
  let color := if mod then colorWhite else colorBg
  axs15231bFillRect fb (cx + p.1 * px) (cy + p.2 * px) px px color

/-- The symbol of a text in the middle of an area, or at its edge where the area is too small. With
`alloc` false the `malloc` for the symbol failed, and nothing is drawn. -/
def renderQrAt (alloc : Bool) (fb : Frame) (text : List UInt8) (xOff yOff maxW maxH : ℤ) :
    Frame :=
  let len := text.length
  let version := qrVersionFromStrlen len
  let px := qrPixelSize len
  if !alloc then fb
  else
    let qrcode := qrcodeInitText version eccLow text
    let qrPxW : ℤ := qrcode.size * px
    let qrPxH : ℤ := qrcode.size * px
    let cx := xOff + (maxW - qrPxW).tdiv 2
    let cy := yOff + (maxH - qrPxH).tdiv 2
    let cx := if cx < 0 then 0 else cx
    let cy := if cy < 0 then 0 else cy
    (cells qrcode.size).foldl (drawModule qrcode cx cy px) fb

/-! ### The modules on the screen -/

variable {fb fb' : Frame} {text : List UInt8}

/-- The colour that a module is drawn in. -/
def moduleColor (qrcode : QRCode) (p : Place) : UInt16 :=
  if qrcodeGetModule qrcode p.1 p.2 then colorWhite else colorBg

/-- The squares of the modules that were drawn, side by side. -/
theorem pixel_foldl_drawModule (qrcode : QRCode) {cx cy px n : ℕ} (hpx : 0 < px)
    (hw : cx + n * px ≤ axs15231bWidth) (hh : cy + n * px ≤ axs15231bHeight) {ps : List Place}
    (hps : ∀ p ∈ ps, p.1 < n ∧ p.2 < n) (fb : Frame) {col row : ℕ} (hcol : col < axs15231bWidth) :
    pixel (ps.foldl (drawModule qrcode cx cy px) fb) col row =
      if cx ≤ col ∧ cy ≤ row ∧ ((col - cx) / px, (row - cy) / px) ∈ ps then
        moduleColor qrcode ((col - cx) / px, (row - cy) / px)
      else pixel fb col row := by
  induction ps generalizing fb with
  | nil => simp
  | cons p ps ih =>
    obtain ⟨hx, hy⟩ := hps p List.mem_cons_self
    have hxend : (p.1 + 1) * px ≤ n * px := Nat.mul_le_mul_right px hx
    have hyend : (p.2 + 1) * px ≤ n * px := Nat.mul_le_mul_right px hy
    rw [Nat.succ_mul] at hxend hyend
    rw [List.foldl_cons, ih fun q hq => hps q (List.mem_cons_of_mem p hq)]
    have hdraw : pixel (drawModule qrcode cx cy px fb p) col row =
        if cx ≤ col ∧ cy ≤ row ∧ p = ((col - cx) / px, (row - cy) / px) then moduleColor qrcode p
        else pixel fb col row := by
      unfold drawModule
      dsimp only
      rw [pixel_fillRect _ _ _ _ _ hcol]
      refine if_congr ?_ rfl rfl
      rw [Prod.ext_iff, eq_comm (a := p.1), eq_comm (a := p.2)]
      dsimp only
      rw [Nat.div_eq_iff hpx, Nat.div_eq_iff hpx]
      rw [← Nat.cast_mul, ← Nat.cast_mul]
      omega
    rw [hdraw]
    by_cases hin : cx ≤ col ∧ cy ≤ row
    · by_cases hmem : ((col - cx) / px, (row - cy) / px) ∈ ps
      · rw [if_pos ⟨hin.1, hin.2, hmem⟩, if_pos ⟨hin.1, hin.2, List.mem_cons_of_mem p hmem⟩]
      · rw [if_neg fun h => hmem h.2.2]
        refine Eq.symm (if_ctx_congr ?_ (fun h => ?_) fun _ => rfl)
        · rw [List.mem_cons, or_iff_left hmem, eq_comm]
        · rw [← h.2.2]
    · rw [if_neg fun h => hin ⟨h.1, h.2.1⟩, if_neg fun h => hin ⟨h.1, h.2.1⟩,
        if_neg fun h => hin ⟨h.1, h.2.1⟩]

/-- The modules of a symbol are all drawn below the first row of its area. -/
theorem keeps_foldl_drawModule (qrcode : QRCode) (cx : ℤ) {cy px : ℤ} (hpx : 0 ≤ px)
    (ps : List Place) (fb : Frame) : Keeps cy fb (ps.foldl (drawModule qrcode cx cy px) fb) := by
  induction ps generalizing fb with
  | nil => exact Keeps.refl cy fb
  | cons p ps ih =>
    refine Keeps.trans ((keeps_fillRect fb _ _ px px _).mono ?_) (ih _)
    exact Int.le_add_of_nonneg_right (mul_nonneg (Int.natCast_nonneg _) hpx)

/-! ### Scanning -/

/-- A text can be scanned in an area: there is a symbol with modules of `px` pixels in it, and a
reader gets the text from it, whichever pixel of each module it looks at. The reader takes pixels of
the colour `dark` for the dark modules and all others for the light ones. -/
def Scans (dark : UInt16) (look : ℕ → ℕ → UInt16) (left top right bottom : ℕ)
    (text : List UInt8) : Prop :=
  ∃ version cx cy px : ℕ, version ∈ List.range' 1 11 ∧ 0 < px ∧
    left ≤ cx ∧ cx + Reader.sizeOf version * px ≤ right ∧
    top ≤ cy ∧ cy + Reader.sizeOf version * px ≤ bottom ∧
    ∀ dx < px, ∀ dy < px, Reader.read (Reader.sizeOf version)
      (fun p => look (cx + p.1 * px + dx) (cy + p.2 * px + dy) == dark) = some text

/-- A pixel of a module is in the square of the symbol. -/
theorem module_lt {x n px d : ℕ} (hx : x < n) (hd : d < px) : x * px + d < n * px := by
  have hend : (x + 1) * px ≤ n * px := Nat.mul_le_mul_right px hx
  rw [Nat.succ_mul] at hend
  omega

/-- **What is outside of the area does not matter.** -/
theorem Scans.congr {dark : UInt16} {look look' : ℕ → ℕ → UInt16} {left top right bottom : ℕ}
    (h : Scans dark look left top right bottom text)
    (heq : ∀ col, left ≤ col → col < right → ∀ row, top ≤ row → row < bottom →
      look' col row = look col row) :
    Scans dark look' left top right bottom text := by
  obtain ⟨version, cx, cy, px, hlow, hpx, hleft, hright, htop, hbottom, hread⟩ := h
  refine ⟨version, cx, cy, px, hlow, hpx, hleft, hright, htop, hbottom, fun dx hdx dy hdy => ?_⟩
  obtain ⟨-, -, -, hversion⟩ := tables_low version hlow
  have hsize := (size_low hlow).1
  refine Eq.trans (Reader.read_congr (by rw [hversion]) (by omega) fun x hx y hy => ?_)
    (hread dx hdx dy hdy)
  have hcol := module_lt hx hdx
  have hrow := module_lt hy hdy
  dsimp only
  rw [heq _ (by omega) (by omega) _ (by omega) (by omega)]

/-- What can be scanned in an area can be scanned in one that reaches further up and down. -/
theorem Scans.mono {dark : UInt16} {look : ℕ → ℕ → UInt16}
    {left top right bottom top' bottom' : ℕ} (h : Scans dark look left top right bottom text)
    (htop : top' ≤ top) (hbottom : bottom ≤ bottom') :
    Scans dark look left top' right bottom' text := by
  obtain ⟨version, cx, cy, px, hlow, hpx, hleft, hright, hcy, hend, hread⟩ := h
  exact ⟨version, cx, cy, px, hlow, hpx, hleft, hright, htop.trans hcy, hend.trans hbottom, hread⟩

/-- The longest text of each version at the level L, in bytes. The first ten are the bounds of
`qr_version_from_strlen`, and the last is what version 11 has room for. -/
def maxLen (version : ℕ) : ℕ :=
  [17, 32, 53, 78, 106, 134, 154, 192, 230, 271, 321].getD (version - 1) 0

/-- The bounds are right: a text of that length has room in its version, in the byte mode, which
needs the most. -/
theorem maxLen_room : ∀ v ∈ List.range' 1 11,
    4 + Reader.countWidth v 4 + 8 * maxLen v ≤ 8 * dataRoom v := by
  decide

/-- The version has room for the text, and the symbol is small: at most 123 pixels along each side,
whatever the version. -/
theorem qrVersionFromStrlen_spec {len : ℕ} (h : len ≤ 321) :
    qrVersionFromStrlen len ∈ List.range' 1 11 ∧ len ≤ maxLen (qrVersionFromStrlen len) ∧
      0 < qrPixelSize len ∧
      Reader.sizeOf (qrVersionFromStrlen len) * qrPixelSize len ≤ 123 := by
  unfold qrVersionFromStrlen qrPixelSize
  split_ifs
  all_goals first
    | omega
    | exact ⟨by decide, ‹_›, by decide, by decide⟩

/-- A text of up to 321 bytes has room in the version that is chosen for it. -/
theorem fits_of_length_le (h : text.length ≤ 321) :
    Fits (qrVersionFromStrlen text.length) text := by
  obtain ⟨hlow, hlen, -, -⟩ := qrVersionFromStrlen_spec h
  have hroom := maxLen_room _ hlow
  exact ⟨hlow, by omega⟩

/-- The symbol in the middle of its area: the place of its corner is a natural number, since an area
that has room for the largest symbol has room for each. -/
theorem renderQrAt_eq (fb : Frame) (htext : 0 ∉ text) (hlen : text.length ≤ 321)
    (left top : ℕ) {w h : ℕ} (hw : 123 ≤ w) (hh : 123 ≤ h) :
    ∃ cx cy : ℕ, left ≤ cx ∧ top ≤ cy ∧
      cx + Reader.sizeOf (qrVersionFromStrlen text.length) * qrPixelSize text.length ≤ left + w ∧
      cy + Reader.sizeOf (qrVersionFromStrlen text.length) * qrPixelSize text.length ≤ top + h ∧
      renderQrAt true fb text left top w h =
        (cells (Reader.sizeOf (qrVersionFromStrlen text.length))).foldl
          (drawModule (qrcodeInitBytes (qrVersionFromStrlen text.length) eccLow text) cx cy
            (qrPixelSize text.length)) fb := by
  obtain ⟨hlow, -, hpx, hsquare⟩ := qrVersionFromStrlen_spec hlen
  have hq : qrcodeInitText (qrVersionFromStrlen text.length) eccLow text =
      qrcodeInitBytes (qrVersionFromStrlen text.length) eccLow text := by
    rw [qrcodeInitText, List.takeWhile_eq_self_iff.mpr]
    intro b hb
    rw [bne_iff_ne]
    rintro rfl
    exact htext hb
  obtain ⟨f, hf⟩ := (fits_of_length_le hlen).finished
  have hsize := hf.size
  generalize hn : Reader.sizeOf (qrVersionFromStrlen text.length) * qrPixelSize text.length = n
    at hsquare
  have hmiddle : ∀ start room : ℕ, 123 ≤ room →
      (start : ℤ) + ((room : ℤ) - n).tdiv 2 = ((start + (room - n) / 2 : ℕ) : ℤ) := by
    intro start room hroom
    rw [Int.tdiv_eq_ediv_of_nonneg (by omega)]
    omega
  refine ⟨left + (w - n) / 2, top + (h - n) / 2, Nat.le_add_right _ _, Nat.le_add_right _ _,
    ?_, ?_, ?_⟩
  · omega
  · omega
  · unfold renderQrAt
    dsimp only
    have hfirst : ∀ k : ℕ, ¬ (k : ℤ) < 0 := fun k => not_lt.mpr (Int.natCast_nonneg k)
    rw [hq, hsize, ← Nat.cast_mul, hn, hmiddle left w hw, hmiddle top h hh, if_neg (hfirst _),
      if_neg (hfirst _)]
    rfl

/-- **A text on the screen can be scanned**, by a reader that takes white for dark, wherever the
area is on the screen and whatever was there before. -/
theorem scans_of_renderQrAt (fb : Frame) (htext : 0 ∉ text) (hlen : text.length ≤ 321)
    (left top : ℕ) {w h : ℕ} (hw : 123 ≤ w) (hh : 123 ≤ h) (hright : left + w ≤ axs15231bWidth)
    (hbottom : top + h ≤ axs15231bHeight) :
    Scans colorWhite (pixel (renderQrAt true fb text left top w h)) left top (left + w) (top + h)
      text := by
  obtain ⟨cx, cy, hleft, htop, hright', hbottom', hrender⟩ :=
    renderQrAt_eq fb htext hlen left top hw hh
  obtain ⟨hlow, -, hpx, -⟩ := qrVersionFromStrlen_spec hlen
  have hfits := fits_of_length_le hlen
  obtain ⟨f, hf⟩ := hfits.finished
  have hread := hfits.read
  rw [hf.size] at hread
  refine ⟨_, cx, cy, _, hlow, hpx, hleft, hright', htop, hbottom', fun dx hdx dy hdy => ?_⟩
  obtain ⟨-, -, -, hversion⟩ := tables_low _ hlow
  have hsize := (size_low hlow).1
  refine Eq.trans (Reader.read_congr (by rw [hversion]) (by omega) fun x hx y hy => ?_) hread
  have hcol := module_lt hx hdx
  have hrow := module_lt hy hdy
  have hplace : ∀ start k d, d < qrPixelSize text.length →
      (start + k * qrPixelSize text.length + d - start) / qrPixelSize text.length = k := by
    intro start k d hd
    rw [Nat.add_assoc, Nat.add_sub_cancel_left, Nat.mul_comm, Nat.mul_add_div hpx,
      Nat.div_eq_of_lt hd, Nat.add_zero]
  dsimp only
  rw [hrender, pixel_foldl_drawModule _ hpx (hright'.trans hright) (hbottom'.trans hbottom)
    (fun p hp => mem_cells.mp hp) fb (by omega), hplace cx x dx hdx, hplace cy y dy hdy,
    if_pos ⟨by omega, by omega, mem_cells.mpr ⟨hx, hy⟩⟩]
  unfold moduleColor view
  cases qrcodeGetModule _ x y
  · rfl
  · rfl

end Display

end TollGate
