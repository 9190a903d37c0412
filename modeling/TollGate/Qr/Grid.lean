import Mathlib
import TollGate.Lib.BitString

/-!
# Buffers of bits and grids of modules

A `BitBucket` is used in two ways: as a buffer that bits are appended to, and as the grid of a
symbol, row after row. `Holds` says which bits a buffer holds. `Shows` says which picture a grid
shows, a picture being a colour for each place; a module that is set is an update of the picture
(`Shows.setBit`).

Drawing is a list of modules set one after the other (`drawModules`), and on the picture it is a
list of updates (`paint`): outside the list nothing changes, and where no place comes twice, each
module of the list is in the picture.
-/

namespace TollGate

namespace Qr

open BitString

/-- An array of bits: a buffer that is filled from the front, with the place of the next bit, or a
square grid, with its width. The source has one structure for both and tells them apart by how they
are used. -/
structure BitBucket where
  bitOffsetOrWidth : ℕ
  capacityBytes : ℕ
  data : List UInt8
  deriving DecidableEq

/-- The bytes of a grid of this size. -/
def bbGetGridSizeBytes (size : ℕ) : ℕ := (size * size + 7) / 8

/-- The bytes of a buffer for so many bits. -/
def bbGetBufferSizeBytes (bits : ℕ) : ℕ := (bits + 7) / 8

/-- An empty buffer, all zeros. -/
def bbInitBuffer (capacityBytes : ℕ) : BitBucket :=
  ⟨0, capacityBytes, List.replicate capacityBytes 0⟩

/-- A grid of light modules. -/
def bbInitGrid (size : ℕ) : BitBucket :=
  ⟨size, bbGetGridSizeBytes size, List.replicate (bbGetGridSizeBytes size) 0⟩

/-- `data[offset >> 3] |= bit << (7 - (offset & 7))`, and the next offset. -/
def appendBit (bitBuffer : BitBucket) (bit : Bool) : BitBucket :=
  { bitBuffer with
    data := if bit then setBit bitBuffer.data bitBuffer.bitOffsetOrWidth else bitBuffer.data
    bitOffsetOrWidth := bitBuffer.bitOffsetOrWidth + 1 }

/-- The lowest bits of a number, the highest one of them first. -/
def bbAppendBits (bitBuffer : BitBucket) (val length : ℕ) : BitBucket :=
  (bitsOf length val).foldl appendBit bitBuffer

/-- The module in a column and a row gets a colour. -/
def bbSetBit (bitGrid : BitBucket) (x y : ℕ) (on : Bool) : BitBucket :=
  { bitGrid with data := assignBit bitGrid.data (y * bitGrid.bitOffsetOrWidth + x) on }

/-- The colour of the module in a column and a row; the rows are one after the other, without a gap
between them. -/
def bbGetBit (bitGrid : BitBucket) (x y : ℕ) : Bool :=
  bitAt bitGrid.data (y * bitGrid.bitOffsetOrWidth + x)

/-- The module in a column and a row is changed, if it is to be. -/
def bbInvertBit (bitGrid : BitBucket) (x y : ℕ) (invert : Bool) : BitBucket :=
  { bitGrid with
    data := assignBit bitGrid.data (y * bitGrid.bitOffsetOrWidth + x)
      (xor (bbGetBit bitGrid x y) invert) }

/-! ### Buffers -/

/-- A buffer of `capacityBytes` with these bits in it, and zeros behind them, which is what makes a
bit that is added by an `|=` come out right. -/
structure BitBucket.Holds (bb : BitBucket) (bits : List Bool) : Prop where
  bytes : BitString.Holds bb.data bits
  offset : bb.bitOffsetOrWidth = bits.length
  capacity : bb.data.length = bb.capacityBytes

variable {bb : BitBucket} {bits : List Bool}

/-- A new buffer has nothing in it. -/
theorem holds_initBuffer (capacityBytes : ℕ) : (bbInitBuffer capacityBytes).Holds [] :=
  ⟨holds_replicate_zero _, rfl, List.length_replicate⟩

/-- One bit is appended, as long as there is room for it. -/
theorem BitBucket.Holds.appendBit (h : bb.Holds bits) (hroom : bits.length < 8 * bb.capacityBytes)
    (bit : Bool) : (appendBit bb bit).Holds (bits ++ [bit]) := by
  refine ⟨?_, ?_, ?_⟩
  · have hbyte : bits.length / 8 < bb.data.length := by
      rw [h.capacity]
      omega
    have hwrite := h.bytes.write hbyte bit
    rwa [← h.offset] at hwrite
  · rw [List.length_append, List.length_singleton, ← h.offset]
    rfl
  · cases bit with
    | true => exact (length_setBit _ _).trans h.capacity
    | false => exact h.capacity

/-- The capacity stays. -/
theorem capacity_appendBit (bb : BitBucket) (bit : Bool) :
    (appendBit bb bit).capacityBytes = bb.capacityBytes := rfl

/-- The capacity stays. -/
theorem capacity_appendBits (bb : BitBucket) (val length : ℕ) :
    (bbAppendBits bb val length).capacityBytes = bb.capacityBytes := by
  unfold bbAppendBits
  induction bitsOf length val generalizing bb with
  | nil => rfl
  | cons bit rest ih => exact (ih (appendBit bb bit)).trans (capacity_appendBit bb bit)

/-- **Bits are appended** as long as there is room for them; what is in the buffer already stays. -/
theorem BitBucket.Holds.appendBits (h : bb.Holds bits) (val : ℕ) {length : ℕ}
    (hroom : bits.length + length ≤ 8 * bb.capacityBytes) :
    (bbAppendBits bb val length).Holds (bits ++ bitsOf length val) := by
  have hrun : ∀ (new : List Bool) (bb : BitBucket) (bits : List Bool), bb.Holds bits →
      bits.length + new.length ≤ 8 * bb.capacityBytes →
      (new.foldl Qr.appendBit bb).Holds (bits ++ new) := by
    intro new
    induction new with
    | nil =>
      intro bb bits h _
      rwa [List.append_nil]
    | cons bit rest ih =>
      intro bb bits h hroom
      rw [List.length_cons] at hroom
      have hnext := ih (Qr.appendBit bb bit) (bits ++ [bit]) (h.appendBit (by omega) bit) (by
        rw [List.length_append, List.length_singleton, capacity_appendBit]
        omega)
      rwa [List.append_assoc, List.singleton_append] at hnext
  exact hrun (bitsOf length val) bb bits h (by rwa [length_bitsOf])

/-! ### Grids -/

/-- The column and the row of a module. -/
abbrev Place := ℕ × ℕ

/-- A colour for each place, dark if it is true. What is outside of a symbol does not matter. -/
abbrev Picture := Place → Bool

/-- The modules of a grid of this size have the colours of a picture. It is by its picture that a
grid is spoken of from here on. -/
structure BitBucket.Shows (size : ℕ) (bitGrid : BitBucket) (f : Picture) : Prop where
  width : bitGrid.bitOffsetOrWidth = size
  room : size * size ≤ 8 * bitGrid.data.length
  bits : ∀ x < size, ∀ y < size, bbGetBit bitGrid x y = f (x, y)

variable {size : ℕ} {bitGrid : BitBucket} {f f' φ φ' : Picture}

/-- A new grid is light all over. -/
theorem shows_initGrid (size : ℕ) : (bbInitGrid size).Shows size fun _ => false := by
  refine ⟨rfl, ?_, fun x _ y _ => ?_⟩
  · have hlen : (bbInitGrid size).data.length = (size * size + 7) / 8 := List.length_replicate
    rw [hlen]
    omega
  · exact holds_replicate_zero _ _

/-- Places of a grid have bits of their own, since no column is beyond the width. -/
theorem offset_inj {x y x' y' : ℕ} (hx : x < size) (hx' : x' < size) :
    y * size + x = y' * size + x' ↔ (x, y) = (x', y') := by
  constructor
  · intro h
    have hcol := congrArg (· % size) h
    simp only [Nat.mul_add_mod_of_lt hx, Nat.mul_add_mod_of_lt hx'] at hcol
    subst hcol
    have hrow : y * size = y' * size := by omega
    rw [Nat.eq_of_mul_eq_mul_right (by omega) hrow]
  · intro h
    obtain ⟨rfl, rfl⟩ := Prod.mk.inj h
    rfl

/-- The bit of a place is within the grid. -/
theorem offset_lt {x y : ℕ} (hx : x < size) (hy : y < size) : y * size + x < size * size := by
  have hrow : (y + 1) * size ≤ size * size := Nat.mul_le_mul_right size hy
  rw [Nat.succ_mul] at hrow
  omega

/-- A bit of a grid that is assigned changes its own place of the picture and no other. -/
theorem BitBucket.Shows.assign (h : bitGrid.Shows size f) {x y : ℕ} (hx : x < size) (hy : y < size)
    (on : Bool) :
    BitBucket.Shows size
      { bitGrid with data := assignBit bitGrid.data (y * bitGrid.bitOffsetOrWidth + x) on }
      (Function.update f (x, y) on) := by
  refine ⟨h.width, ?_, fun x' hx' y' hy' => ?_⟩
  · rw [length_assignBit]
    exact h.room
  · have hroom := h.room
    have hlt := offset_lt hx hy
    have hbits := h.bits x' hx' y' hy'
    unfold bbGetBit at hbits ⊢
    rw [h.width] at hbits ⊢
    rw [bitAt_assignBit (by omega), Function.update_apply, hbits]
    by_cases hplace : (x', y') = (x, y)
    · rw [if_pos hplace, if_pos ((offset_inj hx hx').mpr hplace.symm)]
    · rw [if_neg hplace, if_neg fun heq => hplace ((offset_inj hx hx').mp heq).symm]

/-- A module that is set, in the picture. -/
theorem BitBucket.Shows.setBit (h : bitGrid.Shows size f) {x y : ℕ} (hx : x < size) (hy : y < size)
    (on : Bool) : (bbSetBit bitGrid x y on).Shows size (Function.update f (x, y) on) :=
  h.assign hx hy on

/-- A module that is inverted, in the picture. -/
theorem BitBucket.Shows.invertBit (h : bitGrid.Shows size f) {x y : ℕ} (hx : x < size)
    (hy : y < size) (invert : Bool) :
    (bbInvertBit bitGrid x y invert).Shows size
      (Function.update f (x, y) (xor (f (x, y)) invert)) := by
  rw [← h.bits x hx y hy]
  exact h.assign hx hy _

/-- Two pictures of one grid agree inside of it, and outside it does not matter. -/
theorem BitBucket.Shows.congr (h : bitGrid.Shows size f)
    (heq : ∀ x < size, ∀ y < size, f (x, y) = f' (x, y)) : bitGrid.Shows size f' :=
  ⟨h.width, h.room, fun x hx y hy => (h.bits x hx y hy).trans (heq x hx y hy)⟩

/-! ### Drawing -/

/-- The grids `modules` and `isFunction` of one symbol: the colours, and which modules are reserved
for the patterns. -/
structure Canvas where
  modules : BitBucket
  isFunction : BitBucket

/-- A module of a pattern gets its colour and is reserved. -/
def setFunctionModule (c : Canvas) (x y : ℕ) (on : Bool) : Canvas :=
  ⟨bbSetBit c.modules x y on, bbSetBit c.isFunction x y true⟩

/-- Function modules set one after the other. The patterns differ only in their lists of modules. -/
def drawModules (c : Canvas) (ms : List (Place × Bool)) : Canvas :=
  ms.foldl (fun c m => setFunctionModule c m.1.1 m.1.2 m.2) c

/-- A symbol with these colours, and these of its modules reserved. -/
structure Canvas.Shows (size : ℕ) (c : Canvas) (f φ : Picture) : Prop where
  modules : c.modules.Shows size f
  isFunction : c.isFunction.Shows size φ

/-- Updates of a picture one after the other, where later ones count. -/
def paint (f : Picture) (ms : List (Place × Bool)) : Picture :=
  ms.foldl (fun f m => Function.update f m.1 m.2) f

/-- All modules of a list are inside of the symbol. -/
def Inside (size : ℕ) (ms : List (Place × Bool)) : Prop := ∀ m ∈ ms, m.1.1 < size ∧ m.1.2 < size

variable {c : Canvas} {ms : List (Place × Bool)} {p : Place}

/-- The first update of several. -/
theorem paint_cons (f : Picture) (m : Place × Bool) (ms : List (Place × Bool)) :
    paint f (m :: ms) = paint (Function.update f m.1 m.2) ms := rfl

/-- Elsewhere the picture stays. -/
theorem paint_of_notMem (h : p ∉ ms.map Prod.fst) : paint f ms p = f p := by
  induction ms generalizing f with
  | nil => rfl
  | cons m ms ih =>
    rw [List.map_cons, List.mem_cons, not_or] at h
    rw [paint_cons, ih h.2, Function.update_of_ne h.1]

/-- Where no place comes twice, all modules of the list are there. -/
theorem paint_of_mem {on : Bool} (hnodup : (ms.map Prod.fst).Nodup) (h : (p, on) ∈ ms) :
    paint f ms p = on := by
  induction ms generalizing f with
  | nil => exact absurd h List.not_mem_nil
  | cons m ms ih =>
    rw [List.map_cons, List.nodup_cons] at hnodup
    rw [paint_cons]
    rcases List.mem_cons.mp h with rfl | h
    · rw [paint_of_notMem hnodup.1, Function.update_self]
    · exact ih hnodup.2 h

/-- What a list covers does not depend on what was there, which is why the masks that are tried can
write their format bits over each other. -/
theorem paint_eq_of_mem (h : p ∈ ms.map Prod.fst) : paint f ms p = paint f' ms p := by
  induction ms generalizing f f' with
  | nil => exact absurd h List.not_mem_nil
  | cons m ms ih =>
    rw [paint_cons, paint_cons]
    by_cases hrest : p ∈ ms.map Prod.fst
    · exact ih hrest
    · have hp : p = m.1 := by
        rw [List.map_cons, List.mem_cons] at h
        exact h.resolve_right hrest
      rw [paint_of_notMem hrest, paint_of_notMem hrest, hp, Function.update_self,
        Function.update_self]

/-- The picture of the reserved modules grows by the places of the list. -/
theorem paint_true (φ : Picture) (ms : List (Place × Bool)) :
    paint φ (ms.map fun m => (m.1, true)) = fun p => φ p || decide (p ∈ ms.map Prod.fst) := by
  induction ms generalizing φ with
  | nil => simp [paint]
  | cons m ms ih =>
    rw [List.map_cons, paint_cons, ih]
    funext p
    by_cases hp : p = m.1
    · simp [hp]
    · simp [hp]

/-- **Drawing on the grids is painting on their pictures**, and reserving the places of the list. -/
theorem Canvas.Shows.drawModules (h : c.Shows size f φ) (hms : Inside size ms) :
    (drawModules c ms).Shows size (paint f ms)
      fun p => φ p || decide (p ∈ ms.map Prod.fst) := by
  rw [← paint_true]
  induction ms generalizing c f φ with
  | nil => exact h
  | cons m ms ih =>
    obtain ⟨hx, hy⟩ := hms m List.mem_cons_self
    exact ih ⟨h.modules.setBit hx hy m.2, h.isFunction.setBit hx hy true⟩
      fun m' hm' => hms m' (List.mem_cons_of_mem _ hm')

/-- A list may be drawn in two parts. -/
theorem drawModules_append (c : Canvas) (ms ns : List (Place × Bool)) :
    Qr.drawModules c (ms ++ ns) = Qr.drawModules (Qr.drawModules c ms) ns :=
  List.foldl_append

end Qr

end TollGate
