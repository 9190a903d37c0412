import Mathlib
import TollGate.Lib.ReedSolomon
import TollGate.Qr.Grid

/-!
# What a reader makes of a symbol

A phone that looks at a symbol knows its size and the colours of its modules. From them it gets the
level and the mask (`readFormat`, which corrects up to three wrong modules), takes the mask off,
follows the modules that are free for data up and down the columns (`scanOrder`), deals the
codewords out to the blocks, and reads the segment in the data.

The definitions follow the standard for symbols of version 1 to 11 at the level L, with its tables,
and say nothing about how the symbol was drawn.
-/

namespace TollGate

namespace Qr

open BitString

namespace Reader

/-- The modules along each side of a symbol. -/
def sizeOf (version : ℕ) : ℕ := 4 * version + 17

/-- The version of a symbol by its size. -/
def versionOf (size : ℕ) : ℕ := (size - 17) / 4

/-! ### The places of the symbol -/

/-- The rows and columns of the centres of alignment patterns, from the table of the standard. -/
def alignmentTable : ℕ → List ℕ
  | 2 => [6, 18]
  | 3 => [6, 22]
  | 4 => [6, 26]
  | 5 => [6, 30]
  | 6 => [6, 34]
  | 7 => [6, 22, 38]
  | 8 => [6, 24, 42]
  | 9 => [6, 26, 46]
  | 10 => [6, 28, 50]
  | 11 => [6, 30, 54]
  | _ => []

/-- The centres, but for the three that would meet a finder pattern. -/
def alignmentCentres (version : ℕ) : List Place :=
  let far := sizeOf version - 7
  (alignmentTable version ×ˢ alignmentTable version).filter fun p =>
    !((p.1 == 6 && p.2 == 6) || (p.1 == 6 && p.2 == far) || (p.1 == far && p.2 == 6))

/-- `|a - b| ≤ r`, for natural numbers. -/
def near (r a b : ℕ) : Bool := Nat.ble a (b + r) && Nat.ble b (a + r)

/-- The corners with the finder patterns, their separators and the format information. -/
def inCorner (size x y : ℕ) : Bool :=
  (Nat.ble x 8 && Nat.ble y 8) || (Nat.ble (size - 8) x && Nat.ble y 8) ||
    (Nat.ble x 8 && Nat.ble (size - 8) y)

/-- The two areas with the version information. -/
def inVersion (version size x y : ℕ) : Bool :=
  Nat.ble 7 version &&
    ((near 1 x (size - 10) && Nat.ble y 5) || (Nat.ble x 5 && near 1 y (size - 10)))

/-- The modules that hold no data. -/
def reserved (version : ℕ) (p : Place) : Bool :=
  Nat.beq p.1 6 || Nat.beq p.2 6 || inCorner (sizeOf version) p.1 p.2 ||
    inVersion version (sizeOf version) p.1 p.2 ||
    (alignmentCentres version).any fun c => near 2 p.1 c.1 && near 2 p.2 c.2

/-- The right one of a pair of columns. The column of the timing pattern is left out. -/
def rightColumn (size k : ℕ) : ℕ :=
  if size - 1 - 2 * k ≤ 6 then size - 2 - 2 * k else size - 1 - 2 * k

/-- The pairs of columns are read from the right, upwards and downwards in turn. -/
def scanOrder (size : ℕ) : List Place :=
  (List.range ((size - 1) / 2)).flatMap fun k =>
    (List.range size).flatMap fun vert =>
      let row := if k % 2 = 0 then size - 1 - vert else vert
      [(rightColumn size k, row), (rightColumn size k - 1, row)]

/-- The modules with data, in the order in which they are read. -/
def dataPlaces (version : ℕ) : List Place :=
  (scanOrder (sizeOf version)).filter fun p => !reserved version p

/-! ### Format information -/

/-- The fifteen bits of a level and a mask: the five bits, the remainder of their division by the
polynomial `0x537`, and a mask over all of them. -/
def formatWord (level mask : ℕ) : ℕ :=
  let data := 8 * level + mask
  (1024 * data + (List.range 10).foldl (fun rem _ => (2 * rem) ^^^ (rem / 512 * 0x537)) data) ^^^
    0x5412

/-- The places of the bits of the format information beside the upper left finder pattern, the
lowest one first. -/
def formatPlaces : List Place :=
  [(8, 0), (8, 1), (8, 2), (8, 3), (8, 4), (8, 5), (8, 7), (8, 8), (7, 8), (5, 8), (4, 8), (3, 8),
    (2, 8), (1, 8), (0, 8)]

/-- The places of the other copy, which is divided between the two other corners. -/
def formatPlaces' (size : ℕ) : List Place :=
  ((List.range 8).map fun i => (size - 1 - i, 8)) ++ (List.range 7).map fun i => (8, size - 7 + i)

/-- The bits of a word of the format information, the lowest one first. -/
def formatBits (word : ℕ) : List Bool := (List.range 15).map word.testBit

/-- The level and the mask whose word differs in at most three places from what was read, if there
are such. -/
def readFormat (bits : List Bool) : Option (ℕ × ℕ) :=
  (List.range 4 ×ˢ List.range 8).find? fun p =>
    decide (ReedSolomon.distance (formatBits (formatWord p.1 p.2)) bits ≤ 3)

/-- Whether a mask changes the colour of the module in row `i` and column `j`. -/
def maskCondition (mask i j : ℕ) : Bool :=
  match mask with
  | 0 => (i + j) % 2 == 0
  | 1 => i % 2 == 0
  | 2 => j % 3 == 0
  | 3 => (i + j) % 3 == 0
  | 4 => (i / 2 + j / 3) % 2 == 0
  | 5 => i * j % 2 + i * j % 3 == 0
  | 6 => (i * j % 2 + i * j % 3) % 2 == 0
  | 7 => ((i + j) % 2 + i * j % 3) % 2 == 0
  | _ => false

/-! ### Blocks -/

/-- For the level L, the codewords for error correction in a block, and the data codewords of each
block. -/
def blockTable : ℕ → ℕ × List ℕ
  | 1 => (7, [19])
  | 2 => (10, [34])
  | 3 => (15, [55])
  | 4 => (20, [80])
  | 5 => (26, [108])
  | 6 => (18, [68, 68])
  | 7 => (20, [78, 78])
  | 8 => (24, [97, 97])
  | 9 => (30, [116, 116])
  | 10 => (18, [68, 68, 69, 69])
  | 11 => (20, [81, 81, 81, 81])
  | _ => (0, [])

/-- The codewords are dealt out in turn: the first ones of all blocks, the second ones, and so on.
Each is named by its block and its place in it. -/
def dealing (lens : List ℕ) : List (ℕ × ℕ) :=
  (List.range (lens.foldl max 0)).flatMap fun i =>
    ((List.range lens.length).filter fun b => decide (i < lens.getD b 0)).map fun b => (b, i)

/-- The codewords of one block, picked from those that were dealt out. -/
def blockOf {α : Type*} (lens : List ℕ) (stream : List α) (b : ℕ) : List α :=
  ((dealing lens).zip stream).filterMap fun p => if p.1.1 = b then some p.2 else none

/-- The blocks one after the other. -/
def joinBlocks {α : Type*} (lens : List ℕ) (stream : List α) : List α :=
  (List.range lens.length).flatMap (blockOf lens stream)

/-- A block with its codewords for error correction, which were dealt out in the same way behind all
data. -/
def fullBlock {α : Type*} (ecc : ℕ) (lens : List ℕ) (stream : List α) (b : ℕ) : List α :=
  blockOf lens stream b ++
    blockOf (List.replicate lens.length ecc) (stream.drop lens.sum) b

/-! ### The segment -/

/-- The width of the number of characters, by the mode and the version. -/
def countWidth (version mode : ℕ) : ℕ :=
  match mode with
  | 1 => if version ≤ 9 then 10 else if version ≤ 26 then 12 else 14
  | 2 => if version ≤ 9 then 9 else if version ≤ 26 then 11 else 13
  | _ => if version ≤ 9 then 8 else 16

/-- A digit as a character. -/
def digit (d : ℕ) : UInt8 := UInt8.ofNat (48 + d)

/-- The characters of the alphanumeric mode, each at its value. -/
def alphabet : List UInt8 :=
  [48, 49, 50, 51, 52, 53, 54, 55, 56, 57, 65, 66, 67, 68, 69, 70, 71, 72, 73, 74, 75, 76, 77, 78,
    79, 80, 81, 82, 83, 84, 85, 86, 87, 88, 89, 90, 32, 36, 37, 42, 43, 45, 46, 47, 58]

/-- Three digits in ten bits, two in seven, one in four. -/
def readNumeric : ℕ → List Bool → Option (List UInt8)
  | 0, _ => some []
  | 1, bits => (readBits 4 bits).map fun p => [digit p.1]
  | 2, bits => (readBits 7 bits).map fun p => [digit (p.1 / 10), digit (p.1 % 10)]
  | n + 3, bits => do
    let (v, bits) ← readBits 10 bits
    let rest ← readNumeric n bits
    some (digit (v / 100) :: digit (v / 10 % 10) :: digit (v % 10) :: rest)

/-- Two characters in eleven bits, one in six. -/
def readAlphanumeric : ℕ → List Bool → Option (List UInt8)
  | 0, _ => some []
  | 1, bits => do
    let (v, _) ← readBits 6 bits
    let a ← alphabet[v]?
    some [a]
  | n + 2, bits => do
    let (v, bits) ← readBits 11 bits
    let a ← alphabet[v / 45]?
    let b ← alphabet[v % 45]?
    let rest ← readAlphanumeric n bits
    some (a :: b :: rest)

/-- As many bytes as the count says, if there are so many. -/
def readByte (n : ℕ) (bits : List Bool) : Option (List UInt8) :=
  if 8 * n ≤ bits.length then some (readBytes n bits) else none

/-- The text of a segment: the mode, the number of characters, and the characters, read as the mode
says. -/
def readSegment (version : ℕ) (bits : List Bool) : Option (List UInt8) := do
  let (mode, bits) ← readBits 4 bits
  let (n, bits) ← readBits (countWidth version mode) bits
  match mode with
  | 1 => readNumeric n bits
  | 2 => readAlphanumeric n bits
  | 4 => readByte n bits
  | _ => none

/-! ### The whole symbol -/

/-- The codewords of a symbol, the mask taken off. -/
def readCodewords (version mask : ℕ) (module : Place → Bool) : List UInt8 :=
  let table := blockTable version
  readBytes (table.2.sum + table.2.length * table.1)
    ((dataPlaces version).map fun p => xor (module p) (maskCondition mask p.2 p.1))

/-- **The text in a symbol**: the version by its size, the level and the mask by the first copy of
the format information, the codewords, and the segment in the data. Nothing is corrected but the
format information. -/
def read (size : ℕ) (module : Place → Bool) : Option (List UInt8) := do
  let version := versionOf size
  let (level, mask) ← readFormat (formatPlaces.map module)
  if level = 1 then
    readSegment version
      (bitsOfBytes (joinBlocks (blockTable version).2 (readCodewords version mask module)))
  else none

end Reader

end Qr

end TollGate
