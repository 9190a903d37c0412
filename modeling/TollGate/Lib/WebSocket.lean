import TollGate.Lib.ByteOrder

/-!
# WebSocket frames

A frame is a byte with its kind, the length of its payload in one of three forms, a mask of
four bytes if the frame goes to a server, and the payload, masked or not.
-/

namespace WebSocket

/-- The length of a payload, in the shortest of the three forms, with the mask bit. -/
def lengthField (maskBit : UInt8) (n : ℕ) : List UInt8 :=
  if n ≤ 125 then [maskBit ||| UInt8.ofNat n]
  else if n ≤ 65535 then (maskBit ||| 126) :: beBytes 2 n
  else (maskBit ||| 127) :: beBytes 8 n

/-- The payload with the mask over it. -/
def applyMask (mask : Vector UInt8 4) (payload : List UInt8) : List UInt8 :=
  payload.mapIdx fun i b => b ^^^ mask.toList.getD (i % 4) 0

/-- The mask bit. -/
def maskBit : Option (Vector UInt8 4) → UInt8
  | none => 0
  | some _ => 0x80

/-- What stands before the payload. -/
def header (first : UInt8) (mask : Option (Vector UInt8 4)) (n : ℕ) : List UInt8 :=
  first :: lengthField (maskBit mask) n

/-- A frame. -/
def encode (first : UInt8) (mask : Option (Vector UInt8 4)) (payload : List UInt8) : List UInt8 :=
  header first mask payload.length ++
    match mask with
    | none => payload
    | some m => m.toList ++ applyMask m payload

@[simp] theorem length_applyMask (mask : Vector UInt8 4) (payload : List UInt8) :
    (applyMask mask payload).length = payload.length :=
  List.length_mapIdx

/-- A mask is taken off as it is put on. -/
@[simp] theorem applyMask_applyMask (mask : Vector UInt8 4) (payload : List UInt8) :
    applyMask mask (applyMask mask payload) = payload := by
  refine List.ext_getElem (by simp) fun i _ _ => ?_
  simp [applyMask]

theorem length_header (first : UInt8) (mask : Option (Vector UInt8 4)) (n : ℕ) :
    (header first mask n).length = if n ≤ 125 then 2 else if n ≤ 65535 then 4 else 10 := by
  unfold header lengthField
  split
  · rfl
  · split
    · rfl
    · rfl

theorem length_encode (first : UInt8) (mask : Option (Vector UInt8 4)) (payload : List UInt8) :
    (encode first mask payload).length = (header first mask payload.length).length +
      (if mask.isSome then 4 else 0) + payload.length := by
  cases mask with
  | none => simp [encode]
  | some m => simp [encode, Nat.add_assoc]

/-! ### Frames in any form -/

/-- The three forms of a length. -/
inductive LengthForm where
  | short
  | word
  | quad
deriving DecidableEq

/-- The lengths that the form can tell are below this. -/
def LengthForm.bound : LengthForm → ℕ
  | .short => 126
  | .word => 2 ^ 16
  | .quad => 2 ^ 64

/-- The length in this form, with the mask bit. -/
def LengthForm.field : LengthForm → UInt8 → ℕ → List UInt8
  | .short, maskBit, n => [maskBit ||| UInt8.ofNat n]
  | .word, maskBit, n => (maskBit ||| 126) :: beBytes 2 n
  | .quad, maskBit, n => (maskBit ||| 127) :: beBytes 8 n

/-- A frame, whose length need not be in its shortest form. -/
structure Frame where
  first : UInt8
  form : LengthForm
  mask : Option (Vector UInt8 4)
  payload : List UInt8
  fits : payload.length < form.bound

/-- The mask, and the payload with it. -/
def Frame.body (f : Frame) : List UInt8 :=
  match f.mask with
  | none => f.payload
  | some m => m.toList ++ applyMask m f.payload

/-- The bytes of a frame. -/
def Frame.bytes (f : Frame) : List UInt8 :=
  f.first :: (f.form.field (maskBit f.mask) f.payload.length ++ f.body)

end WebSocket
