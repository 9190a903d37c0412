import TollGate.Lib.CJson
import TollGate.Relay.Storage

/-!
# Events and their validation

An event is a JSON object with an id, a key, a time, a kind, tags, a content and a
signature. `relay_validator.c` prints the array of all but the id and the signature,
compares its SHA-256 with the id and verifies the signature of the id.

`Event` is an event as NIP-01 has it, `Event.Written` says that a JSON object is one and
`Authentic` that its id and signature are right. The validator reads with `cJSON` and
`sscanf` and lets a missing or mistyped field pass in places; on objects that are events
it decides `Authentic` (`relayValidatorVerifyEvent_iff`).
-/

namespace TollGate

namespace Relay

open CStr CJson

/-- What the relay uses and does not contain: `cJSON`, the memory behind a string, and the
two given functions. -/
structure Platform where
  parse : CStr → Option Json
  print : Json → CStr
  heap : CStr → List UInt8
  sha256 : CStr → Vector UInt8 32
  schnorrVerify : Vector UInt8 32 → Vector UInt8 32 → Vector UInt8 64 → Bool

/-! ### The validator -/

/-- A pointer is followed. -/
def deref {α : Type} : Option α → Except Fault α
  | some a => .ok a
  | none => .error .nullPointer

/-- `cJSON_AddItemToArray(a, cJSON_CreateString(item->valuestring))`: what is added. -/
def createString (item : Json) : List Json := (item.asString.map Json.string).toList

/-- The array that `serialize_event_for_id` prints. -/
def serialArray (obj : Json) : Except Fault Json := do
  let pubkey ← deref (obj.getObjectItem "pubkey")
  let createdAt ← deref (obj.getObjectItem "created_at")
  let kind ← deref (obj.getObjectItem "kind")
  let content ← deref (obj.getObjectItem "content")
  -- a key or content that is no string adds nothing, and neither do tags that are missing
  return .array ([.number (.ofInt 0)] ++ createString pubkey ++ [.number createdAt.toNumber] ++
    [.number (.ofInt kind.valueint)] ++ (obj.getObjectItem "tags").toList ++ createString content)

/-- `serialize_event_for_id`. -/
def serializeEventForId (p : Platform) (json : CStr) : Except Fault (Option CStr) :=
  match p.parse json with
  | none => .ok none
  | some obj => (serialArray obj).map fun serial => some (p.print serial)

/-- `verify_event_id`. -/
def verifyEventId (p : Platform) (json : CStr) (expected : Vector UInt8 32) :
    Except Fault Bool := do
  match ← serializeEventForId p json with
  | none => return false
  | some serialized => return p.sha256 serialized = expected

/-- `strlen(item->valuestring) == n`, with the string. -/
def stringOfLength (n : ℕ) (item : Json) : Except Fault (Option CStr) :=
  (deref item.asString).map fun s => if s.length = n then some s else none

/-- The bytes of the id, the key and the signature, once their lengths were found right. -/
def verifyFields (p : Platform) (json idHex pkHex sigHex : CStr) : Except Fault Bool :=
  match hexBytes 32 p.heap idHex, hexBytes 32 p.heap pkHex, hexBytes 64 p.heap sigHex with
  | some eventId, some pubkey, some sig =>
    (verifyEventId p json eventId).map fun same => same && p.schnorrVerify pubkey eventId sig
  | _, _, _ => .ok false

/-- `relay_validator_verify_event`. -/
def relayValidatorVerifyEvent (p : Platform) (json : CStr) : Except Fault Bool :=
  match p.parse json with
  | none => .ok false
  | some obj =>
    match obj.getObjectItem "id", obj.getObjectItem "pubkey", obj.getObjectItem "sig" with
    | some idItem, some pkItem, some sigItem => do
      let some idHex ← stringOfLength 64 idItem | return false
      let some pkHex ← stringOfLength 64 pkItem | return false
      let some sigHex ← stringOfLength 128 sigItem | return false
      verifyFields p json idHex pkHex sigHex
    | _, _, _ => .ok false

/-! ### Events of NIP-01 -/

/-- An event. -/
structure Event where
  id : Vector UInt8 32
  pubkey : Vector UInt8 32
  createdAt : Number
  kind : Int32
  tags : List Json
  content : CStr
  sig : Vector UInt8 64

/-- The object has the fields of the event. -/
structure Event.Written (e : Event) (obj : Json) : Prop where
  id : obj.getObjectItem "id" = some (.string (hexText e.id.toList))
  pubkey : obj.getObjectItem "pubkey" = some (.string (hexText e.pubkey.toList))
  createdAt : obj.getObjectItem "created_at" = some (.number e.createdAt)
  kind : obj.getObjectItem "kind" = some (.number (.ofInt e.kind))
  tags : obj.getObjectItem "tags" = some (.array e.tags)
  content : obj.getObjectItem "content" = some (.string e.content)
  sig : obj.getObjectItem "sig" = some (.string (hexText e.sig.toList))

/-- The object of an event. -/
def Event.tree (e : Event) : Json :=
  .object [(cstr "id", .string (hexText e.id.toList)),
    (cstr "pubkey", .string (hexText e.pubkey.toList)), (cstr "created_at", .number e.createdAt),
    (cstr "kind", .number (.ofInt e.kind)), (cstr "tags", .array e.tags),
    (cstr "content", .string e.content), (cstr "sig", .string (hexText e.sig.toList))]

/-- The serialisation whose hash is the id: `[0, pubkey, created_at, kind, tags, content]`. -/
def Event.serialisation (e : Event) : Json :=
  .array [.number (.ofInt 0), .string (hexText e.pubkey.toList), .number e.createdAt,
    .number (.ofInt e.kind), .array e.tags, .string e.content]

/-- The object is an event whose id is the hash of its serialisation and whose signature
verifies for its key and id. -/
def Authentic (p : Platform) (obj : Json) : Prop :=
  ∃ e : Event, e.Written obj ∧ p.sha256 (p.print e.serialisation) = e.id ∧
    p.schnorrVerify e.pubkey e.id e.sig = true

theorem Event.written_tree (e : Event) : e.Written e.tree := by
  refine ⟨?_, ?_, ?_, ?_, ?_, ?_, ?_⟩ <;> rfl

/-! ### The validator on events -/

/-- The digits of `%02x` are no blanks and no signs. -/
theorem digit_facts {d : ℕ} (h : d < 16) :
    isSpace (digit d) = false ∧ digit d ≠ 43 ∧ digit d ≠ 45 ∧ isDigit 16 (digit d) = true ∧
      hexDigit (digit d) = UInt8.ofNat d := by
  -- sixteen cases
  revert d
  decide

theorem scanHexByte_hexPadded (b : UInt8) (rest : List UInt8) :
    scanHexByte (hexPadded 2 b.toNat ++ rest) = some b := by
  have hb := b.toNat_lt
  have hhigh : b.toNat / 16 % 16 < 16 := Nat.mod_lt _ (by omega)
  have hlow : b.toNat % 16 < 16 := Nat.mod_lt _ (by omega)
  obtain ⟨hblank, hplus, hminus, hhex, hvalue⟩ := digit_facts hhigh
  obtain ⟨-, -, -, hhex', hvalue'⟩ := digit_facts hlow
  have htext : hexPadded 2 b.toNat ++ rest =
      digit (b.toNat / 16 % 16) :: digit (b.toNat % 16) :: rest := rfl
  have hbyte : 16 * UInt8.ofNat (b.toNat / 16 % 16) + UInt8.ofNat (b.toNat % 16) = b := by
    have hsixteen : (16 : UInt8).toNat = 16 := rfl
    rw [← UInt8.toNat_inj]
    simp only [UInt8.toNat_add, UInt8.toNat_mul, UInt8.toNat_ofNat', hsixteen]
    omega
  rw [htext, scanHexByte, List.dropWhile_cons_of_neg (by simp [hblank])]
  simp [hplus, hminus, hhex, hhex', hvalue, hvalue', hbyte]

/-- Printed bytes are read back, whatever stands behind them. -/
theorem hexLoop_hexText (bytes rest : List UInt8) :
    hexLoop bytes.length (hexText bytes ++ rest) = (bytes, true) := by
  induction bytes with
  | nil => rfl
  | cons b bytes ih =>
    -- the loop takes the two digits of this byte and goes on behind them
    have hcons : hexText (b :: bytes) ++ rest = hexPadded 2 b.toNat ++ (hexText bytes ++ rest) := by
      rw [hexText, List.flatMap_cons, List.append_assoc]
      rfl
    have hdrop : (hexPadded 2 b.toNat ++ (hexText bytes ++ rest)).drop 2 = hexText bytes ++ rest :=
      List.drop_left' (length_hexPadded 2 _)
    rw [hcons, List.length_cons, hexLoop, scanHexByte_hexPadded]
    simp only [hdrop, ih]

theorem zeroField_toList {n : ℕ} (v : Vector UInt8 n) : zeroField n v.toList = v := by
  ext i hi
  simp [zeroField]

theorem hexBytes_hexText {n : ℕ} (heap : CStr → List UInt8) (v : Vector UInt8 n) :
    hexBytes n heap (hexText v.toList) = some v := by
  have hloop : hexLoop n (hexText v.toList ++ 0 :: heap (hexText v.toList)) = (v.toList, true) := by
    have h := hexLoop_hexText v.toList (0 :: heap (hexText v.toList))
    rwa [Vector.length_toList] at h
  simp only [hexBytes, relayHexToBytes, memory, ne_eq, not_true_eq_false, if_false, hloop,
    if_true, zeroField_toList]

/-- Two ids with the same digits are the same id. -/
theorem hexText_injective (n : ℕ) :
    Function.Injective fun v : Vector UInt8 n => hexText v.toList := by
  intro v w heq
  have hbytes := hexBytes_hexText (fun _ => []) v
  rw [show hexText v.toList = hexText w.toList from heq, hexBytes_hexText] at hbytes
  exact (Option.some.inj hbytes).symm

theorem stringOfLength_hexText {n : ℕ} (v : Vector UInt8 n) :
    stringOfLength (2 * n) (.string (hexText v.toList)) = .ok (some (hexText v.toList)) := by
  have hlength : (hexText v.toList).length = 2 * n := by
    rw [length_hexText, Vector.length_toList]
  simp [stringOfLength, Json.asString, deref, Except.map, hlength]

theorem serialArray_of_written {e : Event} {obj : Json} (h : e.Written obj) :
    serialArray obj = .ok e.serialisation := by
  unfold serialArray
  rw [h.pubkey, h.createdAt, h.kind, h.content, h.tags]
  rfl

/-- What the validator says of an event. -/
theorem relayValidatorVerifyEvent_of_written {p : Platform} {json : CStr} {obj : Json} {e : Event}
    (hparse : p.parse json = some obj) (h : e.Written obj) :
    relayValidatorVerifyEvent p json =
      .ok (p.sha256 (p.print e.serialisation) = e.id &&
        p.schnorrVerify e.pubkey e.id e.sig) := by
  -- the three fields are read back as the bytes they were printed from
  have hfields : verifyFields p json (hexText e.id.toList) (hexText e.pubkey.toList)
      (hexText e.sig.toList) = .ok (p.sha256 (p.print e.serialisation) = e.id &&
        p.schnorrVerify e.pubkey e.id e.sig) := by
    unfold verifyFields
    rw [hexBytes_hexText, hexBytes_hexText, hexBytes_hexText]
    simp only [verifyEventId, serializeEventForId, hparse, serialArray_of_written h]
    rfl
  unfold relayValidatorVerifyEvent
  rw [hparse]
  simp only [h.id, h.pubkey, h.sig, stringOfLength_hexText (n := 32),
    stringOfLength_hexText (n := 64)]
  exact hfields

/-- **The validator decides authenticity of events.** -/
theorem relayValidatorVerifyEvent_iff {p : Platform} {json : CStr} {obj : Json} {e : Event}
    (hparse : p.parse json = some obj) (h : e.Written obj) :
    relayValidatorVerifyEvent p json = .ok true ↔ Authentic p obj := by
  refine ⟨?_, ?_⟩
  · intro hok
    rw [relayValidatorVerifyEvent_of_written hparse h, Except.ok.injEq, Bool.and_eq_true,
      decide_eq_true_eq] at hok
    exact ⟨e, h, hok⟩
  · -- the event of the object need not be given by the same record
    rintro ⟨e', h', hid, hsig⟩
    rw [relayValidatorVerifyEvent_of_written hparse h', hsig, Bool.and_true, decide_eq_true hid]

/-! ### Samples -/

/-- `cJSON` on some texts. No hash is an id, and no signature is one. -/
def textPlatform (texts : List (CStr × Json)) : Platform where
  parse text := (texts.find? fun t => t.1 = text).map Prod.snd
  print := fun _ => []
  heap := fun _ => []
  sha256 := fun _ => Vector.replicate 32 0
  schnorrVerify := fun _ _ _ => false

/-- The text of an event of the time 5, whose tags and content are written like this. -/
def sampleText (e : Event) (tags content : CStr) : CStr :=
  cstr "\x7b\"id\":\"" ++ hexText e.id.toList ++ cstr "\",\"pubkey\":\"" ++
    hexText e.pubkey.toList ++ cstr "\",\"created_at\":5,\"kind\":" ++
    decimal e.kind.toNatClampNeg ++ cstr ",\"tags\":" ++ tags ++
    cstr ",\"content\":\"" ++ content ++ cstr "\",\"sig\":\"" ++ hexText e.sig.toList ++
    cstr "\"\x7d"

/-- An event of kind 7. -/
def reaction : Event :=
  ⟨Vector.replicate 32 1, Vector.replicate 32 2, .ofInt 5, 7, [], [], Vector.replicate 64 3⟩

/-- Its text. -/
def reactionText : CStr := sampleText reaction (cstr "[]") []

/-- A store with that event. -/
def reactionStore : Engine :=
  ((Engine.empty 5000 3600).saveEventJson (fun _ => []) 10 true reactionText).1

end Relay

end TollGate
