import TollGate.Relay.Event

/-!
# Events that the device signs

`nostr_event.c`: `nostr_event_init` fills an event in and hashes its serialisation,
`nostr_event_sign` signs the hash and `nostr_event_to_json` prints the event. The
serialisation is built from the fields of the struct, while the validator of the relay
builds it from the parsed text; `signed_event_valid` says that the two agree.

The curve library is a parameter, and so is the clock.
-/

namespace TollGate

namespace Relay

open CStr CJson

/-- `nostr_event_t`. -/
structure NostrEvent where
  pubkey : CStr
  createdAt : UInt64
  kind : Int32
  tagsJson : CStr
  content : CStr
  id : CStr
  sig : CStr

/-- The functions of `secp256k1` that sign. -/
structure Curve where
  contextCreate : Bool
  keypairCreate : Vector UInt8 32 → Option (Vector UInt8 96)
  schnorrsigSign32 : Vector UInt8 96 → Vector UInt8 32 → Option (Vector UInt8 64)

/-- The errors of `nostr_event_sign` and `nostr_event_to_json`. -/
inductive EventError where
  | noMem
  | invalidArg
  | fail
deriving DecidableEq

/-! ### The source operations -/

/-- The array that `nostr_event_init` prints. Tags that do not parse add nothing. -/
def NostrEvent.serial (p : Platform) (event : NostrEvent) : Json :=
  .array ([.number (.ofInt 0), .string event.pubkey, .number (.ofUInt64 event.createdAt),
    .number (.ofInt event.kind)] ++ (p.parse event.tagsJson).toList ++ [.string event.content])

/-- `nostr_event_init` at the time `tvSec`. -/
def nostrEventInit (p : Platform) (tvSec : Int64) (npubHex : CStr) (kind : Int32)
    (tagsJson content : Option CStr) : NostrEvent :=
  let event : NostrEvent :=
    { pubkey := strncpy 65 npubHex
      createdAt := tvSec.toUInt64
      kind := kind
      tagsJson := tagsJson.getD (cstr "[]")
      content := content.getD []
      id := []
      sig := [] }
  { event with id := hexText (p.sha256 (p.print (event.serial p))).toList }

/-- `nostr_event_sign`. The digits of the id are read by `sscanf` without a look at what it
returns. -/
def nostrEventSign (p : Platform) (c : Curve) (event : NostrEvent) (nsec : Vector UInt8 32) :
    Except EventError NostrEvent :=
  let msg := zeroField 32 (hexLoop 32 (memory p.heap event.id)).1
  if !c.contextCreate then .error .noMem
  else match c.keypairCreate nsec with
    | none => .error .invalidArg
    | some keypair =>
      match c.schnorrsigSign32 keypair msg with
      | none => .error .fail
      | some sig => .ok { event with sig := hexText sig.toList }

/-- The object that `nostr_event_to_json` prints. -/
def NostrEvent.root (p : Platform) (event : NostrEvent) : Json :=
  .object ([(cstr "id", .string event.id), (cstr "pubkey", .string event.pubkey),
    (cstr "created_at", .number (.ofUInt64 event.createdAt)),
    (cstr "kind", .number (.ofInt event.kind))] ++
    ((p.parse event.tagsJson).map fun tags => (cstr "tags", tags)).toList ++
    [(cstr "content", .string event.content), (cstr "sig", .string event.sig)])

/-- `nostr_event_to_json`: what is written to a buffer of `bufLen` bytes. -/
def nostrEventToJson (p : Platform) (event : NostrEvent) (bufLen : ℕ) : Except EventError CStr :=
  let json := p.print (event.root p)
  if json.length ≥ bufLen then .error .noMem else .ok json

/-! ### The event that was signed -/

/-- The bytes of printed digits are read back. -/
theorem zeroField_hexLoop {n : ℕ} (heap : CStr → List UInt8) (v : Vector UInt8 n) :
    zeroField n (hexLoop n (memory heap (hexText v.toList))).1 = v := by
  have hloop := hexLoop_hexText v.toList (0 :: heap (hexText v.toList))
  rw [Vector.length_toList] at hloop
  rw [memory, hloop]
  exact zeroField_toList v

section Signed

variable (p : Platform) (tvSec : Int64) (pubkey : Vector UInt8 32) (kind : Int32)
  (tagsJson content : Option CStr)

/-- The struct that `nostr_event_init` fills in for a key. -/
abbrev initialised : NostrEvent :=
  nostrEventInit p tvSec (hexText pubkey.toList) kind tagsJson content

/-- The hash of its serialisation. -/
def eventHash : Vector UInt8 32 :=
  p.sha256 (p.print ((initialised p tvSec pubkey kind tagsJson content).serial p))

theorem id_initialised : (initialised p tvSec pubkey kind tagsJson content).id =
    hexText (eventHash p tvSec pubkey kind tagsJson content).toList := rfl

theorem pubkey_initialised :
    (initialised p tvSec pubkey kind tagsJson content).pubkey = hexText pubkey.toList := by
  refine strncpy_of_length_lt ?_
  rw [length_hexText, Vector.length_toList]
  norm_num

/-- What is signed is the hash of the serialisation, and it is signed when the library does. -/
theorem nostrEventSign_eq_ok_iff {c : Curve} {nsec : Vector UInt8 32} {event : NostrEvent} :
    nostrEventSign p c (initialised p tvSec pubkey kind tagsJson content) nsec = .ok event ↔
      c.contextCreate = true ∧ ∃ keypair sig, c.keypairCreate nsec = some keypair ∧
        c.schnorrsigSign32 keypair (eventHash p tvSec pubkey kind tagsJson content) = some sig ∧
        event =
          { initialised p tvSec pubkey kind tagsJson content with sig := hexText sig.toList } := by
  unfold nostrEventSign
  rw [id_initialised, zeroField_hexLoop]
  dsimp only
  cases hcontext : c.contextCreate with
  | false => simp
  | true =>
    cases hkeypair : c.keypairCreate nsec with
    | none => simp
    | some keypair =>
      cases hsig : c.schnorrsigSign32 keypair (eventHash p tvSec pubkey kind tagsJson content) with
      | none => simp [hsig]
      | some sig =>
        simp [hsig, eq_comm (a := event)]
        rfl

/-- The event of NIP-01 that the struct stands for. -/
def signedEvent (tags : List Json) (sig : Vector UInt8 64) : Event where
  id := eventHash p tvSec pubkey kind tagsJson content
  pubkey := pubkey
  createdAt := .ofUInt64 tvSec.toUInt64
  kind := kind
  tags := tags
  content := content.getD []
  sig := sig

variable {p tvSec pubkey kind tagsJson content} {tags : List Json}
  (htags : p.parse (tagsJson.getD (cstr "[]")) = some (.array tags)) (sig : Vector UInt8 64)

include htags

/-- The two serialisations agree. -/
theorem serial_initialised : (initialised p tvSec pubkey kind tagsJson content).serial p =
    (signedEvent p tvSec pubkey kind tagsJson content tags sig).serialisation := by
  have htags' : p.parse (initialised p tvSec pubkey kind tagsJson content).tagsJson =
      some (.array tags) := htags
  unfold NostrEvent.serial
  rw [htags', pubkey_initialised]
  rfl

theorem root_signed :
    ({ initialised p tvSec pubkey kind tagsJson content with
      sig := hexText sig.toList } : NostrEvent).root p =
        (signedEvent p tvSec pubkey kind tagsJson content tags sig).tree := by
  have htags' : p.parse (initialised p tvSec pubkey kind tagsJson content).tagsJson =
      some (.array tags) := htags
  unfold NostrEvent.root
  rw [htags', pubkey_initialised]
  rfl

end Signed

/-- **Signed events are valid.** For every key pair for which the library verifies what it
signs, and every kind, content, time and text of an array of tags: what `nostr_event_to_json`
writes of the signed event to a buffer that is large enough is accepted by the validator, if
`cJSON` parses the object that it printed as that object. -/
theorem signed_event_valid (p : Platform) (c : Curve) (nsec pubkey : Vector UInt8 32)
    (keypair : Vector UInt8 96) (hkeypair : c.keypairCreate nsec = some keypair)
    (hverifies : ∀ msg sig, c.schnorrsigSign32 keypair msg = some sig →
      p.schnorrVerify pubkey msg sig = true)
    (tvSec : Int64) (kind : Int32) (tagsJson content : Option CStr) (tags : List Json)
    (htags : p.parse (tagsJson.getD (cstr "[]")) = some (.array tags)) (event : NostrEvent)
    (hevent : nostrEventSign p c
      (nostrEventInit p tvSec (hexText pubkey.toList) kind tagsJson content) nsec = .ok event)
    (bufLen : ℕ) (hroom : (p.print (event.root p)).length < bufLen)
    (hparse : p.parse (p.print (event.root p)) = some (event.root p)) :
    ∃ json, nostrEventToJson p event bufLen = .ok json ∧
      relayValidatorVerifyEvent p json = .ok true := by
  obtain ⟨-, keypair', sig, hkeypair', hsig, rfl⟩ :=
    (nostrEventSign_eq_ok_iff p tvSec pubkey kind tagsJson content).mp hevent
  obtain rfl : keypair = keypair' := Option.some.inj (hkeypair.symm.trans hkeypair')
  refine ⟨_, if_neg (Nat.not_le.mpr hroom), ?_⟩
  -- the text is that of an event, and its two checks are those of the hash and the signature
  rw [root_signed htags sig] at hparse ⊢
  rw [relayValidatorVerifyEvent_of_written hparse (Event.written_tree _),
    ← serial_initialised htags sig, Except.ok.injEq, Bool.and_eq_true]
  exact ⟨decide_eq_true rfl, hverifies _ _ hsig⟩

/-! ### A signed event -/

/-- Bytes from their digits. -/
def fromHex (n : ℕ) (digits : String) : Vector UInt8 n := zeroField n (hexLoop n (cstr digits)).1

/-- An event of the key 3. -/
def greeting : Event where
  id := fromHex 32 "5bc2e82b32438327efac94f931f1205e7ce922cc9c6c70439f044c2ccb1738d5"
  pubkey := fromHex 32 "f9308a019258c31049344f85f89d5229b531c845836f99b08601f113bce036f9"
  createdAt := .ofUInt64 5
  kind := 1
  tags := [.array [.string (cstr "t"), .string (cstr "a")]]
  content := cstr "hi"
  sig := fromHex 64 ("b0a5709ddf6a49891a20f687daa648e1d5680de1799497bdf9ea49c3d93bcc50" ++
    "334b4f669511cc779e0910e4bdb43c1aaaa9ad3c9aaec43769eb387d360dc79a")

/-- Its tags. -/
def greetingTags : CStr := cstr "[[\"t\",\"a\"]]"

/-- Its text. -/
def greetingText : CStr := sampleText greeting greetingTags (cstr "hi")

/-- Its serialisation. -/
def greetingSerial : CStr :=
  cstr "[0,\"" ++ hexText greeting.pubkey.toList ++ cstr "\",5,1," ++ greetingTags ++
    cstr ",\"hi\"]"

/-- The libraries on this event. -/
def greetingPlatform : Platform where
  parse text := if text = greetingTags then some (.array greeting.tags)
    else if text = greetingText then some greeting.tree else none
  print
    | .object _ => greetingText
    | _ => greetingSerial
  heap := fun _ => []
  sha256 text := if text = greetingSerial then greeting.id else Vector.replicate 32 0
  schnorrVerify pubkey msg sig := pubkey = greeting.pubkey ∧ msg = greeting.id ∧ sig = greeting.sig

/-- Its secret key. -/
def greetingKey : Vector UInt8 32 := zeroField 32 (List.replicate 31 0 ++ [3])

/-- The curve on this event. -/
def greetingCurve : Curve where
  contextCreate := true
  keypairCreate nsec := some (zeroField 96 nsec.toList)
  schnorrsigSign32 keypair msg :=
    if keypair = zeroField 96 greetingKey.toList ∧ msg = greeting.id then
      some greeting.sig
    else none

/-- The struct of the event. -/
def greetingStruct : NostrEvent :=
  { nostrEventInit greetingPlatform 5 (hexText greeting.pubkey.toList) 1 (some greetingTags)
      (some (cstr "hi")) with
    sig := hexText greeting.sig.toList }

theorem eventHash_greeting :
    eventHash greetingPlatform 5 greeting.pubkey 1 (some greetingTags) (some (cstr "hi")) =
      greeting.id := by
  have hprint : greetingPlatform.print ((initialised greetingPlatform 5 greeting.pubkey 1
      (some greetingTags) (some (cstr "hi"))).serial greetingPlatform) = greetingSerial := rfl
  rw [eventHash, hprint]
  simp [greetingPlatform]

theorem signed_event_valid_greeting :
    ∃ json, nostrEventToJson greetingPlatform greetingStruct 1024 = .ok json ∧
      relayValidatorVerifyEvent greetingPlatform json = .ok true := by
  have htags : greetingPlatform.parse greetingTags = some (.array greeting.tags) := by
    simp [greetingPlatform]
  have hroot : greetingStruct.root greetingPlatform = greeting.tree := by
    refine (root_signed htags greeting.sig).trans (congrArg Event.tree ?_)
    unfold signedEvent
    rw [eventHash_greeting]
    rfl
  have hprint : greetingPlatform.print greeting.tree = greetingText := rfl
  have hother : greetingText ≠ greetingTags := by decide
  have hparse : greetingPlatform.parse greetingText = some greeting.tree := by
    simp [greetingPlatform, hother]
  have hlength : greetingText.length < 1024 := by decide +kernel
  refine signed_event_valid greetingPlatform greetingCurve greetingKey greeting.pubkey
    (zeroField 96 greetingKey.toList) rfl ?_ 5 1 (some greetingTags) (some (cstr "hi"))
    greeting.tags htags greetingStruct ?_ 1024 ?_ ?_
  · -- the curve signs this hash only
    intro msg sig hsig
    obtain ⟨⟨-, rfl⟩, hsig⟩ := Option.ite_none_right_eq_some.mp hsig
    exact decide_eq_true ⟨rfl, rfl, (Option.some.inj hsig).symm⟩
  · refine (nostrEventSign_eq_ok_iff _ _ _ _ _ _).mpr ⟨rfl, _, greeting.sig, rfl, ?_, rfl⟩
    rw [eventHash_greeting]
    simp [greetingCurve]
  · rw [hroot, hprint]
    exact hlength
  · rw [hroot, hprint]
    exact hparse

end Relay

end TollGate
