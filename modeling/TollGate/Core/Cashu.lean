import TollGate.Lib.CJson

/-!
# Cashu tokens

`tollgate_core_cashu.c`: decoding a V3 token (`decodeToken`), reading the mint's
answer about its proofs (`checkProofStates`), and the price arithmetic
(`calculateAllotment`).

Two libraries decide what a text means, mbedTLS for base64 and cJSON for JSON. They
are the parameters of a `Codec`; nothing here depends on how they work. A decoded
token has between one and ten proofs (`Token`), and its value is the sum of their
amounts in 64-bit arithmetic.
-/

namespace TollGate

namespace Cashu

open CJson

/-- The libraries that read a token's text. -/
structure Codec where
  /-- `mbedtls_base64_decode` into a buffer of the given size; `none` is an error. -/
  base64Decode : List UInt8 → ℕ → Option (List UInt8)
  /-- `cJSON_Parse`. -/
  parse : CStr → Option Json

/-- `TG_CASHU_MAX_PROOFS`. -/
abbrev maxProofs : ℕ := 10

/-- `tg_cashu_proof_t`. -/
structure Proof where
  amount : UInt64
  id : CStr
  secret : CStr
  c : CStr
deriving DecidableEq

/-- `tg_cashu_token_t` as `tollgate_core_cashu_decode_token` fills it. -/
structure Token where
  proofs : List Proof
  mintUrl : CStr
  proofs_ne : proofs ≠ []
  length_le : proofs.length ≤ maxProofs

/-- `total_amount`. -/
def Token.totalAmount (t : Token) : UInt64 := (t.proofs.map Proof.amount).sum

/-! ### Decoding -/

/-- A byte buffer read as a C string. -/
def asCStr (bytes : List UInt8) : CStr := bytes.takeWhile (· ≠ 0)

/-- The standard base64 letter for a URL-safe one. -/
def b64Letter (b : UInt8) : UInt8 :=
  if b = 45 then 43 else if b = 95 then 47 else b

/-- `b64url_decode`. -/
def b64urlDecode (codec : Codec) (input : List UInt8) (outSize : ℕ) : Option (List UInt8) :=
  let pad := (4 - input.length % 4) % 4
  codec.base64Decode (input.map b64Letter ++ List.replicate pad 61) outSize

/-- `if (item && cJSON_IsString(item)) strncpy(field, item->valuestring, size - 1)`
into a zeroed field. -/
def stringField (j : Json) (name : String) (size : ℕ) : CStr :=
  match (j.getObjectItemCaseSensitive name).bind Json.asString with
  | some s => CStr.strncpy size s
  | none => []

/-- One turn of the loop of `parse_proofs_array`. -/
def parseProof (j : Json) : Option Proof :=
  match (j.getObjectItemCaseSensitive "amount").bind Json.asNumber with
  | none => none
  | some n => some ⟨n.valueUInt64, stringField j "id" 68, stringField j "secret" 128,
      stringField j "C" 128⟩

/-- The loop of `parse_proofs_array`: it fails at the first proof without an amount. -/
def parseProofs : List Json → Option (List Proof)
  | [] => some []
  | j :: js =>
    match parseProof j with
    | none => none
    | some p => (parseProofs js).map fun ps => p :: ps

/-- `parse_proofs_array`. -/
def parseProofsArray (arr : Json) : Option (List Proof) :=
  match arr.asArray with
  | none => none
  | some items => if items.length > maxProofs then none else parseProofs items

theorem length_parseProofs {items : List Json} {proofs : List Proof}
    (h : parseProofs items = some proofs) : proofs.length = items.length := by
  -- every turn of the loop that does not fail adds one proof
  induction items generalizing proofs with
  | nil =>
    obtain rfl : [] = proofs := Option.some.inj h
    rfl
  | cons j js ih =>
    unfold parseProofs at h
    split at h
    · exact absurd h (Option.some_ne_none proofs).symm
    · obtain ⟨ps, hps, rfl⟩ := Option.map_eq_some_iff.mp h
      rw [List.length_cons, List.length_cons, ih hps]

theorem length_parseProofsArray {arr : Json} {proofs : List Proof}
    (h : parseProofsArray arr = some proofs) : proofs.length ≤ maxProofs := by
  unfold parseProofsArray at h
  split at h
  · exact absurd h (Option.some_ne_none proofs).symm
  · split at h
    · exact absurd h (Option.some_ne_none proofs).symm
    · next hlen =>
      rw [length_parseProofs h]
      exact Nat.le_of_not_lt hlen

/-- The object that holds the mint and the proofs: the first entry of `token` if
that is an array, else the root. -/
def tokenHolder (root : Json) : Option Json :=
  match (root.getObjectItemCaseSensitive "token").bind Json.asArray with
  | some items => items.head?
  | none => some root

/-- The mint and the proofs of a parsed token. -/
def readToken (root : Json) : Option Token :=
  match tokenHolder root with
  | none => none
  | some holder =>
    match holder.getObjectItemCaseSensitive "proofs" with
    | none => none
    | some arr =>
      match h : parseProofsArray arr with
      | none => none
      | some proofs =>
        if hne : proofs ≠ [] then
          some ⟨proofs, stringField holder "mint" 256, hne, length_parseProofsArray h⟩
        else none

/-- The text up to the first line end. -/
def firstLine (text : CStr) : CStr := text.takeWhile fun b => b ≠ 10 ∧ b ≠ 13

/-- `tollgate_core_cashu_decode_token`. -/
def decodeToken (codec : Codec) (text : CStr) : Option Token :=
  let line := firstLine text
  if line.length ≤ 6 then none
  else if text.take 6 ≠ cstr "cashuA" then none
  else
    let b64 := line.drop 6
    match b64urlDecode codec b64 (b64.length * 3 / 4 + 3) with
    | none => none
    | some json =>
      match codec.parse (asCStr json) with
      | none => none
      | some root => readToken root

/-! ### The state of the proofs -/

/-- What the HTTP client got of `POST <mint>/v1/checkstate`: the status and the body,
or nothing. -/
abbrev HttpReply := Option (ℤ × List UInt8)

/-- Whether one entry of `states` says `SPENT`. -/
def stateSpent (item : Option Json) : Bool :=
  match item.bind fun s => (s.getObjectItemCaseSensitive "state").bind Json.asString with
  | some state => state = cstr "SPENT"
  | none => false

/-- `tollgate_core_cashu_check_proof_states`: the `spent` flag of each proof. A proof
without an entry counts as unspent. -/
def checkProofStates (codec : Codec) (reply : HttpReply) (token : Token) :
    Option (List Bool) :=
  match reply with
  | none => none
  | some (status, body) =>
    if status ≠ 200 ∨ body = [] then none
    else
      match codec.parse (asCStr (body.take 8191)) with
      | none => none
      | some root =>
        match (root.getObjectItemCaseSensitive "states").bind Json.asArray with
        | none => none
        | some items =>
          some ((List.range token.proofs.length).map fun i => stateSpent items[i]?)

/-! ### Price and mint -/

/-- `tollgate_core_cashu_calculate_allotment`. -/
def calculateAllotment (tokenAmount pricePerStep stepSize : UInt64) : UInt64 :=
  if pricePerStep = 0 then 0 else tokenAmount / pricePerStep * stepSize

/-- `tollgate_core_cashu_is_mint_accepted`. -/
def isMintAccepted (mintUrl acceptedMintUrl : CStr) : Bool :=
  if mintUrl = [] then false
  else if acceptedMintUrl = [] then false
  else mintUrl = acceptedMintUrl

theorem isMintAccepted_iff {mint accepted : CStr} :
    isMintAccepted mint accepted = true ↔ mint ≠ [] ∧ mint = accepted := by
  unfold isMintAccepted
  split
  · next h => simp [h]
  · next h =>
    split
    · next h' => simp [h, h']
    · simp [h]

end Cashu

end TollGate
