import TollGate.Core.Cashu
import TollGate.Lib.CText

/-!
# What a token and its mint say, and what is read of it

`decodeToken` turns a text into a token and `checkProofStates` a reply of the mint into
one flag a proof. Here both are compared with the JSON documents they read.

A V3 token is a list of entries, each with a mint and its proofs, or a bare entry
(`tokenEntries`). The decoder reads the first entry only, copies every string into a
fixed field without a look at its length, takes any number for an amount and adds the
amounts up in 64 bits. None of this makes it fail. `Cashu.decodeToken_faithful_iff` says
when nothing was lost: `Decodable`, a condition on the document. A token of two mints is
the everyday exception (`Cashu.second_entry_dropped`).

The entries of a reply each name a proof by its `Y`. The reader never looks at it: the
flag of a proof is that of the entry at its place, a missing entry, a state that is no
string and any state but `SPENT` all mean "not spent".
`Cashu.spentPerProof_iff` is the exact condition on the reply, and
`Cashu.spentPerProof_of_inOrder` the behaviour of a mint that meets it: one entry a
proof, in order, each `SPENT` or `UNSPENT`. A proof whose payment is pending passes
(`Cashu.pending_reported_unspent`).
-/

namespace TollGate

namespace Cashu

open CJson

/-! ### The document of a token -/

/-- The JSON document that the text of a token holds. -/
def tokenJson (codec : Codec) (text : CStr) : Option Json :=
  let line := firstLine text
  if line.length ≤ 6 then none
  else if text.take 6 ≠ cstr "cashuA" then none
  else
    let b64 := line.drop 6
    (b64urlDecode codec b64 (b64.length * 3 / 4 + 3)).bind fun json => codec.parse (asCStr json)

/-- The entries of a token: the members of `token`, or the document itself. -/
def tokenEntries (root : Json) : List Json :=
  match (root.getObjectItemCaseSensitive "token").bind Json.asArray with
  | some items => items
  | none => [root]

/-- The proofs of an entry. -/
def entryProofs (entry : Json) : List Json :=
  ((entry.getObjectItemCaseSensitive "proofs").bind Json.asArray).getD []

/-- The proofs of all entries. -/
def allProofs (root : Json) : List Json := (tokenEntries root).flatMap entryProofs

/-- The amount of a proof, exactly. -/
def amountOf (proof : Json) : Option ℚ :=
  ((proof.getObjectItemCaseSensitive "amount").bind Json.asNumber).map Number.valuedouble

/-- The sum of the amounts of all proofs, exactly. -/
def amountSum (root : Json) : ℚ := ((allProofs root).map fun j => (amountOf j).getD 0).sum

/-- The decoded proof `p` is the proof `j` of the document. -/
structure SameProof (j : Json) (p : Proof) : Prop where
  amount : amountOf j = some (p.amount.toNat : ℚ)
  amount_pos : 0 < p.amount.toNat
  id : j.getObjectItemCaseSensitive "id" = some (.string p.id)
  secret : j.getObjectItemCaseSensitive "secret" = some (.string p.secret)
  c : j.getObjectItemCaseSensitive "C" = some (.string p.c)

/-- The decoded token `t` is the token of the document. -/
structure Faithful (root : Json) (t : Token) : Prop where
  /-- The proofs of all entries, in order and in number. -/
  proofs : List.Forall₂ SameProof (allProofs root) t.proofs
  total : (t.totalAmount.toNat : ℚ) = amountSum root
  mint : ∀ e ∈ tokenEntries root, entryProofs e ≠ [] →
    e.getObjectItemCaseSensitive "mint" = some (.string t.mintUrl)

/-- The member is a string that a field of `size` bytes can hold. -/
def StringFits (j : Json) (name : String) (size : ℕ) : Prop :=
  ∃ s, j.getObjectItemCaseSensitive name = some (.string s) ∧ s.length < size

/-- What the decoder asks of a document without checking it. -/
structure Decodable (root : Json) : Prop where
  /-- The proofs are all in the first entry. -/
  single : ∀ e ∈ (tokenEntries root).tail, entryProofs e = []
  amounts : ∀ j ∈ allProofs root, ∃ n : ℕ, 0 < n ∧ amountOf j = some (n : ℚ)
  total : amountSum root < 2 ^ 64
  strings : ∀ j ∈ allProofs root,
    StringFits j "id" 68 ∧ StringFits j "secret" 128 ∧ StringFits j "C" 128
  mint : ∀ e ∈ tokenEntries root, entryProofs e ≠ [] → StringFits e "mint" 256

/-- The amounts of the document are cast to `uint64_t` as C casts a `double` that is in
range: towards zero. -/
def CastsExactly (root : Json) : Prop :=
  ∀ j ∈ allProofs root, ∀ n, (j.getObjectItemCaseSensitive "amount").bind Json.asNumber = some n →
    0 ≤ n.valuedouble → n.valuedouble < 2 ^ 64 → n.valueUInt64.toNat = ⌊n.valuedouble⌋₊

/-! ### What the decoder does -/

section Decoder

variable {codec : Codec} {text : CStr} {root holder j : Json} {t : Token} {p : Proof}
  {items : List Json} {proofs : List Proof}

theorem decodeToken_eq (codec : Codec) (text : CStr) :
    decodeToken codec text = (tokenJson codec text).bind readToken := by
  unfold decodeToken tokenJson
  dsimp only
  split
  · rfl
  · split
    · rfl
    · cases b64urlDecode codec _ _ with
      | none => rfl
      | some json =>
        rw [Option.bind_some]
        dsimp only
        cases codec.parse (asCStr json) <;> rfl

theorem tokenHolder_eq (root : Json) : tokenHolder root = (tokenEntries root).head? := by
  unfold tokenHolder tokenEntries
  cases (root.getObjectItemCaseSensitive "token").bind Json.asArray <;> rfl

theorem parseProofs_forall₂ (h : parseProofs items = some proofs) :
    List.Forall₂ (fun j p => parseProof j = some p) items proofs := by
  induction items generalizing proofs with
  | nil =>
    obtain rfl : [] = proofs := Option.some.inj h
    exact .nil
  | cons j js ih =>
    unfold parseProofs at h
    cases hj : parseProof j with
    | none =>
      rw [hj] at h
      cases h
    | some p =>
      rw [hj] at h
      obtain ⟨ps, hps, rfl⟩ := Option.map_eq_some_iff.mp h
      exact .cons hj (ih hps)

/-- **What a decoded token was read from**: the first entry. -/
theorem readToken_spec (h : readToken root = some t) :
    ∃ holder rest, tokenEntries root = holder :: rest ∧
      List.Forall₂ (fun j p => parseProof j = some p) (entryProofs holder) t.proofs ∧
      t.mintUrl = stringField holder "mint" 256 := by
  unfold readToken at h
  rw [tokenHolder_eq] at h
  cases hentries : tokenEntries root with
  | nil =>
    rw [hentries] at h
    exact absurd h nofun
  | cons holder rest =>
    rw [hentries, List.head?_cons] at h
    dsimp only at h
    refine ⟨holder, rest, rfl, ?_⟩
    cases harr : holder.getObjectItemCaseSensitive "proofs" with
    | none =>
      rw [harr] at h
      exact absurd h nofun
    | some arr =>
      rw [harr] at h
      dsimp only at h
      split at h
      · exact absurd h nofun
      · next proofs hproofs =>
        split at h
        · next hne =>
          obtain rfl := Option.some.inj h
          refine ⟨?_, rfl⟩
          -- the array has at most ten items, and all of them were read
          unfold parseProofsArray at hproofs
          cases hitems : arr.asArray with
          | none =>
            rw [hitems] at hproofs
            exact absurd hproofs nofun
          | some items =>
            rw [hitems] at hproofs
            dsimp only at hproofs
            split at hproofs
            · exact absurd hproofs nofun
            · have hentry : entryProofs holder = items := by
                rw [entryProofs, harr, Option.bind_some, hitems, Option.getD_some]
              rw [hentry]
              exact parseProofs_forall₂ hproofs
        · exact absurd h nofun

theorem length_stringField_lt (j : Json) (name : String) {size : ℕ} (hsize : 0 < size) :
    (stringField j name size).length < size := by
  unfold stringField
  split
  · next s _ =>
    have htake : (CStr.strncpy size s).length ≤ size - 1 := List.length_take_le _ _
    omega
  · exact hsize

theorem stringField_of_fits {name : String} {size : ℕ} (h : StringFits j name size) :
    j.getObjectItemCaseSensitive name = some (.string (stringField j name size)) := by
  obtain ⟨s, hs, hlen⟩ := h
  have hfield : stringField j name size = s := by
    rw [stringField, hs, Option.bind_some, Json.asString]
    exact CStr.strncpy_of_length_lt hlen
  rw [hfield, hs]

/-- The fields of a decoded proof. -/
theorem parseProof_spec (h : parseProof j = some p) :
    (∃ n, (j.getObjectItemCaseSensitive "amount").bind Json.asNumber = some n ∧
      p.amount = n.valueUInt64) ∧
    p.id = stringField j "id" 68 ∧ p.secret = stringField j "secret" 128 ∧
      p.c = stringField j "C" 128 := by
  unfold parseProof at h
  cases hn : (j.getObjectItemCaseSensitive "amount").bind Json.asNumber with
  | none =>
    rw [hn] at h
    exact absurd h nofun
  | some n =>
    rw [hn] at h
    obtain rfl := Option.some.inj h
    exact ⟨⟨n, rfl, rfl⟩, rfl, rfl, rfl⟩

/-- A decoded proof that is the one of the document came from strings that fit. -/
theorem SameProof.fits (h : SameProof j p) (hp : parseProof j = some p) :
    StringFits j "id" 68 ∧ StringFits j "secret" 128 ∧ StringFits j "C" 128 := by
  obtain ⟨-, hid, hsecret, hc⟩ := parseProof_spec hp
  refine ⟨⟨p.id, h.id, ?_⟩, ⟨p.secret, h.secret, ?_⟩, ⟨p.c, h.c, ?_⟩⟩
  · rw [hid]
    exact length_stringField_lt j "id" (by decide)
  · rw [hsecret]
    exact length_stringField_lt j "secret" (by decide)
  · rw [hc]
    exact length_stringField_lt j "C" (by decide)

theorem sameProof_of_parseProof (hp : parseProof j = some p)
    (hfits : StringFits j "id" 68 ∧ StringFits j "secret" 128 ∧ StringFits j "C" 128) {n : ℕ}
    (hpos : 0 < n) (hn : amountOf j = some (n : ℚ)) (hlt : n < 2 ^ 64)
    (hcast : ∀ m, (j.getObjectItemCaseSensitive "amount").bind Json.asNumber = some m →
      0 ≤ m.valuedouble → m.valuedouble < 2 ^ 64 → m.valueUInt64.toNat = ⌊m.valuedouble⌋₊) :
    SameProof j p := by
  obtain ⟨⟨m, hm, hamount⟩, hid, hsecret, hc⟩ := parseProof_spec hp
  have hval : m.valuedouble = n := by
    rw [amountOf, hm, Option.map_some] at hn
    exact Option.some.inj hn
  -- a natural number below 2^64 survives the cast
  have hexact : p.amount.toNat = n := by
    have hrange : m.valuedouble < 2 ^ 64 := by
      rw [hval]
      exact_mod_cast hlt
    rw [hamount, hcast m hm (hval ▸ Nat.cast_nonneg n) hrange, hval, Nat.floor_natCast]
  refine ⟨?_, hexact ▸ hpos, ?_, ?_, ?_⟩
  · rw [hexact, hn]
  · rw [hid]
    exact stringField_of_fits hfits.1
  · rw [hsecret]
    exact stringField_of_fits hfits.2.1
  · rw [hc]
    exact stringField_of_fits hfits.2.2

/-! ### Amounts -/

theorem totalAmount_toNat (t : Token) :
    t.totalAmount.toNat = (t.proofs.map fun p => p.amount.toNat).sum % 2 ^ 64 := by
  unfold Token.totalAmount
  induction t.proofs with
  | nil => rfl
  | cons p ps ih =>
    rw [List.map_cons, List.sum_cons, UInt64.toNat_add, ih, List.map_cons, List.sum_cons,
      Nat.add_mod_mod]

/-- The amounts of the document, when the proofs are the decoded ones. -/
theorem amountSum_of_sameProofs (h : List.Forall₂ SameProof (allProofs root) t.proofs) :
    amountSum root = ((t.proofs.map fun p => p.amount.toNat).sum : ℕ) := by
  unfold amountSum
  generalize allProofs root = js, t.proofs = ps at h
  induction h with
  | nil => rfl
  | cons hp _ ih =>
    rw [List.map_cons, List.sum_cons, ih, List.map_cons, List.sum_cons, hp.amount,
      Option.getD_some, Nat.cast_add]

theorem le_amountSum {k : ℕ} {js : List Json}
    (hamounts : ∀ j ∈ js, ∃ n : ℕ, 0 < n ∧ amountOf j = some (n : ℚ)) (hj : j ∈ js)
    (hk : amountOf j = some (k : ℚ)) : (k : ℚ) ≤ (js.map fun j => (amountOf j).getD 0).sum := by
  have hmem : (k : ℚ) ∈ js.map fun j => (amountOf j).getD 0 :=
    List.mem_map.mpr ⟨j, hj, by rw [hk, Option.getD_some]⟩
  refine List.single_le_sum (fun x hx => ?_) _ hmem
  -- all amounts are positive
  obtain ⟨i, hi, rfl⟩ := List.mem_map.mp hx
  obtain ⟨n, -, hn⟩ := hamounts i hi
  rw [hn, Option.getD_some]
  exact Nat.cast_nonneg n

/-- The decoded proofs are the ones of the document exactly when nothing about them was
lost. -/
theorem sameProofs_iff (hparse : List.Forall₂ (fun j p => parseProof j = some p) items proofs)
    (hcast : ∀ j ∈ items, ∀ m, (j.getObjectItemCaseSensitive "amount").bind Json.asNumber = some m →
      0 ≤ m.valuedouble → m.valuedouble < 2 ^ 64 → m.valueUInt64.toNat = ⌊m.valuedouble⌋₊) :
    List.Forall₂ SameProof items proofs ↔ ∀ j ∈ items,
      (∃ n : ℕ, 0 < n ∧ n < 2 ^ 64 ∧ amountOf j = some (n : ℚ)) ∧
        StringFits j "id" 68 ∧ StringFits j "secret" 128 ∧ StringFits j "C" 128 := by
  induction hparse with
  | nil => exact iff_of_true .nil nofun
  | cons hp _ ih =>
    rw [List.forall₂_cons, List.forall_mem_cons,
      ih fun j hj => hcast j (List.mem_cons_of_mem _ hj)]
    refine and_congr_left fun _ => ⟨fun h => ?_, ?_⟩
    · exact ⟨⟨_, h.amount_pos, UInt64.toNat_lt _, h.amount⟩, h.fits hp⟩
    · rintro ⟨⟨n, hpos, hlt, hn⟩, hfits⟩
      exact sameProof_of_parseProof hp hfits hpos hn hlt (hcast _ List.mem_cons_self)

/-- **When decoding loses nothing.** For every text that `tollgate_core_cashu_decode_token`
accepts: the decoded token has the proofs of all entries with their amounts and strings,
their exact sum and their mint, if and only if the document is `Decodable`. -/
theorem decodeToken_faithful_iff (codec : Codec) (text : CStr) (root : Json) (t : Token)
    (hdec : decodeToken codec text = some t) (hroot : tokenJson codec text = some root)
    (hcast : CastsExactly root) : Faithful root t ↔ Decodable root := by
  have hread : readToken root = some t := by
    rw [decodeToken_eq, hroot, Option.bind_some] at hdec
    exact hdec
  obtain ⟨holder, rest, hentries, hparse, hmint⟩ := readToken_spec hread
  have hall : allProofs root = entryProofs holder ++ rest.flatMap entryProofs := by
    rw [allProofs, hentries, List.flatMap_cons]
  have hholder : entryProofs holder ≠ [] := fun hnil => by
    rw [hnil] at hparse
    exact t.proofs_ne (List.forall₂_nil_left_iff.mp hparse)
  refine ⟨fun h => ?_, fun h => ?_⟩
  · -- the decoder read the first entry, so the others have nothing
    have hrest : rest.flatMap entryProofs = [] := by
      have hlen := h.proofs.length_eq
      rw [hall, List.length_append, hparse.length_eq] at hlen
      exact List.length_eq_zero_iff.mp (by omega)
    rw [hrest, List.append_nil] at hall
    have hsame : List.Forall₂ SameProof (entryProofs holder) t.proofs := hall ▸ h.proofs
    have hparts := (sameProofs_iff hparse fun j hj => hcast j (hall ▸ hj)).mp hsame
    refine ⟨?_, ?_, ?_, ?_, ?_⟩
    · rw [hentries, List.tail_cons]
      exact List.flatMap_eq_nil_iff.mp hrest
    · intro j hj
      obtain ⟨n, hpos, -, hn⟩ := (hparts j (hall ▸ hj)).1
      exact ⟨n, hpos, hn⟩
    · rw [← h.total]
      exact_mod_cast t.totalAmount.toNat_lt
    · exact fun j hj => (hparts j (hall ▸ hj)).2
    · intro e he hne
      refine ⟨t.mintUrl, h.mint e he hne, ?_⟩
      rw [hmint]
      exact length_stringField_lt holder "mint" (by decide)
  · have hrest : rest.flatMap entryProofs = [] :=
      List.flatMap_eq_nil_iff.mpr fun e he => h.single e (by rw [hentries]; exact he)
    rw [hrest, List.append_nil] at hall
    have hsame : List.Forall₂ SameProof (allProofs root) t.proofs := by
      rw [hall]
      refine (sameProofs_iff hparse fun j hj => hcast j (hall ▸ hj)).mpr fun j hj => ?_
      rw [← hall] at hj
      -- no amount is larger than the sum
      obtain ⟨n, hpos, hn⟩ := h.amounts j hj
      have hlt : (n : ℚ) < 2 ^ 64 := (le_amountSum h.amounts hj hn).trans_lt h.total
      exact ⟨⟨n, hpos, by exact_mod_cast hlt, hn⟩, h.strings j hj⟩
    have hsum := amountSum_of_sameProofs hsame
    refine ⟨hsame, ?_, ?_⟩
    · have hlt : (t.proofs.map fun p => p.amount.toNat).sum < 2 ^ 64 := by
        have htotal := h.total
        rw [hsum] at htotal
        exact_mod_cast htotal
      rw [hsum, totalAmount_toNat, Nat.mod_eq_of_lt hlt]
    · intro e he hne
      rw [hentries] at he
      rcases List.mem_cons.mp he with rfl | he
      · rw [hmint]
        refine stringField_of_fits (h.mint e ?_ hne)
        rw [hentries]
        exact List.mem_cons_self
      · exact absurd (h.single e (by rw [hentries]; exact he)) hne

end Decoder

/-! ### Two tokens -/

/-- A proof of the document. -/
def proofJson (amount : Int32) (secret : String) : Json :=
  .object [(cstr "amount", .number (.ofInt amount)), (cstr "id", .string (cstr "00ad")),
    (cstr "secret", .string (cstr secret)), (cstr "C", .string (cstr "02c0"))]

/-- An entry of a token. -/
def entryJson (mint : String) (proofs : List Json) : Json :=
  .object [(cstr "mint", .string (cstr mint)), (cstr "proofs", .array proofs)]

/-- The document of a token with these entries. -/
def tokenDocument (entries : List Json) : Json := .object [(cstr "token", .array entries)]

/-- The text of a token with an entry of 8 sats, in JSON and in base64. -/
def oneMintText : CStr :=
  cstr ("\x7b\"token\":[\x7b\"mint\":\"https://a\",\"proofs\":[\x7b\"amount\":8,\"id\":\"00ad\"," ++
    "\"secret\":\"s\",\"C\":\"02c0\"\x7d]\x7d]\x7d")

def oneMintBase64 : CStr :=
  cstr ("eyJ0b2tlbiI6W3sibWludCI6Imh0dHBzOi8vYSIsInByb29mcyI6W3siYW1vdW50Ijo4LCJpZCI6IjAwYWQi" ++
    "LCJzZWNyZXQiOiJzIiwiQyI6IjAyYzAifV19XX0")

/-- The text of a token with a second entry, of 4 sats of another mint. -/
def twoMintText : CStr :=
  cstr ("\x7b\"token\":[\x7b\"mint\":\"https://a\",\"proofs\":[\x7b\"amount\":8,\"id\":\"00ad\"," ++
    "\"secret\":\"s\",\"C\":\"02c0\"\x7d]\x7d,\x7b\"mint\":\"https://b\",\"proofs\":" ++
    "[\x7b\"amount\":4,\"id\":\"00ad\",\"secret\":\"t\",\"C\":\"02c0\"\x7d]\x7d]\x7d")

def twoMintBase64 : CStr :=
  cstr ("eyJ0b2tlbiI6W3sibWludCI6Imh0dHBzOi8vYSIsInByb29mcyI6W3siYW1vdW50Ijo4LCJpZCI6IjAwYWQi" ++
    "LCJzZWNyZXQiOiJzIiwiQyI6IjAyYzAifV19LHsibWludCI6Imh0dHBzOi8vYiIsInByb29mcyI6W3siYW1v" ++
    "dW50Ijo0LCJpZCI6IjAwYWQiLCJzZWNyZXQiOiJ0IiwiQyI6IjAyYzAifV19XX0")

/-- mbedTLS and cJSON on these texts. -/
def twoMintCodec : Codec where
  base64Decode input size :=
    if input = oneMintBase64 ++ cstr "=" ∧ oneMintText.length ≤ size then some oneMintText
    else if input = twoMintBase64 ++ cstr "=" ∧ twoMintText.length ≤ size then some twoMintText
    else none
  parse text :=
    if text = oneMintText then
      some (tokenDocument [entryJson "https://a" [proofJson 8 "s"]])
    else if text = twoMintText then
      some (tokenDocument [entryJson "https://a" [proofJson 8 "s"],
        entryJson "https://b" [proofJson 4 "t"]])
    else none

/-- The document of a text, step by step. -/
theorem tokenJson_eq_some {codec : Codec} {text : CStr} {root : Json} (json : CStr)
    (hline : firstLine text = text) (hlen : ¬ text.length ≤ 6)
    (hfront : text.take 6 = cstr "cashuA")
    (hbytes : b64urlDecode codec (text.drop 6) ((text.drop 6).length * 3 / 4 + 3) = some json)
    (hclean : asCStr json = json) (hparse : codec.parse json = some root) :
    tokenJson codec text = some root := by
  unfold tokenJson
  rw [hline, if_neg hlen, if_neg (not_not.mpr hfront)]
  dsimp only
  rw [hbytes, Option.bind_some, hclean, hparse]

theorem toNat_valueUInt64_ofInt {i : Int32} (h : 0 ≤ i.toInt) :
    (Number.ofInt i).valueUInt64.toNat = ⌊(Number.ofInt i).valuedouble⌋₊ := by
  have hnonneg : (0 : Int64) ≤ i.toInt64 := by
    rw [Int64.le_iff_toInt_le, Int32.toInt_toInt64]
    exact h
  have hcast : i.toInt64.toUInt64.toNat = i.toInt.toNat := by
    rw [Int64.toNat_toUInt64_of_le hnonneg]
    exact congrArg Int.toNat (Int32.toInt_toInt64 i)
  have hfloor : ⌊(i.toInt : ℚ)⌋₊ = i.toInt.toNat := by rw [← Int.floor_toNat, Int.floor_intCast]
  exact hcast.trans hfloor.symm

theorem castsExactly_of_ofInt {root : Json} (amounts : List Int32)
    (h : (allProofs root).map
      (fun j => (j.getObjectItemCaseSensitive "amount").bind Json.asNumber) =
        amounts.map fun i => some (.ofInt i))
    (hnonneg : ∀ i ∈ amounts, 0 ≤ i.toInt) : CastsExactly root := by
  intro j hj n hn _ _
  have hmem : some n ∈ amounts.map fun i => some (Number.ofInt i) := by
    rw [← h, ← hn]
    exact List.mem_map_of_mem hj
  obtain ⟨i, hi, hin⟩ := List.mem_map.mp hmem
  obtain rfl := Option.some.inj hin
  exact toNat_valueUInt64_ofInt (hnonneg i hi)

theorem twoMintCodec_parse (text : CStr) : twoMintCodec.parse text =
    if text = oneMintText then some (tokenDocument [entryJson "https://a" [proofJson 8 "s"]])
    else if text = twoMintText then
      some (tokenDocument [entryJson "https://a" [proofJson 8 "s"],
        entryJson "https://b" [proofJson 4 "t"]])
    else none := rfl

theorem twoMintCodec_parse_oneMintText : twoMintCodec.parse oneMintText =
    some (tokenDocument [entryJson "https://a" [proofJson 8 "s"]]) := by
  rw [twoMintCodec_parse, if_pos rfl]

theorem twoMintCodec_parse_twoMintText : twoMintCodec.parse twoMintText =
    some (tokenDocument [entryJson "https://a" [proofJson 8 "s"],
      entryJson "https://b" [proofJson 4 "t"]]) := by
  have hne : twoMintText ≠ oneMintText := by decide
  rw [twoMintCodec_parse, if_neg hne, if_pos rfl]

/-- Nothing is lost of the token of one entry. -/
theorem oneMint_faithful_iff :
    ∃ t, decodeToken twoMintCodec (cstr "cashuA" ++ oneMintBase64) = some t ∧
      tokenJson twoMintCodec (cstr "cashuA" ++ oneMintBase64) =
        some (tokenDocument [entryJson "https://a" [proofJson 8 "s"]]) ∧
      (Faithful (tokenDocument [entryJson "https://a" [proofJson 8 "s"]]) t ↔
        Decodable (tokenDocument [entryJson "https://a" [proofJson 8 "s"]])) := by
  have hsome : (decodeToken twoMintCodec (cstr "cashuA" ++ oneMintBase64)).isSome = true := by
    decide +kernel
  obtain ⟨t, ht⟩ := Option.isSome_iff_exists.mp hsome
  have hjson : tokenJson twoMintCodec (cstr "cashuA" ++ oneMintBase64) =
      some (tokenDocument [entryJson "https://a" [proofJson 8 "s"]]) :=
    tokenJson_eq_some oneMintText (by decide +kernel) (by decide +kernel) (by decide +kernel)
      (by decide +kernel) (by decide +kernel) twoMintCodec_parse_oneMintText
  have hcast : CastsExactly (tokenDocument [entryJson "https://a" [proofJson 8 "s"]]) :=
    castsExactly_of_ofInt [8] rfl (by simp)
  exact ⟨t, ht, hjson, decodeToken_faithful_iff _ _ _ t ht hjson hcast⟩

/-- Of the token of two mints the second entry is dropped: the decoder succeeds with one
proof of 8 sats. -/
theorem second_entry_dropped :
    ¬ ∀ (codec : Codec) (text : CStr) (root : Json) (t : Token),
      decodeToken codec text = some t → tokenJson codec text = some root → CastsExactly root →
        Faithful root t := by
  intro h
  have hcount : (decodeToken twoMintCodec (cstr "cashuA" ++ twoMintBase64)).map
      (fun t => t.proofs.length) = some 1 := by
    decide +kernel
  obtain ⟨t, ht, hone⟩ := Option.map_eq_some_iff.mp hcount
  have hjson : tokenJson twoMintCodec (cstr "cashuA" ++ twoMintBase64) =
      some (tokenDocument [entryJson "https://a" [proofJson 8 "s"],
        entryJson "https://b" [proofJson 4 "t"]]) :=
    tokenJson_eq_some twoMintText (by decide +kernel) (by decide +kernel) (by decide +kernel)
      (by decide +kernel) (by decide +kernel) twoMintCodec_parse_twoMintText
  have hcast : CastsExactly (tokenDocument [entryJson "https://a" [proofJson 8 "s"],
      entryJson "https://b" [proofJson 4 "t"]]) :=
    castsExactly_of_ofInt [8, 4] rfl (by simp)
  have hlen := (h _ _ _ t ht hjson hcast).proofs.length_eq
  rw [hone] at hlen
  revert hlen
  decide

/-! ### The mint's answer about the proofs -/

section States

variable (sha256 : List UInt8 → Vector UInt8 32)

/-- `sha256_hex`. -/
def sha256Hex (data : CStr) : CStr :=
  (sha256 data).toList.flatMap fun b => CStr.hexPadded 2 b.toNat

/-- `y_hex`: how the proof is named in the request. -/
def proofY (p : Proof) : CStr := sha256Hex sha256 p.secret

/-- The entries of a reply that is accepted. -/
def replyStates (codec : Codec) (reply : HttpReply) : Option (List Json) :=
  match reply with
  | none => none
  | some (status, body) =>
    if status ≠ 200 ∨ body = [] then none
    else
      (codec.parse (asCStr (body.take 8191))).bind fun root =>
        (root.getObjectItemCaseSensitive "states").bind Json.asArray

/-- The `Y` of an entry. -/
def entryY (e : Json) : Option CStr := (e.getObjectItemCaseSensitive "Y").bind Json.asString

/-- The state of an entry. -/
def entryState (e : Json) : Option CStr :=
  (e.getObjectItemCaseSensitive "state").bind Json.asString

/-- Some entry says that the proof named `y` is unspent. -/
def UnspentFor (items : List Json) (y : CStr) : Prop :=
  ∃ e ∈ items, entryY e = some y ∧ entryState e = some (cstr "UNSPENT")

/-- A proof is reported as not spent only on the word of an entry about it. -/
def SpentPerProof (codec : Codec) (reply : HttpReply) (token : Token) : Prop :=
  ∀ flags items, checkProofStates codec reply token = some flags →
    replyStates codec reply = some items → ∀ (i : ℕ) (p : Proof), token.proofs[i]? = some p →
      flags[i]? = some false → UnspentFor items (proofY sha256 p)

/-- A proof without an `UNSPENT` entry has its place in the reply taken by a `SPENT`
one. -/
def SpentInPlace (items : List Json) (token : Token) : Prop :=
  ∀ (i : ℕ) (p : Proof), token.proofs[i]? = some p → ¬ UnspentFor items (proofY sha256 p) →
    items[i]?.bind entryState = some (cstr "SPENT")

/-- The mint answers for each proof in turn, and knows two states. -/
def AnswersInOrder (items : List Json) (token : Token) : Prop :=
  ∀ (i : ℕ) (p : Proof), token.proofs[i]? = some p → ∃ e, items[i]? = some e ∧
    entryY e = some (proofY sha256 p) ∧
      (entryState e = some (cstr "SPENT") ∨ entryState e = some (cstr "UNSPENT"))

variable {sha256} {codec : Codec} {reply : HttpReply} {token : Token} {items : List Json}

theorem checkProofStates_eq (codec : Codec) (reply : HttpReply) (token : Token) :
    checkProofStates codec reply token = (replyStates codec reply).map fun items =>
      (List.range token.proofs.length).map fun i => stateSpent items[i]? := by
  unfold checkProofStates replyStates
  cases reply with
  | none => rfl
  | some r =>
    obtain ⟨status, body⟩ := r
    dsimp only
    split
    · rfl
    · cases codec.parse (asCStr (body.take 8191)) with
      | none => rfl
      | some root =>
        rw [Option.bind_some]
        dsimp only
        cases (root.getObjectItemCaseSensitive "states").bind Json.asArray <;> rfl

theorem stateSpent_eq_false_iff (o : Option Json) :
    stateSpent o = false ↔ o.bind entryState ≠ some (cstr "SPENT") := by
  unfold stateSpent
  split
  · next state hstate =>
    have hread : o.bind entryState = some state := hstate
    rw [hread, decide_eq_false_iff_not, Ne, Option.some.injEq]
  · next hnone =>
    have hread : o.bind entryState = none := hnone
    rw [hread]
    exact iff_of_true rfl nofun

/-- The flag that is reported of a proof is that of the entry at its place. -/
theorem flag_of_getElem? {items : List Json} {i : ℕ} {p : Proof} (hp : token.proofs[i]? = some p) :
    ((List.range token.proofs.length).map fun i => stateSpent items[i]?)[i]? =
      some (stateSpent items[i]?) := by
  have hi : i < token.proofs.length := (List.getElem?_eq_some_iff.mp hp).1
  rw [List.getElem?_map, List.getElem?_range hi, Option.map_some]

theorem SpentPerProof.spentInPlace (h : SpentPerProof sha256 codec reply token)
    {items : List Json} (hitems : replyStates codec reply = some items) :
    SpentInPlace sha256 items token := by
  intro i p hp hnone
  by_contra hspent
  -- the proof is reported as not spent although nobody said so
  have hflags : checkProofStates codec reply token =
      some ((List.range token.proofs.length).map fun i => stateSpent items[i]?) := by
    rw [checkProofStates_eq, hitems, Option.map_some]
  refine hnone (h _ items hflags hitems i p hp ?_)
  rw [flag_of_getElem? hp, (stateSpent_eq_false_iff _).mpr hspent]

theorem spentPerProof_of_inPlace
    (h : ∀ items, replyStates codec reply = some items → SpentInPlace sha256 items token) :
    SpentPerProof sha256 codec reply token := by
  intro flags items hflags hitems i p hp hfalse
  rw [checkProofStates_eq, hitems, Option.map_some, Option.some.injEq] at hflags
  rw [← hflags, flag_of_getElem? hp, Option.some.injEq, stateSpent_eq_false_iff] at hfalse
  by_contra hnone
  exact hfalse (h items hitems i p hp hnone)

/-- **When the flags are about the proofs.** For every reply that is accepted: each proof
reported as not spent has an entry of its own that says so, if and only if each proof
that has none finds a `SPENT` entry at its place. -/
theorem spentPerProof_iff (sha256 : List UInt8 → Vector UInt8 32) (codec : Codec)
    (reply : HttpReply) (token : Token) :
    SpentPerProof sha256 codec reply token ↔
      ∀ items, replyStates codec reply = some items → SpentInPlace sha256 items token :=
  ⟨fun h _ hitems => h.spentInPlace hitems, spentPerProof_of_inPlace⟩

/-- A mint that answers in order is understood. -/
theorem spentPerProof_of_inOrder
    (h : ∀ items, replyStates codec reply = some items → AnswersInOrder sha256 items token) :
    SpentPerProof sha256 codec reply token := by
  refine spentPerProof_of_inPlace fun items hitems i p hp hnone => ?_
  obtain ⟨e, he, hy, hspent | hunspent⟩ := h items hitems i p hp
  · rw [he, Option.bind_some, hspent]
  · exact absurd ⟨e, List.mem_of_getElem? he, hy, hunspent⟩ hnone

end States

/-- The digest of the secret `s`. -/
def digestOfS : Vector UInt8 32 :=
  ⟨#[0x04, 0x3a, 0x71, 0x87, 0x74, 0xc5, 0x72, 0xbd, 0x8a, 0x25, 0xad, 0xbe, 0xb1, 0xbf, 0xcd, 0x5c,
    0x02, 0x56, 0xae, 0x11, 0xce, 0xcf, 0x9f, 0x9c, 0x3f, 0x92, 0x5d, 0x0e, 0x52, 0xbe, 0xaf, 0x89],
    rfl⟩

/-- A reply whose only entry says of the proof with the secret `s` that a payment with it
is under way. -/
def pendingText : CStr :=
  cstr ("\x7b\"states\":[\x7b\"Y\":\"043a718774c572bd8a25adbeb1bfcd5c0256ae11cecf9f9c3f925d0e52beaf89\"," ++
    "\"state\":\"PENDING\"\x7d]\x7d")

/-- The document of that reply. -/
def pendingDocument : Json :=
  .object [(cstr "states", .array [.object [
    (cstr "Y", .string (cstr "043a718774c572bd8a25adbeb1bfcd5c0256ae11cecf9f9c3f925d0e52beaf89")),
    (cstr "state", .string (cstr "PENDING"))]])]

/-- mbedTLS and cJSON on the token of one mint and this reply. -/
def pendingCodec : Codec where
  base64Decode := twoMintCodec.base64Decode
  parse text := if text = pendingText then some pendingDocument else twoMintCodec.parse text

theorem pendingCodec_parse (text : CStr) : pendingCodec.parse text =
    if text = pendingText then some pendingDocument else twoMintCodec.parse text := rfl

/-- The proof that is pending is reported as not spent. -/
theorem pending_reported_unspent :
    ¬ ∀ (sha256 : List UInt8 → Vector UInt8 32) (codec : Codec) (text : CStr) (token : Token)
      (reply : HttpReply), decodeToken codec text = some token →
        SpentPerProof sha256 codec reply token := by
  intro h
  have hsome : (decodeToken pendingCodec (cstr "cashuA" ++ oneMintBase64)).isSome = true := by
    decide +kernel
  obtain ⟨t, ht⟩ := Option.isSome_iff_exists.mp hsome
  have hbody : asCStr (pendingText.take 8191) = pendingText := by decide
  have hparse : pendingCodec.parse pendingText = some pendingDocument := by
    rw [pendingCodec_parse, if_pos rfl]
  have hitems : replyStates pendingCodec (some (200, pendingText)) =
      (pendingDocument.getObjectItemCaseSensitive "states").bind Json.asArray := by
    have hok : ¬ ((200 : ℤ) ≠ 200 ∨ pendingText = []) := by decide
    unfold replyStates
    dsimp only
    rw [if_neg hok, hbody, hparse, Option.bind_some]
  obtain ⟨p, hp⟩ : ∃ p, t.proofs[0]? = some p :=
    ⟨_, List.getElem?_eq_getElem (List.length_pos_of_ne_nil t.proofs_ne)⟩
  have hcond := (h (fun _ => digestOfS) _ _ t (some (200, pendingText)) ht).spentInPlace
    hitems 0 p hp
  -- the only entry says neither `UNSPENT` nor `SPENT`
  have hnone : ∀ y, ¬ UnspentFor [.object [
      (cstr "Y", .string (cstr "043a718774c572bd8a25adbeb1bfcd5c0256ae11cecf9f9c3f925d0e52beaf89")),
      (cstr "state", .string (cstr "PENDING"))]] y := by
    rintro y ⟨e, he, -, hstate⟩
    rw [List.mem_singleton] at he
    rw [he] at hstate
    revert hstate
    decide
  have hspent := hcond (hnone _)
  revert hspent
  decide

end Cashu

end TollGate
