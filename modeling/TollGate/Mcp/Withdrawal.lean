import TollGate.Lib.JsonPrinter
import TollGate.Mcp.Metric
import TollGate.Wallet.Send

/-!
# Withdrawing through the MCP server

The tool `wallet_send` takes a token out of the wallet and answers with an object that has it. The
token passes two buffers of 2048 bytes: it has to fit the first by itself, and the second together
with the rest of the object. When it fits only the first, the wallet has given it away and the
answer is cut off.

An object that is cut off is not JSON, so the answer carries the token if and only if the whole of
the object has room (`withdrawal_kept_iff`). A token of 2038 characters is lost
(`withdrawal_cut`).
-/

namespace TollGate

namespace Mcp

open CStr CJson JsonText TollGate.Wallet

/-! ### The tool -/

/-- The object that `mcp_handle_wallet_send` answers with. -/
def sendResult (token : CStr) (amount : UInt64) : Json :=
  .object [(cstr "token", .string token), (cstr "amount", .number (.ofUInt64 amount))]

/-- `mcp_handle_wallet_send`. The wallet has one error, `ESP_FAIL`. -/
def handleWalletSend (parse : CStr → Option Json) (printer : Json → CStr) (lib : Library)
    (s : Purse) (params : CStr) : Purse × Response :=
  match parse params with
  | none => (s, failure "Invalid JSON params")
  | some root =>
    match (root.getObjectItem "amount").bind Json.asNumber with
    | none => (s, failure "Missing 'amount' field")
    | some n =>
      let amount := n.valueUInt64
      match nuculaWalletSend lib s amount 2048 with
      | (s, none) => (s, failure "Send failed: -1")
      | (s, some sent) =>
        (s, ⟨true, snprintf 2048 (printer (sendResult sent.encoded amount)), []⟩)

/-! ### What an answer is to have -/

/-- The text is an object of JSON with the token in it. -/
def CarriesToken (text token : CStr) : Prop :=
  ∃ top ms, IsObject text top ms ∧ StringField top "token" token

/-- The wallet gives this token for the amount that is asked for. -/
def Withdraws (parse : CStr → Option Json) (lib : Library) (s : Purse) (params : CStr)
    (amount : UInt64) (sent : Sent) : Prop :=
  ∃ root n, parse params = some root ∧ (root.getObjectItem "amount").bind Json.asNumber = some n ∧
    amount = n.valueUInt64 ∧ (nuculaWalletSend lib s amount 2048).2 = some sent

/-- What the wallet gives is in the answer. -/
def WithdrawalKept (parse : CStr → Option Json) (printer : Json → CStr) (lib : Library)
    (s : Purse) (params : CStr) : Prop :=
  ∀ amount sent, Withdraws parse lib s params amount sent →
    CarriesToken (handleWalletSend parse printer lib s params).2.resultJson sent.encoded

section Answer

variable {parse : CStr → Option Json} {printer : Json → CStr} {lib : Library} {s : Purse}
  {params token : CStr} {amount : UInt64} {sent : Sent}

theorem resultJson_of_withdraws (h : Withdraws parse lib s params amount sent) :
    (handleWalletSend parse printer lib s params).2.resultJson =
      snprintf 2048 (printer (sendResult sent.encoded amount)) := by
  obtain ⟨root, n, hparse, hamount, rfl, hsent⟩ := h
  unfold handleWalletSend
  rw [hparse]
  dsimp only
  rw [hamount]
  dsimp only
  generalize nuculaWalletSend lib s n.valueUInt64 2048 = r at hsent ⊢
  obtain ⟨s', sent'⟩ := r
  obtain rfl : sent' = some sent := hsent
  rfl

/-- The members of the answer. -/
def sendMembers (raw : List StringChar) (numeral : Numeral) : List Member :=
  [plainMember "token" [.str raw], plainMember "amount" [.other numeral.text]]

theorem isDocument_sendMembers (raw : List StringChar) (numeral : Numeral) :
    IsDocument (compactObject (sendMembers raw numeral)) (sendMembers raw numeral)
      (sendMembers raw numeral) := by
  refine isDocument_flat (List.cons_ne_nil _ _) (List.forall_mem_cons.mpr ⟨?_, ?_⟩)
  · exact ⟨blank_nil, blank_nil, .string raw⟩
  · exact List.forall_mem_singleton.mpr ⟨blank_nil, blank_nil, .number numeral⟩

theorem stringField_sendMembers (raw : List StringChar) (numeral : Numeral) :
    StringField (sendMembers raw numeral) "token" (decode raw) := by
  have hnamed : named (sendMembers raw numeral) "token" = [plainMember "token" [.str raw]] := rfl
  exact ⟨_, raw, hnamed, rfl, rfl⟩

/-- The answer before it is cut. -/
theorem exists_sendMembers (h : Unformatted printer) (hnumbers : PrintsNumbers printer)
    (token : CStr) (amount : UInt64) : ∃ raw numeral, decode raw = token ∧
      printer (sendResult token amount) = compactText (sendMembers raw numeral) := by
  obtain ⟨raw, hdecode, hraw⟩ := h.string token
  obtain ⟨numeral, hnumeral⟩ := hnumbers (.ofUInt64 amount)
  refine ⟨raw, numeral, hdecode, h.object_eq ?_⟩
  have hmemberToken := @Unformatted.memberText_eq _ h "token" (by decide) _ _ hraw
  have hmemberAmount := @Unformatted.memberText_eq _ h "amount" (by decide)
    (.number (.ofUInt64 amount)) [.other numeral.text] (by simp [hnumeral, print, Lexeme.text])
  unfold sendMembers
  rw [List.map_cons, List.map_singleton, List.map_cons, List.map_singleton, hmemberToken,
    hmemberAmount]

theorem length_sendResult (h : Unformatted printer) (token : CStr) (amount : UInt64) :
    (printer (sendResult token amount)).length =
      (printer (.string token)).length + (printer (.number (.ofUInt64 amount))).length + 20 := by
  have htoken : (printer (.string (cstr "token"))).length = 7 := by
    rw [h.plain _ (by decide)]
    rfl
  have hamount : (printer (.string (cstr "amount"))).length = 8 := by
    rw [h.plain _ (by decide)]
    rfl
  unfold sendResult
  rw [h.object]
  simp only [List.map_cons, List.map_nil, commas_cons_cons, commas_singleton, memberText,
    List.length_cons, List.length_append, List.length_nil, htoken, hamount]
  omega

/-- **A token in a buffer.** The answer carries the token exactly if nothing is cut off. -/
theorem carriesToken_iff (h : Unformatted printer) (hnumbers : PrintsNumbers printer) :
    CarriesToken (snprintf 2048 (printer (sendResult token amount))) token ↔
      (printer (.string token)).length + (printer (.number (.ofUInt64 amount))).length + 20 <
        2048 := by
  obtain ⟨raw, numeral, rfl, htext⟩ := exists_sendMembers h hnumbers token amount
  have hdocument := isDocument_sendMembers raw numeral
  rw [← length_sendResult h, htext]
  constructor
  · rintro ⟨top, ms, hobject, -⟩
    exact (isText_snprintf_iff (by decide) hdocument).mp hobject.isText
  · intro hfits
    rw [snprintf_of_length_lt hfits]
    exact ⟨_, _, ⟨_, hdocument, rfl⟩, stringField_sendMembers raw numeral⟩

/-- **Withdrawals are kept** exactly if the token as it is printed, the numeral of the amount and
the twenty bytes around them have room in the answer. -/
theorem withdrawal_kept_iff (h : Unformatted printer) (hnumbers : PrintsNumbers printer) :
    WithdrawalKept parse printer lib s params ↔
      ∀ amount sent, Withdraws parse lib s params amount sent →
        (printer (.string sent.encoded)).length + (printer (.number (.ofUInt64 amount))).length +
          20 < 2048 := by
  refine forall₂_congr fun amount sent => forall_congr' fun hsent => ?_
  rw [resultJson_of_withdraws hsent]
  exact carriesToken_iff h hnumbers

end Answer

/-! ### Tokens of 63 sats -/

/-- The digits of base64 for URLs. -/
def base64Digits : CStr := cstr "ABCDEFGHIJKLMNOPQRSTUVWXYZabcdefghijklmnopqrstuvwxyz0123456789-_"

/-- A digit by its value. -/
def base64Digit (d : ℕ) : UInt8 := base64Digits.getD d 65

/-- Base64 for URLs, without padding. -/
def base64Url : CStr → CStr
  | [] => []
  | [a] => [base64Digit (a.toNat / 4), base64Digit (a.toNat % 4 * 16)]
  | [a, b] => [base64Digit (a.toNat / 4), base64Digit (a.toNat % 4 * 16 + b.toNat / 16),
      base64Digit (b.toNat % 16 * 4)]
  | a :: b :: c :: s => base64Digit (a.toNat / 4) ::
      base64Digit (a.toNat % 4 * 16 + b.toNat / 16) ::
      base64Digit (b.toNat % 16 * 4 + c.toNat / 64) :: base64Digit (c.toNat % 64) :: base64Url s

theorem length_base64Url (s : CStr) : (base64Url s).length = (4 * s.length + 2) / 3 := by
  induction s using base64Url.induct with
  | case1 => rfl
  | case2 a => simp [base64Url]
  | case3 a b => simp [base64Url]
  | case4 a b c s ih =>
    rw [base64Url]
    simp only [List.length_cons]
    omega

theorem plain_base64Digit (d : ℕ) :
    32 ≤ base64Digit d ∧ base64Digit d ≠ 34 ∧ base64Digit d ≠ 92 := by
  have hdigits : IsPlain base64Digits := by decide
  unfold base64Digit
  rw [List.getD_eq_getElem?_getD]
  cases hget : base64Digits[d]? with
  | none => decide
  | some b => exact hdigits b (List.mem_of_getElem? hget)

theorem isPlain_base64Url (s : CStr) : IsPlain (base64Url s) := by
  induction s using base64Url.induct with
  | case1 => exact fun _ hb => absurd hb List.not_mem_nil
  | case2 a => simp [IsPlain, base64Url, plain_base64Digit]
  | case3 a b => simp [IsPlain, base64Url, plain_base64Digit]
  | case4 a b c s ih =>
    unfold base64Url
    simp only [IsPlain, List.forall_mem_cons]
    exact ⟨plain_base64Digit _, plain_base64Digit _, plain_base64Digit _, plain_base64Digit _, ih⟩

/-- The keyset of the proofs. -/
def keysetId : CStr := cstr "01" ++ hexPadded 64 1

/-- A proof in the text of a token. -/
def proofText (p : Proof) : CStr :=
  cstr "\x7b\"amount\":" ++ decimal p.amount ++ cstr ",\"id\":\"" ++ keysetId ++
    cstr "\",\"secret\":\"" ++ p.secret ++ cstr "\",\"C\":\"" ++ cstr "02" ++ hexPadded 64 1 ++
    cstr "\"\x7d"

/-- The JSON of a token. -/
def tokenJson (t : Token) : CStr :=
  cstr "\x7b\"token\":[\x7b\"mint\":\"" ++ t.mint ++ cstr "\",\"proofs\":[" ++
    commas (t.proofs.map proofText) ++ cstr "]\x7d],\"unit\":\"" ++ t.unit ++ cstr "\"\x7d"

/-- Its text. -/
def tokenText (t : Token) : CStr := cstr "cashuA" ++ base64Url (tokenJson t)

/-- Six proofs, from one sat to 32. -/
def newProofs : List Proof := (List.range 6).map fun i => ⟨2 ^ i, hexPadded 64 i⟩

theorem length_proofText (p : Proof) :
    (proofText p).length = (decimal p.amount).length + p.secret.length + 170 := by
  have hamount : (cstr "\x7b\"amount\":").length = 10 := by decide
  have hid : (cstr ",\"id\":\"").length = 7 := by decide
  have hkeyset : keysetId.length = 66 := by decide
  have hsecret : (cstr "\",\"secret\":\"").length = 12 := by decide
  have hsignature : (cstr "\",\"C\":\"").length = 7 := by decide
  have hprefix : (cstr "02").length = 2 := by decide
  have hend : (cstr "\"\x7d").length = 2 := by decide
  unfold proofText
  simp only [List.length_append, length_hexPadded, hamount, hid, hkeyset, hsecret, hsignature,
    hprefix, hend]
  omega

theorem length_newProofs : (commas (newProofs.map proofText)).length = 1417 := by
  have hlength : ∀ i, (proofText ⟨2 ^ i, hexPadded 64 i⟩).length + 1 =
      (decimal (2 ^ i)).length + 235 := by
    intro i
    rw [length_proofText, length_hexPadded]
  have htexts : (newProofs.map proofText).map (fun t => t.length + 1) =
      ((List.range 6).map fun i => (decimal (2 ^ i)).length).map (· + 235) := by
    unfold newProofs
    simp only [List.map_map, Function.comp_def, hlength]
  have hdigits : (List.range 6).map (fun i => (decimal (2 ^ i)).length) = [1, 1, 1, 1, 2, 2] := by
    decide
  rw [length_commas, htexts, hdigits]
  rfl

theorem length_tokenText (mint : CStr) :
    (tokenText ⟨mint, cstr "sat", newProofs⟩).length = (4 * mint.length + 5862) / 3 + 6 := by
  have hfront : (cstr "\x7b\"token\":[\x7b\"mint\":\"").length = 19 := by decide
  have hproofs : (cstr "\",\"proofs\":[").length = 12 := by decide
  have hunit : (cstr "]\x7d],\"unit\":\"").length = 12 := by decide
  have hsat : (cstr "sat").length = 3 := by decide
  have hend : (cstr "\"\x7d").length = 2 := by decide
  have hversion : (cstr "cashuA").length = 6 := by decide
  unfold tokenText tokenJson
  simp only [List.length_append, length_base64Url, length_newProofs, hfront, hproofs, hunit, hsat,
    hend, hversion]
  omega

/-- A wallet that holds 64 sats of a mint. -/
def savings (mint : CStr) : Purse :=
  ⟨[some ⟨mint, [⟨true, cstr "sat"⟩], true, [⟨64, hexPadded 64 7⟩]⟩], fun _ => false⟩

/-- The library, of which all that is held is swapped. -/
def sendLibrary : Library where
  loadKeysets := fun _ => none
  selectProofs proofs _ := some (proofs, [])
  swap _ _ _ := some ⟨newProofs, [⟨1, hexPadded 64 6⟩], 0⟩
  serializeTokenV3 := tokenText

/-- The arguments of a call. -/
def sendText : CStr := cstr "\x7b\"amount\":63\x7d"

/-- cJSON on them. -/
def parseSend (text : CStr) : Option Json :=
  if text = sendText then some (.object [(cstr "amount", .number (.ofInt 63))]) else none

/-- The token that is sent. -/
def sentToken (mint : CStr) : Token := ⟨mint, cstr "sat", newProofs⟩

/-- The swap that is made for it. -/
def sendExchange (mint : CStr) : Exchange :=
  ⟨0, ⟨mint, [⟨true, cstr "sat"⟩], true, [⟨64, hexPadded 64 7⟩]⟩, [⟨64, hexPadded 64 7⟩], [],
    ⟨newProofs, [⟨1, hexPadded 64 6⟩], 0⟩⟩

theorem fits_sendExchange {mint : CStr} (h : mint.length ≤ 63) :
    (sendExchange mint).Fits sendLibrary 2048 := by
  refine ⟨List.append_ne_nil_of_left_ne_nil (by decide) _, ?_⟩
  show (tokenText (sentToken mint)).length < 2048
  rw [sentToken, length_tokenText]
  omega

theorem withdraws_savings {mint : CStr} (h : mint.length ≤ 63) {amount : UInt64} {sent : Sent} :
    Withdraws parseSend sendLibrary (savings mint) sendText amount sent ↔
      amount = 63 ∧ sent = ⟨sentToken mint, tokenText (sentToken mint), 0⟩ := by
  have hexchange : exchange sendLibrary (savings mint) 63 = (_, some (sendExchange mint)) := rfl
  have hsend : (nuculaWalletSend sendLibrary (savings mint) 63 2048).2 =
      some ⟨sentToken mint, tokenText (sentToken mint), 0⟩ := by
    obtain ⟨-, heq⟩ | ⟨hnot, -⟩ := nuculaWalletSend_of_exchange hexchange 2048
    · exact congrArg Prod.snd heq
    · exact absurd (fits_sendExchange h) hnot
  constructor
  · rintro ⟨root, n, hparse, hamount, rfl, hsent⟩
    obtain rfl := Option.some.inj hparse
    obtain rfl := Option.some.inj hamount
    exact ⟨rfl, Option.some.inj (hsent.symm.trans hsend)⟩
  · rintro ⟨rfl, rfl⟩
    exact ⟨_, _, rfl, rfl, rfl, hsend⟩

theorem length_printed (mint : CStr) :
    (unformatted (.string (tokenText (sentToken mint)))).length =
      (4 * mint.length + 5862) / 3 + 8 := by
  have hplain : IsPlain (tokenText (sentToken mint)) := by
    intro b hb
    rcases List.mem_append.mp hb with hversion | hbody
    · have hall : IsPlain (cstr "cashuA") := by decide
      exact hall b hversion
    · exact isPlain_base64Url _ b hbody
  rw [unformatted_unformatted.plain _ hplain, List.length_cons, List.length_append, sentToken,
    length_tokenText]
  rfl

/-- The address of a mint, of 59 characters. -/
def longMint : CStr := cstr "https://mint.tollgate.example.com/cashu/bitcoin/mainnet/sat"

/-- The wallet gives a token of 2038 characters, and the answer does not have it. -/
theorem withdrawal_cut :
    Withdraws parseSend sendLibrary (savings longMint) sendText 63
        ⟨sentToken longMint, tokenText (sentToken longMint), 0⟩ ∧
      (tokenText (sentToken longMint)).length = 2038 ∧
      ¬ WithdrawalKept parseSend unformatted sendLibrary (savings longMint) sendText := by
  have hlength : longMint.length = 59 := by decide
  have hsent := (@withdraws_savings longMint (by omega) _ _).mpr ⟨rfl, rfl⟩
  refine ⟨hsent, ?_, fun hkept => ?_⟩
  · rw [sentToken, length_tokenText, hlength]
  · have hcarries := hkept _ _ hsent
    rw [resultJson_of_withdraws hsent] at hcarries
    have hfits : (unformatted (.string (tokenText (sentToken longMint)))).length + _ + 20 < 2048 :=
      (carriesToken_iff unformatted_unformatted printsNumbers_unformatted).mp hcarries
    have hprinted := length_printed longMint
    omega

/-- Of a mint with a short address the token is kept. -/
theorem withdrawal_kept_iff_sample :
    Withdraws parseSend sendLibrary (savings (cstr "https://m")) sendText 63
        ⟨sentToken (cstr "https://m"), tokenText (sentToken (cstr "https://m")), 0⟩ ∧
      WithdrawalKept parseSend unformatted sendLibrary (savings (cstr "https://m")) sendText := by
  have hlength : (cstr "https://m").length = 9 := by decide
  have hdouble : toDouble 63 = 63 := by decide
  have hnumber : (unformatted (.number (.ofUInt64 63))).length = 2 := by
    have hvalue : (Number.ofUInt64 63).valuedouble = (toDouble 63 : ℕ) := rfl
    rw [unformatted, hvalue, Rat.num_natCast, signedDecimal_natCast, hdouble]
    rfl
  refine ⟨(withdraws_savings (by omega)).mpr ⟨rfl, rfl⟩, ?_⟩
  refine (withdrawal_kept_iff unformatted_unformatted printsNumbers_unformatted).mpr ?_
  intro amount sent hsent
  obtain ⟨rfl, heq⟩ := (withdraws_savings (by omega)).mp hsent
  have hencoded : sent.encoded = tokenText (sentToken (cstr "https://m")) :=
    congrArg Sent.encoded heq
  rw [hencoded, length_printed, hlength, hnumber]
  decide

end Mcp

end TollGate
