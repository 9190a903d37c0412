import TollGate.Lib.Base64
import TollGate.Lib.Memory

/-!
# Encrypted messages

`nip04_encrypt` pads a text, encrypts it and writes it in base64 behind its vector, and
`nip04_decrypt` reads that back. secp256k1 and AES are other libraries, so `Crypto` has them as
parameters.

The encoder of base64 is there twice, as the text it gives (`base64Encode`) and with its writes
(`base64EncodeTo`), from which the decoder gives the bytes back (`base64Decode_base64EncodeTo`).

The decoder bounds what it stores by the length of the text, not by its buffer.
`nip04_iff` says for which texts both buffers are kept, and for which plaintexts the round trip
gives the text and its length: for all but the empty one, which is taken for wrong padding.
-/

namespace TollGate

namespace Cvm

open CStr Base64

/-! ### Base64 -/

/-- `base64_table`. -/
def base64Table : CStr := cstr "ABCDEFGHIJKLMNOPQRSTUVWXYZabcdefghijklmnopqrstuvwxyz0123456789+/"

/-- The letter of a digit. -/
def letter (d : UInt32) : UInt8 := base64Table.getD d.toNat 0

/-- `base64_encode`. -/
def base64Encode : List UInt8 → CStr
  | [] => []
  | [a] =>
    let triple := joinBytes a 0 0
    [letter (digitAt triple 18), letter (digitAt triple 12), 61, 61]
  | [a, b] =>
    let triple := joinBytes a b 0
    [letter (digitAt triple 18), letter (digitAt triple 12), letter (digitAt triple 6), 61]
  | a :: b :: c :: src =>
    let triple := joinBytes a b c
    letter (digitAt triple 18) :: letter (digitAt triple 12) :: letter (digitAt triple 6) ::
      letter (digitAt triple 0) :: base64Encode src

/-- A turn of the loop of `base64_encode`, into the memory behind `dst`. -/
def encodeTurn (src : List UInt8) (i j : ℕ) (dst : ℕ → UInt8) : ℕ → UInt8 :=
  let a := src.getD i 0
  let b := if i + 1 < src.length then src.getD (i + 1) 0 else 0
  let c := if i + 2 < src.length then src.getD (i + 2) 0 else 0
  let triple := joinBytes a b c
  let dst := Function.update dst j (letter (digitAt triple 18))
  let dst := Function.update dst (j + 1) (letter (digitAt triple 12))
  let dst := Function.update dst (j + 2)
    (if i + 1 < src.length then letter (digitAt triple 6) else 61)
  Function.update dst (j + 3) (if i + 2 < src.length then letter (digitAt triple 0) else 61)

/-- The loop from `i` on: the memory after it, and what is returned. -/
def encodeLoop (src : List UInt8) (i j : ℕ) (dst : ℕ → UInt8) : (ℕ → UInt8) × ℕ :=
  if i < src.length then encodeLoop src (i + 3) (j + 4) (encodeTurn src i j dst)
  else (Function.update dst j 0, j)
termination_by src.length - i

/-- `base64_encode` with its writes, of which `base64Encode` is the text. -/
def base64EncodeTo (src : List UInt8) (dst : ℕ → UInt8) : (ℕ → UInt8) × ℕ := encodeLoop src 0 0 dst

/-- `base64_val`. -/
def base64Val (c : UInt8) : Int32 :=
  if 65 ≤ c ∧ c ≤ 90 then Int32.ofNat (c.toNat - 65)
  else if 97 ≤ c ∧ c ≤ 122 then Int32.ofNat (c.toNat - 97 + 26)
  else if 48 ≤ c ∧ c ≤ 57 then Int32.ofNat (c.toNat - 48 + 52)
  else if c = 43 then 62
  else if c = 47 then 63
  else -1

/-- The third or fourth digit of a group. -/
def digitOrZero (c : UInt8) : UInt32 := if c ≠ 61 then (base64Val c).toUInt32 else 0

/-- `if (j < expected) dst[j++] = b`. -/
def store (expected : ℕ) (dst : List UInt8) (b : UInt8) : List UInt8 :=
  if dst.length < expected then dst ++ [b] else dst

/-- The loop of `base64_decode`. -/
def decodeGroups (expected : ℕ) : List UInt8 → CStr → List UInt8
  | dst, s₀ :: s₁ :: s₂ :: s₃ :: src =>
    let triple := joinDigits (base64Val s₀).toUInt32 (base64Val s₁).toUInt32 (digitOrZero s₂)
      (digitOrZero s₃)
    let dst := store expected dst (byteAt triple 16)
    let dst := store expected dst (byteAt triple 8)
    let dst := store expected dst (byteAt triple 0)
    decodeGroups expected dst src
  | dst, _ => dst

/-- `padding`. -/
def padding (src : CStr) : ℕ :=
  (if src.getLast? = some 61 then 1 else 0) + (if src.dropLast.getLast? = some 61 then 1 else 0)

/-- `expected`, which wraps for a text without a group. -/
def expected (src : CStr) : ℕ :=
  if padding src ≤ src.length / 4 * 3 then src.length / 4 * 3 - padding src
  else 2 ^ 32 - (padding src - src.length / 4 * 3)

/-- `base64_decode`: the bytes that are stored. -/
def base64Decode (src : CStr) : List UInt8 := decodeGroups (expected src) [] src

/-! ### Keys and blocks -/

/-- The functions of secp256k1 and mbedTLS. -/
structure Crypto (Pubkey : Type) where
  /-- `secp256k1_ec_pubkey_parse`. -/
  ecPubkeyParse : List UInt8 → Option Pubkey
  /-- `secp256k1_ecdh`. -/
  ecdh : (Vector UInt8 32 → Vector UInt8 32 → Vector UInt8 32) → Pubkey → Vector UInt8 32 →
    Vector UInt8 32
  /-- `mbedtls_aes_crypt_cbc` with `MBEDTLS_AES_ENCRYPT` on whole blocks. -/
  encryptCbc : Vector UInt8 32 → List UInt8 → List UInt8 → List UInt8
  /-- With `MBEDTLS_AES_DECRYPT`. -/
  decryptCbc : Vector UInt8 32 → List UInt8 → List UInt8 → List UInt8

/-- `ecdh_xonly_hash`. -/
def ecdhXonlyHash (x _y : Vector UInt8 32) : Vector UInt8 32 := x

/-- `pkcs7_pad`. -/
def pkcs7Pad (buf : List UInt8) (blockSize : ℕ) : List UInt8 :=
  let pad := blockSize - buf.length % blockSize
  buf ++ List.replicate pad (UInt8.ofNat pad)

/-- `pkcs7_unpad`. -/
def pkcs7Unpad (buf : List UInt8) : ℕ :=
  match buf.getLast? with
  | none => 0
  | some pad =>
    if pad = 0 ∨ 16 < pad then 0
    else if (buf.drop (buf.length - pad.toNat)).all (· = pad) then buf.length - pad.toNat
    else 0

/-- What `nip04_decrypt` writes and returns. -/
structure Decrypted where
  /-- So many bytes of `combined` are written. -/
  combined : ℕ
  /-- So many bytes of `ct` are written. -/
  ct : ℕ
  ret : Int32
  /-- The string in `plaintext`, if it is written. -/
  plaintext : Option CStr
deriving DecidableEq

/-- The writes are inside of the 4112 bytes of `combined` and the 4096 bytes of `ct`. -/
def Decrypted.InBuffers (d : Decrypted) : Prop := d.combined ≤ 4112 ∧ d.ct ≤ 4096

namespace Crypto

variable {Pubkey : Type} (c : Crypto Pubkey)

/-- `compute_shared_secret`; `none` is `NULL`. -/
def computeSharedSecret (privkey pubkey32 : Option (Vector UInt8 32)) : Vector UInt8 32 :=
  match privkey, pubkey32 with
  | some privkey, some pubkey32 =>
    match c.ecPubkeyParse (2 :: pubkey32.toList) with
    | none => Vector.replicate 32 0
    | some pk => c.ecdh ecdhXonlyHash pk privkey
  | _, _ => Vector.replicate 32 0

/-- `nip04_encrypt`: the text in base64. -/
def nip04Encrypt (senderPrivkey recipientPubkey : Option (Vector UInt8 32)) (plaintext : CStr)
    (iv : Vector UInt8 16) : CStr :=
  let sharedSecret := c.computeSharedSecret senderPrivkey recipientPubkey
  let padded := c.encryptCbc sharedSecret iv.toList (pkcs7Pad plaintext 16)
  base64Encode (iv.toList ++ padded)

/-- `nip04_decrypt`. -/
def nip04Decrypt (recipientPrivkey senderPubkey : Option (Vector UInt8 32))
    (ciphertextBase64 : CStr) (plaintextMax : ℕ) : Decrypted :=
  let sharedSecret := c.computeSharedSecret recipientPrivkey senderPubkey
  let combined := base64Decode ciphertextBase64
  if combined.length < 32 then ⟨combined.length, 0, -1, none⟩
  else
    let iv := combined.take 16
    let ct := combined.drop 16
    -- AES refuses what has no whole number of blocks, and leaves it
    let ct := if ct.length % 16 = 0 then c.decryptCbc sharedSecret iv ct else ct
    let ptLen := pkcs7Unpad ct
    if ptLen = 0 ∨ plaintextMax ≤ ptLen then ⟨combined.length, combined.length - 16, -1, none⟩
    else ⟨combined.length, combined.length - 16, Int32.ofNat ptLen, some (ct.take ptLen)⟩

/-- Decryption inverts encryption under the same key and vector, and encryption keeps the
length. -/
def Inverts : Prop :=
  ∀ key (iv : Vector UInt8 16) data, data.length % 16 = 0 →
    (c.encryptCbc key iv.toList data).length = data.length ∧
      c.decryptCbc key iv.toList (c.encryptCbc key iv.toList data) = data

end Crypto

/-! ### The decoder -/

theorem letter_digit : ∀ d < 64, (base64Val (base64Table.getD d 0)).toUInt32 = UInt32.ofNat d ∧
    base64Table.getD d 0 ≠ 61 := by
  decide

/-- A letter stands for its digit. -/
theorem base64Val_letter {d : UInt32} (h : d.toNat < 64) :
    (base64Val (letter d)).toUInt32 = d ∧ letter d ≠ 61 := by
  obtain ⟨hval, hne⟩ := letter_digit d.toNat h
  refine ⟨hval.trans ?_, hne⟩
  exact UInt32.ofNat_toNat

theorem digitOrZero_letter {d : UInt32} (h : d.toNat < 64) : digitOrZero (letter d) = d := by
  obtain ⟨hval, hne⟩ := base64Val_letter h
  rw [digitOrZero, if_pos hne, hval]

theorem length_store {e : ℕ} {dst : List UInt8} (h : dst.length ≤ e) (b : UInt8) :
    (store e dst b).length = min e (dst.length + 1) := by
  unfold store
  split
  · rw [List.length_append, List.length_singleton]
    omega
  · omega

/-- The loop stores three bytes for each group, as far as expected. -/
theorem length_decodeGroups {e : ℕ} (dst : List UInt8) (src : CStr) (h : dst.length ≤ e) :
    (decodeGroups e dst src).length = min e (dst.length + 3 * (src.length / 4)) := by
  induction dst, src using decodeGroups.induct e with
  | case1 dst s₀ s₁ s₂ s₃ src triple dst₁ dst₂ dst₃ ih =>
    have h₁ : dst₁.length = _ := length_store h _
    have h₂ : dst₂.length = _ := @length_store e dst₁ (by omega) _
    have h₃ : dst₃.length = _ := @length_store e dst₂ (by omega) _
    rw [decodeGroups]
    refine (ih (by omega)).trans ?_
    simp only [List.length_cons]
    omega
  | case2 src dst hshort =>
    -- what is left is no group
    have hlast : src.length < 4 := by
      rcases src with _ | ⟨s₀, _ | ⟨s₁, _ | ⟨s₂, _ | ⟨s₃, src⟩⟩⟩⟩
      · exact Nat.zero_lt_succ _
      · exact Nat.lt_of_sub_eq_succ rfl
      · exact Nat.lt_of_sub_eq_succ rfl
      · exact Nat.lt_of_sub_eq_succ rfl
      · exact (hshort s₀ s₁ s₂ s₃ src rfl).elim
    rw [decodeGroups.eq_2 e dst src hshort, Nat.div_eq_of_lt hlast]
    omega

theorem padding_le_two (src : CStr) : padding src ≤ 2 := by
  unfold padding
  split
  · split
    · exact le_refl 2
    · exact Nat.le_succ 1
  · split
    · exact Nat.le_succ 1
    · exact Nat.zero_le 2

/-- The decoder stores what it expects, and nothing from less than a group. -/
theorem length_base64Decode (src : CStr) :
    (base64Decode src).length = src.length / 4 * 3 - padding src := by
  have hpad := padding_le_two src
  rw [base64Decode, length_decodeGroups _ _ (Nat.zero_le _), expected, List.length_nil]
  split
  · omega
  · omega

/-- What is decoded is written to `combined`, and all but the vector to `ct`. -/
theorem writes_nip04Decrypt {Pubkey : Type} (c : Crypto Pubkey)
    (privkey pubkey : Option (Vector UInt8 32)) (text : CStr) (max : ℕ) :
    (c.nip04Decrypt privkey pubkey text max).combined = (base64Decode text).length ∧
      (c.nip04Decrypt privkey pubkey text max).ct ≤ (base64Decode text).length - 16 := by
  unfold Crypto.nip04Decrypt
  by_cases hshort : (base64Decode text).length < 32
  · rw [if_pos hshort]
    exact ⟨rfl, Nat.zero_le _⟩
  · rw [if_neg hshort]
    dsimp only
    generalize pkcs7Unpad _ = ptLen
    split
    · exact ⟨rfl, le_refl _⟩
    · exact ⟨rfl, le_refl _⟩

/-- **Which texts keep the buffers.** -/
theorem inBuffers_iff {Pubkey : Type} (c : Crypto Pubkey)
    (privkey pubkey : Option (Vector UInt8 32)) (text : CStr) (max : ℕ) :
    (c.nip04Decrypt privkey pubkey text max).InBuffers ↔
      text.length < 5484 ∨ text.length < 5488 ∧ 0 < padding text := by
  obtain ⟨hcombined, hct⟩ := writes_nip04Decrypt c privkey pubkey text max
  have hpad := padding_le_two text
  have hlength := length_base64Decode text
  unfold Decrypted.InBuffers
  rw [hcombined]
  constructor
  · rintro ⟨hfits, -⟩
    omega
  · intro hshort
    -- so many groups are 4113 bytes less the padding
    have hfits : (base64Decode text).length ≤ 4112 := by omega
    exact ⟨hfits, by omega⟩

/-! ### The round trip -/

/-- Bytes are stored as far as expected. -/
theorem foldl_store (e : ℕ) (dst bs : List UInt8) :
    bs.foldl (store e) dst = dst ++ bs.take (e - dst.length) := by
  induction bs generalizing dst with
  | nil => rw [List.foldl_nil, List.take_nil, List.append_nil]
  | cons b bs ih =>
    rw [List.foldl_cons, ih, store]
    split
    · next hlt =>
      have hmore : e - dst.length = e - (dst ++ [b]).length + 1 := by
        rw [List.length_append, List.length_singleton]
        omega
      rw [hmore, List.take_succ_cons, List.append_assoc, List.singleton_append]
    · next hge =>
      rw [Nat.sub_eq_zero_of_le (Nat.not_lt.mp hge), List.take_zero, List.take_zero]

/-- One pass of the loop, over digits that stand for three bytes. -/
theorem decodeGroups_group {e : ℕ} (dst : List UInt8) {s₀ s₁ s₂ s₃ : UInt8} (src : CStr)
    {a b c : UInt8} (h : joinDigits (base64Val s₀).toUInt32 (base64Val s₁).toUInt32
      (digitOrZero s₂) (digitOrZero s₃) = joinBytes a b c) :
    decodeGroups e dst (s₀ :: s₁ :: s₂ :: s₃ :: src) =
      decodeGroups e (dst ++ [a, b, c].take (e - dst.length)) src := by
  obtain ⟨hhigh, hmiddle, hlow⟩ := byteAt_joinBytes a b c
  rw [decodeGroups, h, hhigh, hmiddle, hlow, ← foldl_store]
  rfl

/-- The letters of three bytes stand for them. -/
theorem joinDigits_letters {a b c s₂ s₃ : UInt8}
    (h₂ : digitOrZero s₂ = digitAt (joinBytes a b c) 6)
    (h₃ : digitOrZero s₃ = digitAt (joinBytes a b c) 0) :
    joinDigits (base64Val (letter (digitAt (joinBytes a b c) 18))).toUInt32
      (base64Val (letter (digitAt (joinBytes a b c) 12))).toUInt32
      (digitOrZero s₂) (digitOrZero s₃) = joinBytes a b c := by
  have h18 : (digitAt (joinBytes a b c) 18).toNat < 64 := digitAt_lt _ (k := 18) (by omega)
  have h12 : (digitAt (joinBytes a b c) 12).toNat < 64 := digitAt_lt _ (k := 12) (by omega)
  rw [(base64Val_letter h18).1, (base64Val_letter h12).1, h₂, h₃]
  exact joinDigits_digitAt (joinBytes_lt a b c)

theorem digitOrZero_letter_digitAt (triple : UInt32) {k : ℕ} (hk : k < 32) :
    digitOrZero (letter (digitAt triple (UInt32.ofNat k))) = digitAt triple (UInt32.ofNat k) :=
  digitOrZero_letter (digitAt_lt triple hk)

/-- **The decoder reads what the encoder wrote.** -/
theorem decodeGroups_base64Encode {e : ℕ} (dst src : List UInt8)
    (h : dst.length + src.length = e) : decodeGroups e dst (base64Encode src) = dst ++ src := by
  have hroom : e - dst.length = src.length := by omega
  -- as the encoder goes, with room for exactly the bytes that are left
  induction src using base64Encode.induct generalizing dst with
  | case1 => exact (List.append_nil dst).symm
  | case2 a =>
    have hlast : digitOrZero 61 = _ := (digitAt_of_missing a 0).1.symm
    have hthird : digitOrZero 61 = _ := (digitAt_of_missing a 0).2.symm
    have hgroup := joinDigits_letters hthird hlast
    rw [base64Encode, decodeGroups_group dst [] hgroup, hroom]
    rfl
  | case3 a b =>
    have hlast : digitOrZero 61 = _ := (digitAt_of_missing a b).1.symm
    have hthird : digitOrZero (letter (digitAt (joinBytes a b 0) 6)) = _ :=
      digitOrZero_letter_digitAt _ (k := 6) (by omega)
    have hgroup := joinDigits_letters hthird hlast
    rw [base64Encode, decodeGroups_group dst [] hgroup, hroom]
    rfl
  | case4 a b c src ih =>
    have hthird : digitOrZero (letter (digitAt (joinBytes a b c) 6)) = _ :=
      digitOrZero_letter_digitAt _ (k := 6) (by omega)
    have hlast : digitOrZero (letter (digitAt (joinBytes a b c) 0)) = _ :=
      digitOrZero_letter_digitAt _ (k := 0) (by omega)
    have hgroup := joinDigits_letters hthird hlast
    rw [base64Encode, decodeGroups_group dst _ hgroup, hroom]
    have hall : [a, b, c].take (a :: b :: c :: src).length = [a, b, c] :=
      List.take_of_length_le (Nat.le_add_left 3 src.length)
    have hlength : (dst ++ [a, b, c]).length + src.length = e := by
      rw [← h, List.length_append, Nat.add_assoc, ← List.length_append]
      rfl
    rw [hall, ih (dst ++ [a, b, c]) hlength (by omega), List.append_assoc]
    rfl

/-- The signs at the end are those of the last two characters. -/
theorem padding_append (front : CStr) {tail : CStr} (h : 2 ≤ tail.length) :
    padding (front ++ tail) = padding tail := by
  have hne : tail ≠ [] := List.ne_nil_of_length_pos (by omega)
  have hne' : tail.dropLast ≠ [] := by
    apply List.ne_nil_of_length_pos
    rw [List.length_dropLast]
    omega
  unfold padding
  rw [List.dropLast_append_of_ne_nil hne, List.getLast?_append_of_ne_nil _ hne,
    List.getLast?_append_of_ne_nil _ hne']

theorem padding_of_not_mem {src : CStr} (h : 61 ∉ src) : padding src = 0 := by
  have hlast : src.getLast? ≠ some 61 := fun hlast => h (List.mem_of_getLast? hlast)
  have hbefore : src.dropLast.getLast? ≠ some 61 :=
    fun hbefore => h (List.mem_of_mem_dropLast (List.mem_of_getLast? hbefore))
  rw [padding, if_neg hlast, if_neg hbefore]

theorem padding_group (s₀ s₁ s₂ s₃ : UInt8) :
    padding [s₀, s₁, s₂, s₃] = (if s₃ = 61 then 1 else 0) + (if s₂ = 61 then 1 else 0) := by
  show (if some s₃ = some 61 then 1 else 0) + (if some s₂ = some 61 then 1 else 0) = _
  simp only [Option.some.injEq]

theorem letter_ne_sign (triple : UInt32) {k : ℕ} (hk : k < 32) :
    letter (digitAt triple (UInt32.ofNat k)) ≠ 61 :=
  (base64Val_letter (digitAt_lt triple hk)).2

/-- The text has a group for three bytes, and a sign for each byte that the last one lacks. -/
theorem length_base64Encode (src : List UInt8) :
    (base64Encode src).length = 4 * ((src.length + 2) / 3) ∧
      padding (base64Encode src) = (3 - src.length % 3) % 3 := by
  induction src using base64Encode.induct with
  | case1 => exact ⟨rfl, rfl⟩
  | case2 a =>
    rw [base64Encode, padding_group, if_pos rfl]
    exact ⟨by simp, by simp⟩
  | case3 a b =>
    have hthird : letter (digitAt (joinBytes a b 0) 6) ≠ 61 := letter_ne_sign _ (k := 6) (by omega)
    rw [base64Encode, padding_group, if_pos rfl, if_neg hthird]
    exact ⟨by simp, by simp⟩
  | case4 a b c src ih =>
    have hthird : letter (digitAt (joinBytes a b c) 6) ≠ 61 := letter_ne_sign _ (k := 6) (by omega)
    have hlast : letter (digitAt (joinBytes a b c) 0) ≠ 61 := letter_ne_sign _ (k := 0) (by omega)
    obtain ⟨hlength, hpad⟩ := ih
    rw [base64Encode]
    refine ⟨?_, ?_⟩
    · simp only [List.length_cons]
      omega
    · -- the signs are in the last group, be it this one or a later one
      rcases src with _ | ⟨d, src⟩
      · show padding [_, _, _, _] = _
        rw [padding_group, if_neg hlast, if_neg hthird]
        simp
      · have htail : 2 ≤ (base64Encode (d :: src)).length := by
          rw [List.length_cons] at hlength
          omega
        refine (padding_append [_, _, _, _] htail).trans (hpad.trans ?_)
        simp only [List.length_cons]
        omega

/-- **The codec is a round trip.** -/
theorem base64Decode_base64Encode (src : List UInt8) : base64Decode (base64Encode src) = src := by
  obtain ⟨hlength, hpad⟩ := length_base64Encode src
  have hexpected : expected (base64Encode src) = src.length := by
    rw [expected, hlength, hpad]
    split
    · omega
    · omega
  have hgroups := decodeGroups_base64Encode [] src (Nat.zero_add src.length)
  rw [base64Decode, hexpected]
  exact hgroups

/-! ### The writes of the encoder -/

theorem drop_eq_getD_cons {src : List UInt8} {i : ℕ} (hi : i < src.length) :
    src.drop i = src.getD i 0 :: src.drop (i + 1) := by
  rw [List.drop_eq_getElem_cons hi, List.getD_eq_getElem _ _ hi]

/-- A turn writes the first letters of what is left, with signs where no byte is left. -/
theorem encodeTurn_eq {src : List UInt8} {i : ℕ} (hi : i < src.length) :
    ∃ letters : CStr, letters.length = 4 ∧
      base64Encode (src.drop i) = letters ++ base64Encode (src.drop (i + 3)) ∧
      ∀ j dst, encodeTurn src i j dst = Memory.writeAt dst j letters := by
  rw [drop_eq_getD_cons hi]
  unfold encodeTurn
  -- three bytes are left, or two, or one
  by_cases hsecond : i + 1 < src.length
  · rw [drop_eq_getD_cons hsecond]
    by_cases hthird : i + 2 < src.length
    · rw [drop_eq_getD_cons hthird, base64Encode]
      simp only [if_pos hsecond, if_pos hthird]
      exact ⟨[_, _, _, _], rfl, rfl, fun _ _ => rfl⟩
    · rw [List.drop_eq_nil_of_le (Nat.le_of_not_lt hthird),
        List.drop_eq_nil_of_le (i := i + 3) (by omega), base64Encode]
      simp only [if_pos hsecond, if_neg hthird]
      exact ⟨[_, _, _, _], rfl, rfl, fun _ _ => rfl⟩
  · have hthird : ¬ i + 2 < src.length := by omega
    rw [List.drop_eq_nil_of_le (Nat.le_of_not_lt hsecond),
      List.drop_eq_nil_of_le (i := i + 3) (by omega), base64Encode]
    simp only [if_neg hsecond, if_neg hthird]
    exact ⟨[_, _, _, _], rfl, rfl, fun _ _ => rfl⟩

/-- The loop writes the text of what is left, and the terminator. -/
theorem encodeLoop_eq (src : List UInt8) (i j : ℕ) (dst : ℕ → UInt8) :
    encodeLoop src i j dst = (Memory.writeAt dst j (base64Encode (src.drop i) ++ [0]),
      j + (base64Encode (src.drop i)).length) := by
  induction i, j, dst using encodeLoop.induct src with
  | case1 i j dst hi ih =>
    -- this turn writes the first group, and the others the rest
    obtain ⟨letters, hfour, hdrop, hturn⟩ := encodeTurn_eq hi
    rw [encodeLoop, if_pos hi, ih, hdrop, hturn, List.append_assoc,
      Memory.writeAt_append dst j letters, List.length_append, ← Nat.add_assoc, hfour]
  | case2 i j dst hi =>
    rw [encodeLoop, if_neg hi, List.drop_eq_nil_of_le (Nat.le_of_not_lt hi)]
    rfl

theorem base64EncodeTo_eq (src : List UInt8) (dst : ℕ → UInt8) :
    base64EncodeTo src dst =
      (Memory.writeAt dst 0 (base64Encode src ++ [0]), (base64Encode src).length) := by
  rw [base64EncodeTo, encodeLoop_eq, List.drop_zero, Nat.zero_add]

theorem letter_ne_zero (triple shift : UInt32) : 0 ≠ letter (digitAt triple shift) := by
  have htable : ∀ d < 64, 0 ≠ base64Table.getD d 0 := by decide
  refine htable _ ?_
  rw [digitAt, UInt32.toNat_and]
  exact Nat.and_lt_two_pow _ (n := 6) (by decide)

/-- The terminator is no letter and no sign. -/
theorem zero_notMem_base64Encode (src : List UInt8) : 0 ∉ base64Encode src := by
  induction src using base64Encode.induct with
  | case1 => exact List.not_mem_nil
  | case2 a => simp [base64Encode, letter_ne_zero]
  | case3 a b => simp [base64Encode, letter_ne_zero]
  | case4 a b c src ih => simp [base64Encode, letter_ne_zero, ih]

/-- **The codec in memory.** The encoder writes four letters for every three bytes that are begun,
and the terminator, and nothing behind it. From the letters the decoder gives the bytes back. -/
theorem base64Decode_base64EncodeTo (src : List UInt8) (dst : ℕ → UInt8) :
    let (text, len) := base64EncodeTo src dst
    len = 4 * (src.length ⌈/⌉ 3) ∧ (∀ k < len, text k ≠ 0) ∧ text len = 0 ∧
      (∀ k, len < k → text k = dst k) ∧
      base64Decode (Memory.readAt text 0 len) = src ∧
      (base64Decode (Memory.readAt text 0 len)).length = src.length := by
  rw [base64EncodeTo_eq]
  have hread := Memory.readAt_writeAt dst 0 (base64Encode src) [0]
  have hend := Memory.writeAt_append_cons dst 0 (base64Encode src) 0 []
  rw [Nat.zero_add] at hend
  refine ⟨?_, fun k hk hzero => ?_, hend, fun k hk => ?_, ?_, ?_⟩
  · rw [Nat.ceilDiv_eq_add_pred_div]
    exact (length_base64Encode src).1
  · -- the letters are what is read
    have hmem := Memory.mem_readAt (Memory.writeAt dst 0 (base64Encode src ++ [0])) 0 hk
    rw [hread, Nat.zero_add, hzero] at hmem
    exact zero_notMem_base64Encode src hmem
  · refine Memory.writeAt_of_le dst ?_
    rw [List.length_append, List.length_singleton, Nat.zero_add]
    exact hk
  · rw [hread, base64Decode_base64Encode]
  · rw [hread, base64Decode_base64Encode]

/-- What is padded has whole blocks, with the bytes that the pad says at the end. -/
theorem length_pkcs7Pad (buf : List UInt8) :
    (pkcs7Pad buf 16).length = buf.length + (16 - buf.length % 16) := by
  rw [pkcs7Pad, List.length_append, List.length_replicate]

/-- **Unpadding undoes padding.** -/
theorem pkcs7Unpad_pkcs7Pad (buf : List UInt8) : pkcs7Unpad (pkcs7Pad buf 16) = buf.length := by
  have hlength := length_pkcs7Pad buf
  -- between one byte and a whole block
  obtain ⟨pad, hpad⟩ : ∃ pad, pad = 16 - buf.length % 16 := ⟨_, rfl⟩
  have hpos : 0 < pad := by omega
  have hle : pad ≤ 16 := by omega
  have hnat : (UInt8.ofNat pad).toNat = pad :=
    UInt8.toNat_ofNat_of_lt' (lt_of_le_of_lt hle (by decide))
  have hpadded : pkcs7Pad buf 16 = buf ++ List.replicate pad (UInt8.ofNat pad) := by
    rw [pkcs7Pad, hpad]
  have hlast : (pkcs7Pad buf 16).getLast? = some (UInt8.ofNat pad) := by
    rw [hpadded, List.getLast?_append, List.getLast?_replicate, if_neg (by omega)]
    rfl
  have hrange : ¬(UInt8.ofNat pad = 0 ∨ 16 < UInt8.ofNat pad) := by
    rw [← UInt8.toNat_inj, UInt8.lt_iff_toNat_lt, hnat]
    show ¬(pad = 0 ∨ 16 < pad)
    omega
  have hdata : (pkcs7Pad buf 16).length - pad = buf.length := by omega
  have htail : (pkcs7Pad buf 16).drop buf.length = List.replicate pad (UInt8.ofNat pad) := by
    rw [hpadded, List.drop_left]
  have hall : (List.replicate pad (UInt8.ofNat pad)).all (· = UInt8.ofNat pad) = true := by
    rw [List.all_replicate]
    simp
  rw [pkcs7Unpad, hlast]
  dsimp only
  rw [if_neg hrange, hnat, hdata, htail, if_pos hall]

section RoundTrip

variable {Pubkey : Type} {c : Crypto Pubkey}
  {senderPrivkey recipientPubkey recipientPrivkey senderPubkey : Option (Vector UInt8 32)}

/-- The buffers of `nip04_encrypt` hold what is below 4096 bytes. -/
theorem length_pkcs7Pad_le {plaintext : CStr} (h : plaintext.length < 4096) :
    (pkcs7Pad plaintext 16).length ≤ 4096 := by
  rw [length_pkcs7Pad]
  omega

/-- What `nip04_decrypt` gives for what `nip04_encrypt` made. -/
theorem nip04Decrypt_nip04Encrypt (hc : c.Inverts)
    (hagree : c.computeSharedSecret senderPrivkey recipientPubkey =
      c.computeSharedSecret recipientPrivkey senderPubkey)
    (plaintext : CStr) (iv : Vector UInt8 16) (plaintextMax : ℕ) :
    c.nip04Decrypt recipientPrivkey senderPubkey
        (c.nip04Encrypt senderPrivkey recipientPubkey plaintext iv) plaintextMax =
      if plaintext.length = 0 ∨ plaintextMax ≤ plaintext.length then
        ⟨16 + (pkcs7Pad plaintext 16).length, (pkcs7Pad plaintext 16).length, -1, none⟩
      else ⟨16 + (pkcs7Pad plaintext 16).length, (pkcs7Pad plaintext 16).length,
        Int32.ofNat plaintext.length, some plaintext⟩ := by
  have hpadded := length_pkcs7Pad plaintext
  obtain ⟨hlength, hinv⟩ := hc (c.computeSharedSecret recipientPrivkey senderPubkey) iv
    (pkcs7Pad plaintext 16) (by omega)
  have hiv : iv.toList.length = 16 := Vector.length_toList
  unfold Crypto.nip04Encrypt Crypto.nip04Decrypt
  dsimp only
  rw [base64Decode_base64Encode, hagree]
  -- of the ciphertext only its length matters, and what it is decrypted to
  generalize c.encryptCbc _ iv.toList (pkcs7Pad plaintext 16) = ct at hlength hinv ⊢
  have htake : (iv.toList ++ ct).take 16 = iv.toList := List.take_left' hiv
  have hdrop : (iv.toList ++ ct).drop 16 = ct := List.drop_left' hiv
  have hcombined : (iv.toList ++ ct).length = 16 + (pkcs7Pad plaintext 16).length := by
    rw [List.length_append, hiv, hlength]
  have hprefix : (pkcs7Pad plaintext 16).take plaintext.length = plaintext := List.take_left
  have hblocks : ct.length % 16 = 0 := by omega
  rw [htake, hdrop, hcombined, if_neg (by omega), if_pos hblocks, hinv, pkcs7Unpad_pkcs7Pad,
    hprefix, Nat.add_sub_cancel_left]

end RoundTrip

/-- **Encrypted messages.** With keys that agree, the round trip gives a plaintext of up to 4080
bytes and its length exactly if the plaintext is not empty. The buffers are kept exactly for texts
of less than 1371 groups, or of 1371 with a sign among the last two characters. -/
theorem nip04_iff {Pubkey : Type} (c : Crypto Pubkey) (hc : c.Inverts) :
    (∀ senderPrivkey recipientPubkey recipientPrivkey senderPubkey : Option (Vector UInt8 32),
      c.computeSharedSecret senderPrivkey recipientPubkey =
        c.computeSharedSecret recipientPrivkey senderPubkey →
      ∀ (plaintext : CStr) (iv : Vector UInt8 16) (plaintextMax : ℕ),
        0 ∉ plaintext → plaintext.length ≤ 4080 → plaintext.length < plaintextMax →
        (((c.nip04Decrypt recipientPrivkey senderPubkey
            (c.nip04Encrypt senderPrivkey recipientPubkey plaintext iv) plaintextMax).ret.toInt =
              plaintext.length ∧
          (c.nip04Decrypt recipientPrivkey senderPubkey
            (c.nip04Encrypt senderPrivkey recipientPubkey plaintext iv) plaintextMax).plaintext =
              some plaintext) ↔ plaintext ≠ [])) ∧
    ∀ (recipientPrivkey senderPubkey : Option (Vector UInt8 32)) (text : CStr) (plaintextMax : ℕ),
      (c.nip04Decrypt recipientPrivkey senderPubkey text plaintextMax).InBuffers ↔
        text.length < 5484 ∨ text.length < 5488 ∧ 0 < padding text := by
  refine ⟨?_, fun recipientPrivkey senderPubkey text plaintextMax =>
    inBuffers_iff c recipientPrivkey senderPubkey text plaintextMax⟩
  intro senderPrivkey recipientPubkey recipientPrivkey senderPubkey hagree plaintext iv
    plaintextMax _ hlength hmax
  rw [nip04Decrypt_nip04Encrypt hc hagree]
  constructor
  · -- nothing is left of an empty plaintext, which counts as wrong padding
    rintro ⟨-, htext⟩ rfl
    rw [if_pos (Or.inl List.length_nil)] at htext
    exact Option.noConfusion rfl (heq_of_eq htext)
  · intro hne
    have hpos : plaintext.length ≠ 0 := fun hzero => hne (List.length_eq_zero_iff.mp hzero)
    rw [if_neg (by omega)]
    refine ⟨?_, rfl⟩
    show (Int32.ofNat plaintext.length).toInt = _
    rw [Int32.toInt_ofNat_of_lt (by omega)]

/-- A private key of Alice, and one of Bob. -/
def aliceSec : Vector UInt8 32 := Vector.replicate 32 1

def bobSec : Vector UInt8 32 := Vector.replicate 32 2

/-- The x-coordinates of their public keys. -/
def aliceXonly : Vector UInt8 32 :=
  #v[27, 132, 197, 86, 123, 18, 100, 64, 153, 93, 62, 213, 170, 186, 5, 101,
    215, 30, 24, 52, 96, 72, 25, 255, 156, 23, 245, 233, 213, 221, 7, 143]

def bobXonly : Vector UInt8 32 :=
  #v[77, 75, 108, 209, 54, 16, 50, 202, 155, 210, 174, 185, 217, 0, 170, 77,
    69, 217, 234, 216, 10, 201, 66, 51, 116, 196, 81, 167, 37, 77, 7, 102]

/-- Their shared point, whose other coordinate has the sign of the key that is used. -/
def sampleX : Vector UInt8 32 :=
  #v[208, 21, 138, 56, 250, 246, 17, 138, 241, 51, 175, 18, 217, 191, 163, 136,
    234, 180, 160, 141, 26, 32, 136, 234, 110, 110, 193, 38, 158, 3, 86, 127]

def sampleY : Vector UInt8 32 :=
  #v[8, 179, 174, 111, 107, 29, 162, 41, 74, 95, 236, 165, 134, 75, 245, 38,
    18, 98, 150, 82, 134, 5, 18, 56, 181, 180, 78, 60, 182, 160, 250, 153]

def sampleY' : Vector UInt8 32 :=
  #v[247, 76, 81, 144, 148, 226, 93, 214, 181, 160, 19, 90, 121, 180, 10, 217,
    237, 157, 105, 173, 121, 250, 237, 199, 74, 75, 177, 194, 73, 95, 1, 150]

def sampleIv : Vector UInt8 16 := #v[0, 1, 2, 3, 4, 5, 6, 7, 8, 9, 10, 11, 12, 13, 14, 15]

/-- A padded block, and the block of AES for it under `sampleX` and `sampleIv`. -/
def samplePlain : List UInt8 := cstr "Hello" ++ List.replicate 11 11

def sampleCipher : List UInt8 :=
  [248, 49, 143, 176, 185, 6, 118, 215, 100, 45, 18, 48, 235, 92, 122, 207]

/-- AES where it is known. -/
def sampleCbc (key : Vector UInt8 32) (iv data : List UInt8) : List UInt8 :=
  if key = sampleX ∧ iv = sampleIv.toList then Equiv.swap samplePlain sampleCipher data else data

/-- The libraries on these keys and this block. -/
def sampleCrypto : Crypto (List UInt8) where
  ecPubkeyParse key := some key
  ecdh hash pk privkey :=
    if privkey = aliceSec ∧ pk = 2 :: bobXonly.toList then hash sampleX sampleY
    else if privkey = bobSec ∧ pk = 2 :: aliceXonly.toList then hash sampleX sampleY'
    else hash (Vector.replicate 32 0) (Vector.replicate 32 0)
  encryptCbc := sampleCbc
  decryptCbc := sampleCbc

theorem sampleCrypto_inverts : sampleCrypto.Inverts := by
  intro key iv data _
  show (sampleCbc key iv.toList data).length = data.length ∧
    sampleCbc key iv.toList (sampleCbc key iv.toList data) = data
  have hlength : samplePlain.length = sampleCipher.length := by decide
  unfold sampleCbc
  split
  · refine ⟨?_, Equiv.swap_apply_self _ _ _⟩
    rw [Equiv.swap_apply_def]
    split
    · next hplain => rw [hplain, hlength]
    · split
      · next hcipher => rw [hcipher, hlength]
      · rfl
  · exact ⟨rfl, rfl⟩

/-- Alice writes to Bob. -/
theorem nip04_hello :
    sampleCrypto.nip04Encrypt (some aliceSec) (some bobXonly) (cstr "Hello") sampleIv =
      cstr "AAECAwQFBgcICQoLDA0OD/gxj7C5BnbXZC0SMOtces8=" ∧
    (sampleCrypto.nip04Decrypt (some bobSec) (some aliceXonly)
      (sampleCrypto.nip04Encrypt (some aliceSec) (some bobXonly) (cstr "Hello") sampleIv)
      256).ret.toInt = 5 ∧
    (sampleCrypto.nip04Decrypt (some bobSec) (some aliceXonly)
      (sampleCrypto.nip04Encrypt (some aliceSec) (some bobXonly) (cstr "Hello") sampleIv)
      256).plaintext = some (cstr "Hello") :=
  ⟨by decide, ((nip04_iff sampleCrypto sampleCrypto_inverts).1 (some aliceSec) (some bobXonly)
    (some bobSec) (some aliceXonly) (by decide) (cstr "Hello") sampleIv 256 (by decide) (by decide)
    (by decide)).mpr (by decide)⟩

/-- No plaintext comes back for an empty one, and 5484 letters overflow `combined`. -/
theorem nip04_empty_and_long :
    (sampleCrypto.nip04Decrypt (some bobSec) (some aliceXonly)
      (sampleCrypto.nip04Encrypt (some aliceSec) (some bobXonly) [] sampleIv) 256).ret = -1 ∧
    ¬(sampleCrypto.nip04Decrypt (some bobSec) (some aliceXonly)
      (List.replicate 5484 65) 256).InBuffers := by
  constructor
  · rw [nip04Decrypt_nip04Encrypt sampleCrypto_inverts (by decide), if_pos (Or.inl List.length_nil)]
  · have hpad : padding (List.replicate 5484 65) = 0 :=
      padding_of_not_mem fun h => absurd (List.eq_of_mem_replicate h) (by decide)
    rw [inBuffers_iff, List.length_replicate, hpad]
    omega

end Cvm

end TollGate
