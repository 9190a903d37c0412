import TollGate.EHash.Packet

/-!
# Corrupted packets

The checksum of `ehash_packet_calc_crc` is the CRC register of `Lib.Crc` with the
polynomial `0x1021`, started at `0xFFFF` (`toBitVec_calcCrc`): a byte is added to the
top of the register and shifted through, which is reading its eight bits. A stored
checksum agrees with the computed one exactly when the whole packet takes the
register to zero (`crc_agrees_iff`).

Errors that lie within sixteen consecutive bits of a packet and leave its length
field alone are therefore always noticed (`burst_detected`), for packets of any
length.
-/

namespace TollGate

namespace EHash

open Crc

/-! ### The checksum as a CRC register -/

/-- The polynomial of the checksum. -/
def crcPoly : BitVec 16 := 0x1021#16

/-- The start value of the checksum. -/
def crcInit : BitVec 16 := 0xFFFF#16

theorem toBitVec_crcBit (crc : UInt16) : (crcBit crc).toBitVec = shift crcPoly crc.toBitVec := by
  have hmask : (crc &&& 0x8000).toBitVec =
      if crc.toBitVec.msb then BitVec.twoPow 16 15 else 0#16 := by
    rw [BitVec.msb_eq_getLsbD_last]
    exact BitVec.and_twoPow crc.toBitVec 15
  unfold crcBit shift crcPoly
  cases hmsb : crc.toBitVec.msb with
  | true =>
    have hset : crc &&& 0x8000 ≠ 0 := by
      intro h
      rw [h, hmsb] at hmask
      exact absurd hmask (by decide)
    rw [if_pos hset, if_pos rfl]
    rfl
  | false =>
    have hclear : crc &&& 0x8000 = 0 := by
      rw [hmsb] at hmask
      exact UInt16.toBitVec_inj.mp hmask
    rw [if_neg (not_not.mpr hclear), if_neg Bool.false_ne_true]
    rfl

theorem toBitVec_iterate_crcBit (n : ℕ) (crc : UInt16) :
    (crcBit^[n] crc).toBitVec = (shift crcPoly)^[n] crc.toBitVec := by
  induction n generalizing crc with
  | zero => rfl
  | succ n ih => rw [Function.iterate_succ_apply, Function.iterate_succ_apply, ih, toBitVec_crcBit]

/-- The word of two bytes holds their bits in order. -/
theorem topBits_ofBe16 (a b : UInt8) :
    topBits 16 (bitsOf [a, b]) = (ofBe16 a b).toBitVec := by
  have hbits : bitsOf [a, b] = bitsOfByte a ++ bitsOfByte b := by simp [bitsOf]
  have hword : (ofBe16 a b).toBitVec =
      a.toBitVec.setWidth 16 <<< 8 ||| b.toBitVec.setWidth 16 := rfl
  apply BitVec.eq_of_getMsbD_eq
  intro k hk
  rw [getMsbD_topBits _ hk, hbits, hword]
  by_cases hfirst : k < 8
  · rw [List.getD_append _ _ _ _ (by simpa using hfirst), getD_bitsOfByte]
    simp [BitVec.getMsbD_setWidth, hfirst]
  · rw [List.getD_append_right _ _ _ _ (by simpa using hfirst), getD_bitsOfByte]
    simp [BitVec.getMsbD_setWidth, Nat.le_of_not_lt hfirst]

theorem topBits_bitsOfByte (b : UInt8) :
    topBits 16 (bitsOfByte b) = (b.toUInt16 <<< 8).toBitVec := by
  have hword : (b.toUInt16 <<< 8).toBitVec = b.toBitVec.setWidth 16 <<< 8 := rfl
  apply BitVec.eq_of_getMsbD_eq
  intro k hk
  rw [getMsbD_topBits _ hk, getD_bitsOfByte, hword, BitVec.getMsbD_shiftLeft,
    BitVec.getMsbD_setWidth]
  simp

theorem toBitVec_crcByte (crc : UInt16) (b : UInt8) :
    (crcByte crc b).toBitVec = feedBits crcPoly crc.toBitVec (bitsOfByte b) := by
  rw [feedBits_eq_iterate _ (by simp), topBits_bitsOfByte, length_bitsOfByte]
  exact toBitVec_iterate_crcBit 8 _

/-- **The checksum is the register after all bits.** -/
theorem toBitVec_calcCrc (bytes : List UInt8) :
    (calcCrc bytes).toBitVec = feedBits crcPoly crcInit (bitsOf bytes) := by
  have hfold : ∀ crc : UInt16, (bytes.foldl crcByte crc).toBitVec =
      feedBits crcPoly crc.toBitVec (bitsOf bytes) := by
    induction bytes with
    | nil => exact fun crc => rfl
    | cons b bytes ih =>
      intro crc
      rw [List.foldl_cons, ih, toBitVec_crcByte, bitsOf_cons, feedBits_append]
  exact hfold 0xFFFF

/-- The stored checksum agrees exactly when the register ends at zero. -/
theorem crc_agrees_iff (region : List UInt8) (a b : UInt8) :
    calcCrc region = ofBe16 a b ↔
      feedBits crcPoly crcInit (bitsOf (region ++ [a, b])) = 0#16 := by
  rw [bitsOf_append, feedBits_codeword (by decide) _ _ _ (by simp), topBits_ofBe16,
    ← toBitVec_calcCrc, UInt16.toBitVec_inj]

/-! ### Errors -/

/-- The received bytes: the sent ones with some bits flipped. -/
def corrupt (bytes error : List UInt8) : List UInt8 := List.zipWith (· ^^^ ·) bytes error

@[simp] theorem length_corrupt {bytes error : List UInt8} (hlen : error.length = bytes.length) :
    (corrupt bytes error).length = bytes.length := by
  rw [corrupt, List.length_zipWith, hlen, min_self]

/-- A byte of the error that is zero leaves the byte at its place alone. -/
theorem getD_corrupt {bytes error : List UInt8} (hlen : error.length = bytes.length) {i : ℕ}
    (h : error.getD i 0 = 0) : (corrupt bytes error).getD i 0 = bytes.getD i 0 := by
  by_cases hi : i < bytes.length
  · have hi' : i < error.length := hlen ▸ hi
    rw [List.getD_eq_getElem _ _ hi'] at h
    rw [List.getD_eq_getElem _ _ ((length_corrupt hlen).symm ▸ hi), List.getD_eq_getElem _ _ hi]
    simp only [corrupt, List.getElem_zipWith, h, UInt8.xor_zero]
  · rw [List.getD_eq_default _ _ (by rw [length_corrupt hlen]; omega),
      List.getD_eq_default _ _ (by omega)]

/-- The bytes take the register to zero. -/
def Codeword (bytes : List UInt8) : Prop := feedBits crcPoly crcInit (bitsOf bytes) = 0#16

theorem codeword_wire (m : Message) : Codeword m.wire := by
  have h := (crc_agrees_iff m.region (calcCrc m.region >>> 8).toUInt8 (calcCrc m.region).toUInt8).mp
    (ofBe16_be16 (calcCrc m.region)).symm
  exact h

/-- A burst takes a codeword to something else. -/
theorem not_codeword_corrupt {bytes error : List UInt8} (h : Codeword bytes)
    (hlen : error.length = bytes.length) (hone : true ∈ bitsOf error)
    (hburst : Within 16 (bitsOf error)) : ¬ Codeword (corrupt bytes error) := by
  intro hcode
  unfold Codeword corrupt at hcode
  -- the register of the sum is the sum of the registers, and the first one is zero
  have hbits : (bitsOf bytes).length = (bitsOf error).length := by
    rw [length_bitsOf, length_bitsOf, hlen]
  have hsum : feedBits crcPoly (crcInit ^^^ 0#16)
      (List.zipWith xor (bitsOf bytes) (bitsOf error)) =
        feedBits crcPoly crcInit (bitsOf bytes) ^^^ feedBits crcPoly 0#16 (bitsOf error) :=
    feedBits_xor crcInit 0#16 hbits
  rw [BitVec.xor_zero, ← bitsOf_xor hlen.symm, hcode, h, BitVec.zero_xor] at hsum
  exact feedBits_burst_ne_zero (by decide) hone hburst hsum.symm

/-! ### Packets on the wire -/

/-- The length field stands at the bytes 7 and 8. -/
theorem payloadLen_eq_getD (m : Message) (rest : List UInt8) :
    m.payloadLen = ofBe16 ((m.wire ++ rest).getD 7 0) ((m.wire ++ rest).getD 8 0) :=
  (ofBe16_be16 m.payloadLen).symm

/-- Messages with the same length field are equally long. -/
theorem size_eq_of_payloadLen_eq {m m' : Message} (h : m.payloadLen = m'.payloadLen) :
    m.size = m'.size := by
  rw [← m.size_eq, ← m'.size_eq, h]

/-- **Bursts of errors are noticed.** Take any packet `pack` wrote, flip any of its bits
that lie within sixteen consecutive ones, header, payload and checksum taken as one
string, and leave the two bytes of the length field alone: `unpack` does not accept
what is received, whatever follows it in the buffer. -/
theorem burst_detected {msgType hopCount maxHops : UInt8} {senderId : UInt32}
    {payload : Option (List UInt8)} {payloadLen : UInt16} {buf out : List UInt8} {n : ℕ}
    (hpack : pack msgType hopCount maxHops senderId payload payloadLen (some buf) = .ok (out, n))
    (hpayload : payloadLen.toNat ≤ (payload.getD []).length)
    {error : List UInt8} (hlen : error.length = n) (hone : true ∈ bitsOf error)
    (hburst : Within 16 (bitsOf error)) (hfield : error.getD 7 0 = 0 ∧ error.getD 8 0 = 0)
    (rest : List UInt8) :
    ∃ e, unpack (some (corrupt (out.take n) error ++ rest)) = .error e := by
  obtain ⟨m, -, hwire, rfl⟩ := exists_message_of_pack hpack hpayload
  rw [hwire]
  have herror : error.length = m.wire.length := by rw [hlen, Message.length_wire]
  cases hread : unpack (some (corrupt m.wire error ++ rest)) with
  | error e => exact ⟨e, rfl⟩
  | ok p =>
    obtain ⟨m', rest', hbytes, -⟩ := unpack_eq_ok_iff.mp hread
    have hlong : 8 < (corrupt m.wire error).length := by
      rw [length_corrupt herror, Message.length_wire]
      unfold Message.size minPacketSize headerSize
      omega
    have hfront : ∀ i ≤ 8, (m'.wire ++ rest').getD i 0 = (corrupt m.wire error).getD i 0 := by
      intro i hi
      rw [← hbytes, List.getD_append _ _ _ _ (by omega)]
    -- the length field arrives as it was sent, so the message read is as long as the sent one
    have hsame : m'.payloadLen = m.payloadLen := by
      rw [payloadLen_eq_getD m' rest', hfront 7 (by omega), hfront 8 (by omega),
        getD_corrupt herror hfield.1, getD_corrupt herror hfield.2, payloadLen_eq_getD m [],
        List.append_nil]
    have hsize : (corrupt m.wire error).length = m'.wire.length := by
      rw [length_corrupt herror, Message.length_wire, Message.length_wire,
        size_eq_of_payloadLen_eq hsame]
    have hmessage : corrupt m.wire error = m'.wire := (List.append_inj hbytes hsize).1
    exact absurd (hmessage ▸ codeword_wire m')
      (not_codeword_corrupt (codeword_wire m) herror hone hburst)

/-- A nonce of three bytes whose first two arrive with twelve wrong bits. -/
theorem nonce_burst_detected :
    ∃ out e, pack 2 0 4 0x11112222 (some [1, 2, 3]) 3 (some (List.replicate 64 0)) =
        .ok (out, 14) ∧
      unpack (some (corrupt (out.take 14) [0, 0, 0, 0, 0, 0, 0, 0, 0, 0x0F, 0xFF, 0, 0, 0])) =
        .error e := by
  let m : Message := ⟨2, 0, 4, 0x11112222, [1, 2, 3], rfl, by decide⟩
  have hpack : pack 2 0 4 0x11112222 (some [1, 2, 3]) 3 (some (List.replicate 64 0)) =
      .ok (m.wire ++ List.replicate 50 0, 14) :=
    pack_message m rfl (by decide)
  have hwithin : ∀ i < 112, (bitsOf [0, 0, 0, 0, 0, 0, 0, 0, 0, 0x0F, 0xFF, 0, 0, 0])[i]? =
      some true → 72 ≤ i ∧ i < 72 + 16 := by
    decide
  have hburst : Within 16 (bitsOf [0, 0, 0, 0, 0, 0, 0, 0, 0, 0x0F, 0xFF, 0, 0, 0]) := by
    refine ⟨72, ?_⟩
    intro i hi
    obtain ⟨hlt, -⟩ := List.getElem?_eq_some_iff.mp hi
    exact hwithin i (by simpa using hlt) hi
  obtain ⟨e, he⟩ := burst_detected hpack (by decide) rfl (by decide) hburst ⟨rfl, rfl⟩ []
  rw [List.append_nil] at he
  exact ⟨_, e, hpack, he⟩

end EHash

end TollGate
