import TollGate.Lib.ByteOrder
import TollGate.Lib.Crc

/-!
# E-Hash packets

`ehash_relay.c`: the wire format of the LoRa relay protocol. A packet is a header of
nine bytes (type, hop count, hop limit, sender, payload length), the payload and a
CRC-16 over both; `pack` writes one into a buffer and `unpack` reads one from the
front of a buffer.

What the two functions are for is said by `Message`, a packet with a valid type and
a payload that fits its length field, and by its bytes on the wire
(`Message.wire`). `pack` writes exactly these bytes (`pack_message`), and the
buffers `unpack` accepts are exactly those that begin with the wire form of a
message (`unpack_eq_ok_iff`). The round trip in both directions follows
(`packet_round_trip`).
-/

namespace TollGate

namespace EHash

/-! ### The source operations -/

/-- The error codes of `ehash_relay.h` that are returned. -/
inductive Err where
  | invalidArg
  | bufferTooSmall
  | invalidPacket
  | crcMismatch
  | maxHops
  | badMsgType
deriving DecidableEq

/-- `EHASH_HEADER_SIZE`. -/
abbrev headerSize : ℕ := 9

/-- `EHASH_CRC_SIZE`. -/
abbrev crcSize : ℕ := 2

/-- `EHASH_MIN_PACKET_SIZE`. -/
abbrev minPacketSize : ℕ := headerSize + crcSize

/-- `ehash_packet_t`. The payload is `NULL` or the bytes it points to. -/
structure Packet where
  msgType : UInt8
  hopCount : UInt8
  maxHops : UInt8
  senderId : UInt32
  payloadLen : UInt16
  payload : Option (List UInt8)
deriving DecidableEq

/-- `ehash_msg_type_is_valid`. -/
def msgTypeIsValid (msgType : UInt8) : Bool := 0x01 ≤ msgType && msgType < 0x04

/-- One turn of the inner loop of `ehash_packet_calc_crc`. -/
def crcBit (crc : UInt16) : UInt16 :=
  if crc &&& 0x8000 ≠ 0 then (crc <<< 1) ^^^ 0x1021 else crc <<< 1

/-- One turn of the outer loop of `ehash_packet_calc_crc`. -/
def crcByte (crc : UInt16) (b : UInt8) : UInt16 := crcBit^[8] (crc ^^^ (b.toUInt16 <<< 8))

/-- `ehash_packet_calc_crc`. -/
def calcCrc (buf : List UInt8) : UInt16 := buf.foldl crcByte 0xFFFF

/-- The header `ehash_packet_pack` writes. -/
def header (msgType hopCount maxHops : UInt8) (senderId : UInt32) (payloadLen : UInt16) :
    List UInt8 :=
  [msgType, hopCount, maxHops] ++ be32 senderId ++ be16 payloadLen

/-- `ehash_packet_pack`: the buffer afterwards and the number of bytes written. -/
def pack (msgType hopCount maxHops : UInt8) (senderId : UInt32) (payload : Option (List UInt8))
    (payloadLen : UInt16) (outBuf : Option (List UInt8)) : Except Err (List UInt8 × ℕ) :=
  match outBuf with
  | none => .error .invalidArg
  | some buf =>
    if payloadLen > 0 ∧ payload = none then .error .invalidArg
    else if !msgTypeIsValid msgType then .error .badMsgType
    else
      let needed := headerSize + payloadLen.toNat + crcSize
      if buf.length < needed then .error .bufferTooSmall
      else
        let region := header msgType hopCount maxHops senderId payloadLen ++
          (payload.getD []).take payloadLen.toNat
        .ok (region ++ be16 (calcCrc region) ++ buf.drop needed, needed)

/-- `ehash_packet_validate_crc`. -/
def validateCrc (buf : List UInt8) : Bool :=
  if buf.length < minPacketSize then false
  else
    let regionLen := headerSize + (ofBe16 (buf.getD 7 0) (buf.getD 8 0)).toNat
    if buf.length < regionLen + crcSize then false
    else calcCrc (buf.take regionLen) =
      ofBe16 (buf.getD regionLen 0) (buf.getD (regionLen + 1) 0)

/-- `ehash_packet_unpack`. -/
def unpack (buf : Option (List UInt8)) : Except Err Packet :=
  match buf with
  | none => .error .invalidArg
  | some bytes =>
    match bytes with
    | msgType :: hopCount :: maxHops :: s0 :: s1 :: s2 :: s3 :: l0 :: l1 :: rest =>
      let payloadLen := ofBe16 l0 l1
      if !msgTypeIsValid msgType then .error .badMsgType
      else
        let total := headerSize + payloadLen.toNat + crcSize
        if bytes.length < total then .error .invalidPacket
        else if !validateCrc (bytes.take total) then .error .crcMismatch
        else .ok ⟨msgType, hopCount, maxHops, ofBe32 s0 s1 s2 s3, payloadLen,
          if payloadLen > 0 then some (rest.take payloadLen.toNat) else none⟩
    -- fewer bytes than the header
    | _ => .error .invalidPacket

/-! ### Messages and their wire form -/

/-- A packet that can be sent: its type is known and its payload fits the length
field. -/
structure Message where
  msgType : UInt8
  hopCount : UInt8
  maxHops : UInt8
  senderId : UInt32
  payload : List UInt8
  valid : msgTypeIsValid msgType = true
  length_lt : payload.length < 2 ^ 16

namespace Message

variable (m : Message)

/-- The length field. -/
def payloadLen : UInt16 := UInt16.ofNat m.payload.length

/-- Header and payload. -/
def region : List UInt8 :=
  header m.msgType m.hopCount m.maxHops m.senderId m.payloadLen ++ m.payload

/-- The bytes on the wire. -/
def wire : List UInt8 := m.region ++ be16 (calcCrc m.region)

/-- The number of bytes on the wire. -/
def size : ℕ := minPacketSize + m.payload.length

/-- The message as `unpack` fills a packet with it. -/
def packet : Packet :=
  ⟨m.msgType, m.hopCount, m.maxHops, m.senderId, m.payloadLen,
    if m.payloadLen > 0 then some m.payload else none⟩

@[simp] theorem toNat_payloadLen : m.payloadLen.toNat = m.payload.length :=
  UInt16.toNat_ofNat_of_lt m.length_lt

@[simp] theorem length_region : m.region.length = headerSize + m.payload.length := by
  simp [region, header, headerSize]
  omega

@[simp] theorem length_wire : m.wire.length = m.size := by
  simp [wire, size, minPacketSize, crcSize]
  omega

/-- The size, as `pack` and `unpack` work it out from the length field. -/
theorem size_eq : headerSize + m.payloadLen.toNat + crcSize = m.size := by
  rw [toNat_payloadLen]
  unfold size minPacketSize
  omega

theorem payloadLen_pos_iff : m.payloadLen > 0 ↔ m.payload ≠ [] := by
  rw [gt_iff_lt, UInt16.lt_iff_toNat_lt, toNat_payloadLen, ← List.length_pos_iff]
  rfl

@[simp] theorem getD_payload_packet : m.packet.payload.getD [] = m.payload := by
  unfold packet
  by_cases h : m.payloadLen > 0
  · simp [h]
  · have hnil : m.payload = [] := by simpa [payloadLen_pos_iff] using h
    simp [h, hnil]

end Message

variable {m : Message}

/-- `pack` writes the wire form of the message into a buffer that holds it. -/
theorem pack_message (m : Message) {payload : Option (List UInt8)}
    (hp : payload.getD [] = m.payload)
    {buf : List UInt8} (hbuf : m.size ≤ buf.length) :
    pack m.msgType m.hopCount m.maxHops m.senderId payload m.payloadLen (some buf) =
      .ok (m.wire ++ buf.drop m.size, m.size) := by
  have hnull : ¬ (m.payloadLen > 0 ∧ payload = none) := by
    rintro ⟨hpos, rfl⟩
    exact m.payloadLen_pos_iff.mp hpos hp.symm
  have hroom : ¬ buf.length < m.size := by omega
  have htake : m.payload.take m.payloadLen.toNat = m.payload := by
    rw [Message.toNat_payloadLen, List.take_length]
  unfold pack
  simp only [hnull, if_false, m.valid, Bool.not_true, Bool.false_eq_true, hp, htake, m.size_eq,
    hroom]
  rfl

/-- What `pack` writes is the wire form of the message with its arguments. -/
theorem exists_message_of_pack {msgType hopCount maxHops : UInt8} {senderId : UInt32}
    {payload : Option (List UInt8)} {payloadLen : UInt16} {buf out : List UInt8} {n : ℕ}
    (h : pack msgType hopCount maxHops senderId payload payloadLen (some buf) = .ok (out, n))
    (hlen : payloadLen.toNat ≤ (payload.getD []).length) :
    ∃ m : Message, (m.msgType = msgType ∧ m.hopCount = hopCount ∧ m.maxHops = maxHops ∧
        m.senderId = senderId ∧ m.payload = (payload.getD []).take payloadLen.toNat) ∧
      out.take n = m.wire ∧ n = m.size := by
  have hroom : ((payload.getD []).take payloadLen.toNat).length = payloadLen.toNat := by
    rw [List.length_take]
    omega
  unfold pack at h
  by_cases hnull : payloadLen > 0 ∧ payload = none
  case pos => simp [hnull] at h
  by_cases hvalid : msgTypeIsValid msgType = true
  case neg => simp [hnull, hvalid] at h
  by_cases hsmall : buf.length < headerSize + payloadLen.toNat + crcSize
  case pos => simp [hnull, hvalid, hsmall] at h
  simp only [hnull, if_false, hvalid, Bool.not_true, Bool.false_eq_true, hsmall] at h
  obtain ⟨rfl, rfl⟩ := Prod.mk.inj (Except.ok.inj h)
  have hfits : ((payload.getD []).take payloadLen.toNat).length < 2 ^ 16 := by
    rw [hroom]
    exact payloadLen.toNat_lt
  let m : Message := ⟨msgType, hopCount, maxHops, senderId,
    (payload.getD []).take payloadLen.toNat, hvalid, hfits⟩
  have hfield : m.payloadLen = payloadLen := by
    change UInt16.ofNat ((payload.getD []).take payloadLen.toNat).length = payloadLen
    rw [hroom, UInt16.ofNat_toNat]
  have hsize : headerSize + payloadLen.toNat + crcSize = m.size := hfield ▸ m.size_eq
  refine ⟨m, ⟨rfl, rfl, rfl, rfl, rfl⟩, ?_, hsize⟩
  have hwire : m.wire = header msgType hopCount maxHops senderId payloadLen ++
      (payload.getD []).take payloadLen.toNat ++
        be16 (calcCrc (header msgType hopCount maxHops senderId payloadLen ++
          (payload.getD []).take payloadLen.toNat)) := by
    unfold Message.wire Message.region
    rw [hfield]
  rw [← hwire, hsize, List.take_left' (Message.length_wire m)]

section Split

variable (msgType hopCount maxHops a b : UInt8) (senderId : UInt32) (payloadLen : UInt16)
  (payload rest : List UInt8)

@[simp] theorem length_header :
    (header msgType hopCount maxHops senderId payloadLen).length = headerSize := rfl

/-- The number of bytes, as `validate_crc` and `unpack` work it out from the length field. -/
theorem length_split (hlen : payload.length = payloadLen.toNat) :
    (header msgType hopCount maxHops senderId payloadLen ++ payload ++ [a, b]).length =
      headerSize + payloadLen.toNat + crcSize := by
  rw [List.length_append, List.length_append, length_header, hlen]
  rfl

/-- The CRC check of a buffer that holds one packet and no more. -/
theorem validateCrc_eq (hlen : payload.length = payloadLen.toNat) :
    validateCrc (header msgType hopCount maxHops senderId payloadLen ++ payload ++ [a, b]) =
      decide (calcCrc (header msgType hopCount maxHops senderId payloadLen ++ payload) =
        ofBe16 a b) := by
  have hread : ofBe16
      ((header msgType hopCount maxHops senderId payloadLen ++ payload ++ [a, b]).getD 7 0)
      ((header msgType hopCount maxHops senderId payloadLen ++ payload ++ [a, b]).getD 8 0) =
        payloadLen := ofBe16_be16 payloadLen
  have hregion : (header msgType hopCount maxHops senderId payloadLen ++ payload).length =
      headerSize + payloadLen.toNat := by
    rw [List.length_append, length_header, hlen]
  have htotal := length_split msgType hopCount maxHops a b senderId payloadLen payload hlen
  have hmin : ¬ headerSize + payloadLen.toNat + crcSize < minPacketSize := by
    unfold minPacketSize
    omega
  unfold validateCrc
  rw [hread, htotal, if_neg hmin, if_neg (lt_irrefl _), ← hregion, List.take_left' rfl]
  congr 3
  · rw [List.getD_append_right _ _ _ _ le_rfl, Nat.sub_self]
    rfl
  · rw [List.getD_append_right _ _ _ _ (Nat.le_add_right _ 1), Nat.add_sub_cancel_left]
    rfl

/-- `unpack` on a buffer that is as long as its header says. -/
theorem unpack_split (hlen : payload.length = payloadLen.toNat) :
    unpack (some (header msgType hopCount maxHops senderId payloadLen ++ payload ++ [a, b] ++
        rest)) =
      if !msgTypeIsValid msgType then .error .badMsgType
      else if calcCrc (header msgType hopCount maxHops senderId payloadLen ++ payload) = ofBe16 a b
      then .ok ⟨msgType, hopCount, maxHops, senderId, payloadLen,
        if payloadLen > 0 then some payload else none⟩
      else .error .crcMismatch := by
  have hsize := length_split msgType hopCount maxHops a b senderId payloadLen payload hlen
  have hlong : ¬ (header msgType hopCount maxHops senderId payloadLen ++ payload ++ [a, b] ++
      rest).length < headerSize + payloadLen.toNat + crcSize := by
    rw [List.length_append, hsize]
    omega
  have htake : (header msgType hopCount maxHops senderId payloadLen ++ payload ++ [a, b] ++
      rest).take (headerSize + payloadLen.toNat + crcSize) =
        header msgType hopCount maxHops senderId payloadLen ++ payload ++ [a, b] := by
    rw [← hsize, List.take_left' rfl]
  have hcrc := validateCrc_eq msgType hopCount maxHops a b senderId payloadLen payload hlen
  have hpay : (payload ++ [a, b] ++ rest).take payloadLen.toNat = payload := by
    rw [← hlen, List.append_assoc, List.take_left' rfl]
  have hbytes : header msgType hopCount maxHops senderId payloadLen ++ payload ++ [a, b] ++ rest =
      msgType :: hopCount :: maxHops :: (senderId >>> 24).toUInt8 :: (senderId >>> 16).toUInt8 ::
        (senderId >>> 8).toUInt8 :: senderId.toUInt8 :: (payloadLen >>> 8).toUInt8 ::
        payloadLen.toUInt8 :: (payload ++ [a, b] ++ rest) := rfl
  rw [hbytes] at hlong htake ⊢
  unfold unpack
  simp only [ofBe16_be16, ofBe32_be32, hlong, if_false, htake, hcrc, hpay, Bool.not_eq_true',
    decide_eq_false_iff_not, ite_not]

end Split

/-- A buffer with a header that is as long as the header says. -/
theorem exists_split {l0 l1 : UInt8} {rest : List UInt8}
    (h : (ofBe16 l0 l1).toNat + crcSize ≤ rest.length) :
    ∃ payload a b rest', rest = payload ++ [a, b] ++ rest' ∧
      payload.length = (ofBe16 l0 l1).toNat := by
  unfold crcSize at h
  refine ⟨rest.take (ofBe16 l0 l1).toNat, rest[(ofBe16 l0 l1).toNat],
    rest[(ofBe16 l0 l1).toNat + 1], rest.drop ((ofBe16 l0 l1).toNat + 2), ?_, ?_⟩
  · rw [List.append_assoc, List.cons_append, List.cons_append, List.nil_append,
      List.getElem_cons_drop, List.getElem_cons_drop, List.take_append_drop]
  · rw [List.length_take]
    omega

/-- A buffer that `unpack` accepts is as long as its header says. -/
theorem exists_split_of_unpack {bytes : List UInt8} {p : Packet}
    (h : unpack (some bytes) = .ok p) :
    ∃ (msgType hopCount maxHops a b : UInt8) (senderId : UInt32) (payloadLen : UInt16)
      (payload rest : List UInt8), payload.length = payloadLen.toNat ∧
      bytes = header msgType hopCount maxHops senderId payloadLen ++ payload ++ [a, b] ++ rest := by
  unfold unpack at h
  simp only at h
  split at h
  · next msgType hopCount maxHops s0 s1 s2 s3 l0 l1 rest =>
    have hroom : (ofBe16 l0 l1).toNat + crcSize ≤ rest.length := by
      by_contra hshort
      have hlong : (msgType :: hopCount :: maxHops :: s0 :: s1 :: s2 :: s3 :: l0 :: l1 ::
          rest).length < headerSize + (ofBe16 l0 l1).toNat + crcSize := by
        simp only [List.length_cons, headerSize]
        omega
      rw [if_pos hlong] at h
      split at h <;> exact absurd h.symm (by simp)
    obtain ⟨payload, a, b, rest', rfl, hlen⟩ := exists_split hroom
    refine ⟨msgType, hopCount, maxHops, a, b, ofBe32 s0 s1 s2 s3, ofBe16 l0 l1, payload, rest',
      hlen, ?_⟩
    unfold header
    rw [be32_ofBe32, be16_ofBe16]
    rfl
  · exact absurd h.symm (by simp)

/-- `unpack` reads a message from the front of a buffer. -/
theorem unpack_wire (m : Message) (rest : List UInt8) :
    unpack (some (m.wire ++ rest)) = .ok m.packet := by
  have h := unpack_split m.msgType m.hopCount m.maxHops (calcCrc m.region >>> 8).toUInt8
    (calcCrc m.region).toUInt8 m.senderId m.payloadLen m.payload rest m.toNat_payloadLen.symm
  rw [ofBe16_be16, m.valid, Bool.not_true, if_neg Bool.false_ne_true] at h
  exact h.trans (if_pos rfl)

/-- `unpack` reads a message that nothing follows. -/
theorem unpack_wire_self (m : Message) : unpack (some m.wire) = .ok m.packet := by
  have h := unpack_wire m []
  rwa [List.append_nil] at h

/-- **What `unpack` accepts**: the buffers that begin with the wire form of a message. -/
theorem unpack_eq_ok_iff {bytes : List UInt8} {p : Packet} :
    unpack (some bytes) = .ok p ↔ ∃ (m : Message) (rest : List UInt8),
      bytes = m.wire ++ rest ∧ p = m.packet := by
  refine ⟨?_, ?_⟩
  · intro h
    obtain ⟨msgType, hopCount, maxHops, a, b, senderId, payloadLen, payload, rest, hlen, rfl⟩ :=
      exists_split_of_unpack h
    rw [unpack_split _ _ _ _ _ _ _ _ _ hlen] at h
    by_cases hvalid : msgTypeIsValid msgType = true
    case neg => simp [hvalid] at h
    by_cases hcrc : calcCrc (header msgType hopCount maxHops senderId payloadLen ++ payload) =
        ofBe16 a b
    case neg => simp [hvalid, hcrc] at h
    rw [if_neg (by simp [hvalid]), if_pos hcrc] at h
    have hfits : payload.length < 2 ^ 16 := hlen ▸ payloadLen.toNat_lt
    have hfield : UInt16.ofNat payload.length = payloadLen := by
      rw [hlen, UInt16.ofNat_toNat]
    -- the message of these fields has these bytes
    refine ⟨⟨msgType, hopCount, maxHops, senderId, payload, hvalid, hfits⟩, rest, ?_, ?_⟩
    · simp only [Message.wire, Message.region, Message.payloadLen, hfield, hcrc, be16_ofBe16]
    · rw [← Except.ok.inj h]
      simp only [Message.packet, Message.payloadLen, hfield]
  · rintro ⟨m, rest, rfl, rfl⟩
    exact unpack_wire m rest

/-! ### The round trip -/

/-- **Packing and unpacking are inverse to each other.** Every packet with a known
type and a payload of 0 to 65535 bytes, packed into any buffer that holds it, is
read back field by field, from the packed bytes alone or with what follows them in
the buffer. Conversely, whatever bytes `unpack` accepts, packing the packet it
returns writes the accepted ones again. -/
theorem packet_round_trip :
    (∀ (msgType hopCount maxHops : UInt8) (senderId : UInt32) (payload : Option (List UInt8))
        (payloadLen : UInt16) (buf : List UInt8), msgTypeIsValid msgType = true →
        (payload.getD []).length = payloadLen.toNat →
        headerSize + payloadLen.toNat + crcSize ≤ buf.length →
      ∃ out, pack msgType hopCount maxHops senderId payload payloadLen (some buf) =
          .ok (out, headerSize + payloadLen.toNat + crcSize) ∧ out.length = buf.length ∧
        ∀ n, headerSize + payloadLen.toNat + crcSize ≤ n → n ≤ out.length →
          ∃ p, unpack (some (out.take n)) = .ok p ∧ p.msgType = msgType ∧
            p.hopCount = hopCount ∧ p.maxHops = maxHops ∧ p.senderId = senderId ∧
            p.payloadLen = payloadLen ∧ p.payload.getD [] = payload.getD []) ∧
    (∀ (bytes : List UInt8) (p : Packet) (buf : List UInt8), unpack (some bytes) = .ok p →
        headerSize + p.payloadLen.toNat + crcSize ≤ buf.length →
      headerSize + p.payloadLen.toNat + crcSize ≤ bytes.length ∧
        pack p.msgType p.hopCount p.maxHops p.senderId p.payload p.payloadLen (some buf) =
          .ok (bytes.take (headerSize + p.payloadLen.toNat + crcSize) ++
              buf.drop (headerSize + p.payloadLen.toNat + crcSize),
            headerSize + p.payloadLen.toNat + crcSize)) := by
  refine ⟨?_, ?_⟩
  · intro msgType hopCount maxHops senderId payload payloadLen buf hvalid hlen hbuf
    have hfits : (payload.getD []).length < 2 ^ 16 := hlen ▸ payloadLen.toNat_lt
    let m : Message := ⟨msgType, hopCount, maxHops, senderId, payload.getD [], hvalid, hfits⟩
    have hfield : m.payloadLen = payloadLen := by
      change UInt16.ofNat (payload.getD []).length = payloadLen
      rw [hlen, UInt16.ofNat_toNat]
    rw [← hfield, m.size_eq] at hbuf ⊢
    refine ⟨m.wire ++ buf.drop m.size, pack_message m rfl hbuf, ?_, ?_⟩
    · rw [List.length_append, Message.length_wire, List.length_drop]
      omega
    · intro n hn _
      -- the packet is within the first `n` bytes, and `unpack` reads no further
      have htake : (m.wire ++ buf.drop m.size).take n =
          m.wire ++ (buf.drop m.size).take (n - m.size) := by
        rw [List.take_append, Message.length_wire, List.take_of_length_le]
        rw [Message.length_wire]
        exact hn
      refine ⟨m.packet, ?_, rfl, rfl, rfl, rfl, rfl, m.getD_payload_packet⟩
      rw [htake, unpack_wire]
  · intro bytes p buf h hbuf
    obtain ⟨m, rest, rfl, rfl⟩ := unpack_eq_ok_iff.mp h
    have hpayload : m.packet.payloadLen = m.payloadLen := rfl
    rw [hpayload, m.size_eq] at hbuf ⊢
    refine ⟨?_, ?_⟩
    · rw [List.length_append, Message.length_wire]
      omega
    · have htake : (m.wire ++ rest).take m.size = m.wire := by
        rw [← Message.length_wire, List.take_left' rfl]
      rw [htake]
      exact pack_message m m.getD_payload_packet hbuf

/-- A nonce of three bytes, packed into a buffer of 64, and back; and the packed
bytes once more. -/
theorem nonce_round_trip :
    ∃ out p, pack 2 0 4 0x11112222 (some [1, 2, 3]) 3 (some (List.replicate 64 0)) =
        .ok (out, 14) ∧
      unpack (some (out.take 14)) = .ok p ∧ p.payload.getD [] = [1, 2, 3] ∧
      pack p.msgType p.hopCount p.maxHops p.senderId p.payload p.payloadLen
        (some (List.replicate 64 0)) = .ok ((out.take 14).take 14 ++ List.replicate 50 0, 14) := by
  obtain ⟨hthere, hback⟩ := packet_round_trip
  obtain ⟨out, hpack, hout, hread⟩ := hthere 2 0 4 0x11112222 (some [1, 2, 3]) 3
    (List.replicate 64 0) rfl rfl (by decide)
  obtain ⟨p, hp, -, -, -, -, hlen, hpay⟩ := hread 14 le_rfl (by rw [hout]; decide)
  refine ⟨out, p, hpack, hp, hpay, ?_⟩
  have h := (hback _ p (List.replicate 64 0) hp (by rw [hlen]; decide)).2
  rw [hlen] at h ⊢
  exact h

end EHash

end TollGate
