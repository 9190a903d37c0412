import TollGate.EHash.Packet

/-!
# Relay chains

`ehash_relay_forward` and the way a relay uses it: the bytes of a packet are
unpacked, the hop count and the sender are updated in place and the packet is
packed again into the relay's own buffer.

Over messages this is one step, `Message.forwarded` (`relay_wire`), and what a
chain of relays does to a message is the iteration of that step (`chain_wire`). A
packet thus arrives unchanged but for its hop count and its sender as long as the
chain is no longer than the hop limit (`relay_chain`).
-/

namespace TollGate

namespace EHash

/-! ### The source operations -/

/-- `ehash_relay_forward`: the packet afterwards and the result. The packet is
updated before the hop limit is looked at. -/
def forward (packet : Option Packet) (nextHopId : UInt32) : Option Packet × Except Err Unit :=
  match packet with
  | none => (none, .error .invalidArg)
  | some p =>
    let p' := { p with hopCount := p.hopCount + 1, senderId := nextHopId }
    (some p', if p'.hopCount > p'.maxHops then .error .maxHops else .ok ())

/-- A relay: its id and the buffer it packs into. -/
structure Relay where
  id : UInt32
  buf : List UInt8

/-- What a relay does with the bytes it receives: `ehash_packet_unpack`,
`ehash_relay_forward` and `ehash_packet_pack` into its own buffer. The bytes it sends
on are the ones packed. -/
def Relay.relay (r : Relay) (wire : List UInt8) : Except Err (List UInt8) :=
  match unpack (some wire) with
  | .error e => .error e
  | .ok pkt =>
    let forwarded := forward (some pkt) r.id
    match forwarded.2 with
    | .error e => .error e
    | .ok () =>
      let pkt' := forwarded.1.getD pkt
      match pack pkt'.msgType pkt'.hopCount pkt'.maxHops pkt'.senderId pkt'.payload
        pkt'.payloadLen (some r.buf) with
      | .error e => .error e
      | .ok (out, n) => .ok (out.take n)

/-- A chain of relays, stopped by the first failure. -/
def chain (relays : List Relay) (wire : List UInt8) : Except Err (List UInt8) :=
  relays.foldlM (fun bytes r => r.relay bytes) wire

/-! ### Messages on their way -/

namespace Message

/-- The message after one relay. -/
def forwarded (m : Message) (id : UInt32) : Message :=
  { m with hopCount := m.hopCount + 1, senderId := id }

/-- The message after a chain of relays. -/
def travelled (m : Message) (relays : List Relay) : Message :=
  relays.foldl (fun m r => m.forwarded r.id) m

variable (m : Message) (r : Relay) (relays : List Relay)

@[simp] theorem travelled_cons :
    m.travelled (r :: relays) = (m.forwarded r.id).travelled relays := rfl

/-- What stays of a message on its way. -/
theorem travelled_keeps :
    (m.travelled relays).msgType = m.msgType ∧ (m.travelled relays).maxHops = m.maxHops ∧
      (m.travelled relays).payload = m.payload := by
  induction relays generalizing m with
  | nil => exact ⟨rfl, rfl, rfl⟩
  | cons r relays ih => exact ih (m.forwarded r.id)

/-- The sender is the last relay, or the origin. -/
theorem senderId_travelled :
    (m.travelled relays).senderId = (relays.map Relay.id).getLastD m.senderId := by
  induction relays generalizing m with
  | nil => rfl
  | cons r relays ih =>
    rw [travelled_cons, ih, List.map_cons, List.getLastD_cons]
    rfl

/-- The hop count goes up by one at a relay that does not exceed the limit. -/
theorem toNat_hopCount_forwarded (id : UInt32) (h : m.hopCount.toNat < m.maxHops.toNat) :
    (m.forwarded id).hopCount.toNat = m.hopCount.toNat + 1 := by
  have hlt : m.hopCount.toNat + 1 < 2 ^ 8 := lt_of_le_of_lt h m.maxHops.toNat_lt
  change (m.hopCount + 1).toNat = m.hopCount.toNat + 1
  rw [UInt8.toNat_add]
  exact Nat.mod_eq_of_lt hlt

/-- A relay leaves one hop less. -/
theorem hops_left_forwarded (id : UInt32) {n : ℕ}
    (h : m.hopCount.toNat + (n + 1) ≤ m.maxHops.toNat) :
    (m.forwarded id).hopCount.toNat + n ≤ (m.forwarded id).maxHops.toNat := by
  have hstep := m.toNat_hopCount_forwarded id (by omega)
  change _ ≤ m.maxHops.toNat
  omega

/-- The hop count is the number of relays passed. -/
theorem toNat_hopCount_travelled (h : m.hopCount.toNat + relays.length ≤ m.maxHops.toNat) :
    (m.travelled relays).hopCount.toNat = m.hopCount.toNat + relays.length := by
  induction relays generalizing m with
  | nil => rfl
  | cons r relays ih =>
    rw [List.length_cons] at h ⊢
    have hstep := m.toNat_hopCount_forwarded r.id (by omega)
    rw [travelled_cons, ih _ (m.hops_left_forwarded r.id h), hstep]
    omega

end Message

/-- One relay takes the wire form of a message to that of the forwarded one. -/
theorem relay_wire (m : Message) (r : Relay) (hhops : m.hopCount.toNat < m.maxHops.toNat)
    (hbuf : m.size ≤ r.buf.length) : r.relay m.wire = .ok (m.forwarded r.id).wire := by
  have hlimit : ¬ (m.forwarded r.id).hopCount > m.maxHops := by
    rw [gt_iff_lt, UInt8.lt_iff_toNat_lt, m.toNat_hopCount_forwarded r.id hhops]
    omega
  have hforward : forward (some m.packet) r.id = (some (m.forwarded r.id).packet, .ok ()) := by
    unfold forward
    rw [Prod.mk.injEq]
    exact ⟨rfl, if_neg hlimit⟩
  have hpack : pack (m.forwarded r.id).packet.msgType (m.forwarded r.id).packet.hopCount
      (m.forwarded r.id).packet.maxHops (m.forwarded r.id).packet.senderId
      (m.forwarded r.id).packet.payload (m.forwarded r.id).packet.payloadLen (some r.buf) =
        .ok ((m.forwarded r.id).wire ++ r.buf.drop m.size, m.size) :=
    pack_message (m.forwarded r.id) (Message.getD_payload_packet _) hbuf
  have htake : ((m.forwarded r.id).wire ++ r.buf.drop m.size).take m.size =
      (m.forwarded r.id).wire :=
    List.take_left' (Message.length_wire _)
  unfold Relay.relay
  simp only [unpack_wire_self, hforward, Option.getD_some, hpack, htake]

/-- A chain no longer than the hops that are left delivers the message. -/
theorem chain_wire (m : Message) (relays : List Relay)
    (hhops : m.hopCount.toNat + relays.length ≤ m.maxHops.toNat)
    (hbuf : ∀ r ∈ relays, m.size ≤ r.buf.length) :
    chain relays m.wire = .ok (m.travelled relays).wire := by
  induction relays generalizing m with
  | nil => rfl
  | cons r relays ih =>
    rw [List.length_cons] at hhops
    have hfirst := relay_wire m r (by omega) (hbuf r List.mem_cons_self)
    have hrest := ih (m.forwarded r.id) (m.hops_left_forwarded r.id hhops)
      (fun r' hr' => hbuf r' (List.mem_cons_of_mem r hr'))
    unfold chain at hrest ⊢
    rw [List.foldlM_cons, hfirst]
    exact hrest

/-- **Relay chains preserve messages.** A packet made with hop count 0, sent through
any chain of relays that is no longer than its hop limit and whose buffers hold it,
passes every one of them. What arrives has the type, the hop limit and the payload it
was made with, the number of relays as its hop count and the id of the last relay as
its sender. -/
theorem relay_chain {msgType maxHops : UInt8} {senderId : UInt32} {payload : Option (List UInt8)}
    {payloadLen : UInt16} {buf out : List UInt8} {n : ℕ}
    (hpack : pack msgType 0 maxHops senderId payload payloadLen (some buf) = .ok (out, n))
    (hpayload : payloadLen.toNat = (payload.getD []).length)
    {relays : List Relay} (hhops : relays.length ≤ maxHops.toNat)
    (hbuf : ∀ r ∈ relays, n ≤ r.buf.length) :
    ∃ wire p, chain relays (out.take n) = .ok wire ∧ unpack (some wire) = .ok p ∧
      p.msgType = msgType ∧ p.maxHops = maxHops ∧ p.payloadLen = payloadLen ∧
      p.payload.getD [] = payload.getD [] ∧ p.hopCount.toNat = relays.length ∧
      p.senderId = (relays.map Relay.id).getLastD senderId := by
  obtain ⟨m, ⟨rfl, hhop, rfl, rfl, hm⟩, hwire, rfl⟩ :=
    exists_message_of_pack hpack (le_of_eq hpayload)
  rw [hpayload, List.take_length] at hm
  have hzero : m.hopCount.toNat = 0 := by rw [hhop]; rfl
  have hlimit : m.hopCount.toNat + relays.length ≤ m.maxHops.toNat := by omega
  have hdeliver := chain_wire m relays hlimit hbuf
  obtain ⟨htype, hmax, hpay⟩ := m.travelled_keeps relays
  have hcount := m.toNat_hopCount_travelled relays hlimit
  rw [hzero, Nat.zero_add] at hcount
  refine ⟨(m.travelled relays).wire, (m.travelled relays).packet, hwire ▸ hdeliver,
    unpack_wire_self _, htype, hmax, ?_, ?_, hcount, m.senderId_travelled relays⟩
  · change UInt16.ofNat (m.travelled relays).payload.length = payloadLen
    rw [hpay, hm, ← hpayload, UInt16.ofNat_toNat]
  · rw [Message.getD_payload_packet, hpay, hm]

/-- A nonce on its way from the ground over two balloons to the ground. -/
theorem balloon_chain :
    ∃ out wire p, pack 2 0 4 0x10000001 (some [1, 2, 3]) 3 (some (List.replicate 64 0)) =
        .ok (out, 14) ∧
      chain [⟨0x20000002, List.replicate 64 0⟩, ⟨0x30000003, List.replicate 32 0⟩,
        ⟨0x40000004, List.replicate 14 0⟩] (out.take 14) = .ok wire ∧
      unpack (some wire) = .ok p ∧ p.payload.getD [] = [1, 2, 3] ∧ p.hopCount.toNat = 3 ∧
      p.senderId = 0x40000004 := by
  let m : Message := ⟨2, 0, 4, 0x10000001, [1, 2, 3], rfl, by decide⟩
  have hpack : pack 2 0 4 0x10000001 (some [1, 2, 3]) 3 (some (List.replicate 64 0)) =
      .ok (m.wire ++ List.replicate 50 0, 14) :=
    pack_message m rfl (by decide)
  have hhops : [(⟨0x20000002, List.replicate 64 0⟩ : Relay), ⟨0x30000003, List.replicate 32 0⟩,
      ⟨0x40000004, List.replicate 14 0⟩].length ≤ (4 : UInt8).toNat := by decide
  obtain ⟨wire, p, hchain, hread, -, -, -, hpay, hcount, hsender⟩ :=
    relay_chain hpack rfl hhops (by simp)
  exact ⟨_, wire, p, hpack, hchain, hread, hpay, hcount, hsender⟩

end EHash

end TollGate
