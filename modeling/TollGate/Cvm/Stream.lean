import TollGate.Cvm.Frames
import TollGate.Lib.Pieces

/-!
# Frames from a byte stream

`cvm_relay_task` takes what one `esp_tls_conn_read` returns for one frame: the first byte says
what it is, a text message is parsed from the front, and nothing is kept for the next read.

So the messages of a relay are handed on exactly as they were sent if every one of them begins a
read and is all in it, and no other read looks like a message (`handed_iff`). A read inside of
a message is one whose first byte is arbitrary; one with 8 in its low nibble ends the
connection.
-/

namespace TollGate

namespace Cvm

open CStr WebSocket Pieces

/-! ### Frames and reads -/

/-- `CVM_WS_BUF_SIZE`. -/
abbrev cvmWsBufSize : ℕ := 8192

/-- A frame that a relay sends: a text message, a ping, a close. -/
inductive Frame where
  | text (payload : List UInt8) (length_lt : payload.length < cvmWsBufSize)
  | ping (payload : List UInt8) (length_le : payload.length ≤ 125)
  | close (payload : List UInt8) (length_le : payload.length ≤ 125)

/-- The bytes of a frame. A relay does not mask. -/
def Frame.bytes : Frame → List UInt8
  | .text payload _ => encode 0x81 none payload
  | .ping payload _ => encode 0x89 none payload
  | .close payload _ => encode 0x88 none payload

/-- The text message of a frame. -/
def Frame.message : Frame → Option CStr
  | .text payload _ => some payload
  | .ping .. => none
  | .close .. => none

/-- What a call of `esp_tls_conn_read` returns that finds something. -/
structure Read where
  bytes : List UInt8
  ne_nil : bytes ≠ []
  length_lt : bytes.length < cvmWsBufSize

/-- A turn of the loop while the connection is there, where a read may also fail. -/
def turn : Option Read → Input
  | some r => .received r.bytes
  | none => .readError

/-- What is handed to `process_relay_message` over a connection. -/
def handed (reads : List (Option Read)) : List CStr := deliveries true (reads.map turn)

/-- The messages that a relay sends. -/
def messages (frames : List Frame) : List CStr := frames.filterMap Frame.message

/-- The messages with their places in the stream. -/
def messagesAt (frames : List Frame) : List (ℕ × CStr) :=
  (placed Frame.bytes 0 frames).filterMap fun f => f.2.message.map (f.1, ·)

/-- The read is taken for a close frame. -/
def Read.closes (r : Read) : Bool := r.bytes.getD 0 0 &&& 0x0F = 0x08

/-- The text that is found in a read. -/
def Read.found (r : Read) : Option CStr := textOf true (.received r.bytes)

/-- The reads up to the one that closes, with their places in the stream. -/
def heard (reads : List Read) : List (ℕ × Read) :=
  (placed Read.bytes 0 reads).takeWhile fun r => !r.2.closes

/-- What is handed on, with its place in the stream. -/
def handedAt (reads : List Read) : List (ℕ × CStr) :=
  (heard reads).filterMap fun r => r.2.found.map (r.1, ·)

/-! ### What is handed on -/

theorem deliveries_failed (connected : Bool) (reads : List (Option Read)) :
    deliveries connected (reads.map turn) =
      deliveries connected (reads.reduceOption.map fun r => .received r.bytes) := by
  induction reads generalizing connected with
  | nil => rfl
  | cons r reads ih =>
    cases r with
    | none => exact ih connected
    | some r =>
      rw [List.reduceOption_cons_of_some, List.map_cons, List.map_cons]
      exact congrArg (_ ++ ·) (ih _)

theorem deliveries_disconnected (reads : List Read) :
    deliveries false (reads.map fun r => .received r.bytes) = [] := by
  induction reads with
  | nil => rfl
  | cons r reads ih => exact ih

theorem Read.nextConnected_eq (r : Read) :
    nextConnected true (.received r.bytes) = !r.closes := by
  show (true && decide (r.bytes.getD 0 0 &&& 0x0F ≠ 0x08)) = !r.closes
  rw [Bool.true_and, closes, ← decide_not]

/-- A close frame is no text. -/
theorem Read.found_of_closes {r : Read} (h : r.closes = true) : r.found = none := by
  have htext : r.bytes.getD 0 0 &&& 0x0F ≠ 0x01 := by
    rw [of_decide_eq_true h]
    decide
  rw [found, textOf, Bool.true_and, decide_eq_false htext]
  rfl

/-- The places do not matter for what is handed on. -/
theorem map_snd_handedAt (reads : List (Option Read)) :
    (handedAt reads.reduceOption).map Prod.snd = handed reads := by
  rw [handed, deliveries_failed]
  generalize reads.reduceOption = reads
  unfold handedAt heard
  generalize 0 = start
  induction reads generalizing start with
  | nil => rfl
  | cons r reads ih =>
    rw [placed_cons, List.map_cons, deliveries, List.takeWhile_cons, r.nextConnected_eq]
    cases hclose : r.closes with
    | true =>
      rw [show textOf true (.received r.bytes) = none from Read.found_of_closes hclose]
      exact (deliveries_disconnected reads).symm
    | false =>
      rw [← Read.found]
      cases hfound : r.found with
      | none => simpa [hclose, hfound] using ih _
      | some text => simpa [hclose, hfound] using ih _

theorem map_snd_messagesAt (frames : List Frame) :
    (messagesAt frames).map Prod.snd = messages frames :=
  map_snd_filterMap_placed Frame.bytes Frame.message 0 frames

/-! ### Reads that begin with a message -/

theorem Frame.bytes_ne_nil (f : Frame) : f.bytes ≠ [] := by
  cases f <;> exact List.cons_ne_nil _ _

/-- The message of a frame as the frame's payload. -/
theorem Frame.message_eq_some {f : Frame} {payload : CStr} (h : f.message = some payload) :
    f.bytes = encode 0x81 none payload ∧ payload.length < 256 ^ 8 := by
  cases f with
  | text payload' hlt =>
    obtain rfl := Option.some.inj h
    exact ⟨rfl, hlt.trans (by norm_num)⟩
  | ping => cases h
  | close => cases h

theorem Read.found_eq {r : Read} (h : r.bytes.getD 0 0 = 0x81) :
    r.found = (parseWsTextFrame r.bytes).filter fun text => text.length > 0 := by
  rw [found, textOf, h, Bool.true_and]
  rfl

/-- A read that begins where a message begins: the message is found if all of it is there. -/
theorem Read.found_of_prefix {r : Read} {payload rest : List UInt8}
    (hn : payload.length < 256 ^ 8) (h : r.bytes <+: encode 0x81 none payload ++ rest) :
    r.found = if r.bytes.length < (encode 0x81 none payload).length then none
      else if payload.takeWhile (· ≠ 0) = [] then none
      else some (payload.takeWhile (· ≠ 0)) := by
  have hfirst : r.bytes.getD 0 0 = 0x81 := by
    obtain ⟨b, more, hbytes⟩ := List.exists_cons_of_ne_nil r.ne_nil
    obtain ⟨tail, htail⟩ := h
    rw [hbytes] at htail ⊢
    exact (List.cons.inj htail).1
  rw [found_eq hfirst]
  split
  next hlt =>
    have hpart := List.prefix_of_prefix_length_le h (List.prefix_append _ rest) hlt.le
    rw [parseWsTextFrame_of_lt_encode hn hpart hlt, Option.filter_none]
  next hge =>
    obtain ⟨more, hmore⟩ := List.prefix_of_prefix_length_le (List.prefix_append _ rest) h
      (not_lt.mp hge)
    rw [← hmore, parseWsTextFrame_encode_append hn, Option.filter_some]
    by_cases hnil : payload.takeWhile (· ≠ 0) = []
    · rw [if_pos hnil, hnil]
      rfl
    · rw [if_neg hnil, if_pos (decide_eq_true (List.length_pos_of_ne_nil hnil))]

/-! ### When the messages are handed on -/

/-- Every message that the relay sends is a text, begins a read and is all in it; no other read
looks like a message. -/
structure ReadsWhole (frames : List Frame) (reads : List Read) : Prop where
  texts : ∀ text ∈ messages frames, text ≠ [] ∧ 0 ∉ text
  whole : ∀ f ∈ placed Frame.bytes 0 frames, f.2.message.isSome →
    ∃ r ∈ heard reads, r.1 = f.1 ∧ f.2.bytes.length ≤ r.2.bytes.length
  quiet : ∀ r ∈ heard reads,
    (∀ f ∈ placed Frame.bytes 0 frames, f.1 = r.1 → f.2.message = none) → r.2.found = none

section Stream

variable {frames : List Frame} {reads : List Read}

theorem mem_placed_of_mem_heard {r : ℕ × Read} (h : r ∈ heard reads) :
    r ∈ placed Read.bytes 0 reads :=
  (List.takeWhile_sublist _).subset h

theorem mem_messagesAt_iff {i : ℕ} {text : CStr} :
    (i, text) ∈ messagesAt frames ↔
      ∃ f, (i, f) ∈ placed Frame.bytes 0 frames ∧ f.message = some text :=
  mem_filterMap_iff

theorem mem_handedAt_iff {i : ℕ} {text : CStr} :
    (i, text) ∈ handedAt reads ↔ ∃ r, (i, r) ∈ heard reads ∧ r.found = some text :=
  mem_filterMap_iff

variable (hstream : reads.flatMap Read.bytes = frames.flatMap Frame.bytes)
include hstream

/-- What is found where a message begins. -/
theorem found_iff_of_place {i : ℕ} {r : Read} {f : Frame} {payload text : CStr}
    (hr : (i, r) ∈ heard reads) (hf : (i, f) ∈ placed Frame.bytes 0 frames)
    (hmessage : f.message = some payload) :
    r.found = some text ↔
      f.bytes.length ≤ r.bytes.length ∧ payload.takeWhile (· ≠ 0) = text ∧ text ≠ [] := by
  obtain ⟨hbytes, hn⟩ := Frame.message_eq_some hmessage
  obtain ⟨rest, hrest⟩ := prefix_of_mem hf
  have hprefix := prefix_of_mem (mem_placed_of_mem_heard hr)
  rw [hstream, ← hrest] at hprefix
  rw [hbytes] at hprefix ⊢
  rw [Read.found_of_prefix hn hprefix]
  split
  next hlt => exact iff_of_false (by simp) fun h => absurd hlt (not_lt.mpr h.1)
  next hge =>
    split
    next hnil => exact iff_of_false (by simp) fun h => h.2.2 (h.2.1.symm.trans hnil)
    next hne =>
      rw [Option.some.injEq]
      refine ⟨?_, fun h => h.2.1⟩
      rintro rfl
      exact ⟨not_lt.mp hge, rfl, hne⟩

/-- If what is handed on are the messages, every message is a text that is all in its read. -/
theorem readsWhole_of_handedAt (h : handedAt reads = messagesAt frames) :
    ReadsWhole frames reads := by
  -- the read that hands a message on
  have hread : ∀ i f payload, (i, f) ∈ placed Frame.bytes 0 frames → f.message = some payload →
      ∃ r, (i, r) ∈ heard reads ∧ f.bytes.length ≤ r.bytes.length ∧
        payload.takeWhile (· ≠ 0) = payload ∧ payload ≠ [] := by
    intro i f payload hf hmessage
    have hmem : (i, payload) ∈ handedAt reads := h ▸ mem_messagesAt_iff.mpr ⟨f, hf, hmessage⟩
    obtain ⟨r, hr, hfound⟩ := mem_handedAt_iff.mp hmem
    exact ⟨r, hr, (found_iff_of_place hstream hr hf hmessage).mp hfound⟩
  refine ⟨fun text htext => ?_, fun ⟨i, f⟩ hf hmessage => ?_, fun ⟨i, r⟩ hr hnone => ?_⟩
  · rw [← map_snd_messagesAt] at htext
    obtain ⟨⟨i, text⟩, hmem, rfl⟩ := List.mem_map.mp htext
    obtain ⟨f, hf, hmessage⟩ := mem_messagesAt_iff.mp hmem
    obtain ⟨r, -, -, hcut, hne⟩ := hread i f text hf hmessage
    refine ⟨hne, fun hzero => ?_⟩
    exact absurd (List.takeWhile_eq_self_iff.mp hcut 0 hzero) (by decide)
  · obtain ⟨payload, hmessage⟩ := Option.isSome_iff_exists.mp hmessage
    obtain ⟨r, hr, hle, -⟩ := hread i f payload hf hmessage
    exact ⟨(i, r), hr, rfl, hle⟩
  · refine Option.eq_none_iff_forall_ne_some.mpr fun text hfound => ?_
    have hmem : (i, text) ∈ messagesAt frames := h ▸ mem_handedAt_iff.mpr ⟨r, hr, hfound⟩
    obtain ⟨f, hf, hmessage⟩ := mem_messagesAt_iff.mp hmem
    rw [hnone (i, f) hf rfl] at hmessage
    cases hmessage

/-- If the reads are whole, each place has the same message on both sides. -/
theorem handedAt_of_readsWhole (h : ReadsWhole frames reads) :
    handedAt reads = messagesAt frames := by
  have hpieces : (placed Read.bytes 0 reads).Pairwise (fun p q => p.1 < q.1) :=
    pairwise_placed fun r _ => r.ne_nil
  have hhanded : (handedAt reads).Pairwise (fun p q => p.1 < q.1) :=
    pairwise_filterMap Read.found (hpieces.sublist (List.takeWhile_sublist _))
  have hmessages : (messagesAt frames).Pairwise (fun p q => p.1 < q.1) :=
    pairwise_filterMap Frame.message (pairwise_placed fun f _ => f.bytes_ne_nil)
  -- the text of a message is handed on as it is
  have htext : ∀ i f payload, (i, f) ∈ placed Frame.bytes 0 frames → f.message = some payload →
      payload.takeWhile (· ≠ 0) = payload ∧ payload ≠ [] := by
    intro i f payload hf hmessage
    have hmem : payload ∈ messages frames := by
      rw [← map_snd_messagesAt]
      exact List.mem_map.mpr ⟨_, mem_messagesAt_iff.mpr ⟨f, hf, hmessage⟩, rfl⟩
    obtain ⟨hne, hzero⟩ := h.texts payload hmem
    exact ⟨List.takeWhile_eq_self_iff.mpr fun b hb => decide_eq_true fun hb' => hzero (hb' ▸ hb),
      hne⟩
  refine eq_of_mem_iff_of_places hhanded hmessages fun ⟨i, text⟩ => ?_
  rw [mem_handedAt_iff, mem_messagesAt_iff]
  refine ⟨?_, ?_⟩
  · rintro ⟨r, hr, hfound⟩
    -- such a read begins with a message
    obtain ⟨f, hf, hmessage⟩ : ∃ f, (i, f) ∈ placed Frame.bytes 0 frames ∧ f.message ≠ none := by
      by_contra hquiet
      push Not at hquiet
      rw [h.quiet (i, r) hr fun ⟨j, f⟩ hf hj => hquiet f (by rwa [← show j = i from hj])] at hfound
      cases hfound
    obtain ⟨payload, hmessage⟩ := Option.ne_none_iff_exists'.mp hmessage
    obtain ⟨-, hcut, -⟩ := (found_iff_of_place hstream hr hf hmessage).mp hfound
    obtain ⟨hself, -⟩ := htext i f payload hf hmessage
    exact ⟨f, hf, hmessage.trans (congrArg some (hself.symm.trans hcut))⟩
  · rintro ⟨f, hf, hmessage⟩
    obtain ⟨⟨j, r⟩, hr, hj, hle⟩ :=
      h.whole (i, f) hf (Option.isSome_iff_exists.mpr ⟨text, hmessage⟩)
    obtain rfl : i = j := hj.symm
    obtain ⟨hself, hne⟩ := htext i f text hf hmessage
    exact ⟨r, hr, (found_iff_of_place hstream hr hf hmessage).mpr ⟨hle, hself, hne⟩⟩

end Stream

/-- **Exactly when the messages are handed on as they were sent.** For every sequence of frames
and every way its bytes are read: what is handed on are the messages, each from its own place,
exactly if the reads are whole, and then it is the sequence of the messages. -/
theorem handed_iff (frames : List Frame) (reads : List (Option Read))
    (hstream : reads.reduceOption.flatMap Read.bytes = frames.flatMap Frame.bytes) :
    (handedAt reads.reduceOption = messagesAt frames ↔ ReadsWhole frames reads.reduceOption) ∧
      (ReadsWhole frames reads.reduceOption → handed reads = messages frames) := by
  refine ⟨⟨readsWhole_of_handedAt hstream, handedAt_of_readsWhole hstream⟩, fun hwhole => ?_⟩
  rw [← map_snd_handedAt, ← map_snd_messagesAt, handedAt_of_readsWhole hstream hwhole]

/-! ### Connections -/

/-- A message, a ping and the close. -/
def threeFrames : List Frame :=
  [.text (cstr "[1]") (by decide), .ping [] (by decide), .close [] (by decide)]

/-- Each in a read of its own, one of which fails at first. -/
def threeReads : List (Option Read) :=
  [some ⟨encode 0x81 none (cstr "[1]"), by decide, by decide⟩, none,
    some ⟨encode 0x89 none [], by decide, by decide⟩,
    some ⟨encode 0x88 none [], by decide, by decide⟩]

theorem handed_iff_threeFrames : handed threeReads = messages threeFrames := by
  refine (handed_iff threeFrames threeReads (by decide)).2 ⟨?_, ?_, ?_⟩
  · decide
  · decide
  · decide

/-- Two messages. -/
def twoFrames : List Frame := [.text (cstr "[1]") (by decide), .text (cstr "[2]") (by decide)]

/-- Both in one read. -/
def oneRead : List (Option Read) :=
  [some ⟨encode 0x81 none (cstr "[1]") ++ encode 0x81 none (cstr "[2]"), by decide, by decide⟩]

/-- The first byte of the first message, then everything else. -/
def splitReads : List (Option Read) :=
  [some ⟨[0x81], by decide, by decide⟩,
    some ⟨(encode 0x81 none (cstr "[1]") ++ encode 0x81 none (cstr "[2]")).drop 1,
      by decide, by decide⟩]

/-- The second message is lost in one read, and both in two. -/
theorem messages_lost :
    oneRead.reduceOption.flatMap Read.bytes = twoFrames.flatMap Frame.bytes ∧
      handed oneRead = [cstr "[1]"] ∧
      splitReads.reduceOption.flatMap Read.bytes = twoFrames.flatMap Frame.bytes ∧
      handed splitReads = [] ∧ messages twoFrames = [cstr "[1]", cstr "[2]"] := by
  decide

/-- A split message may be found again by chance, in bytes that are not its own: three pings under
a mask. So the texts alone do not say which message was handed on. -/
example :
    let message : CStr := [0xE1, 0x86, 0x68, 0x86, 0xE1, 0x86]
    let ping : Frame := .ping [] (by decide)
    let reads : List (Option Read) := [some ⟨[0x81, 6], by decide, by decide⟩,
      some ⟨message ++ [0x89, 0, 0x89, 0, 0x89, 0], by decide, by decide⟩]
    reads.reduceOption.flatMap Read.bytes =
        [Frame.text message (by decide), ping, ping, ping].flatMap Frame.bytes ∧
      handed reads = [message] ∧ handedAt reads.reduceOption = [(2, message)] := by
  decide

end Cvm

end TollGate
