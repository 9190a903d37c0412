import TollGate.Relay.Writers

/-!
# What handling an event needs

`handle_event` compares the time of an event with the ticks since the start, the storage stamps it
with `time(NULL)`. A device that knows the time rejects an event of the present, unless it has been
up for as long as the event is old (`handleEvent_present_iff`).

It and the validator check that fields are there and follow their strings, whatever type the
fields have; and the handler frees the tree of the event before it answers, and answers with the
id that was in it. `HandlerUses` and `ValidatorUses` are the strings they use. An event leads to no
string that is not there only if it is turned away before its id is known to be one
(`handling_total_iff`): whatever is saved, called a duplicate or called invalid is answered from
freed memory.
-/

namespace TollGate

namespace Relay

open CStr CJson

/-! ### The two clocks -/

/-- `xTaskGetTickCount() / configTICK_RATE_HZ`. -/
def tickSeconds (ticks : UInt32) : Int64 := (ticks / 1000).toUInt64.toInt64

/-- The surroundings at the time `t`, so many ticks after the start. -/
def Env.clocked (env : Env) (t : ℕ) (ticks : UInt32) : Env :=
  { env with now := UInt32.ofNat t, seconds := tickSeconds ticks }

theorem toInt_tickSeconds_add (ticks : UInt32) :
    (tickSeconds ticks + maxFutureSec).toInt = ((ticks.toNat / 1000 : ℕ) : ℤ) + 600 := by
  have hticks := ticks.toNat_lt
  have hnat : (ticks / 1000).toUInt64.toNat = ticks.toNat / 1000 := by
    rw [UInt32.toNat_toUInt64, UInt32.toNat_div]
    rfl
  have hseconds : (tickSeconds ticks).toInt = ((ticks.toNat / 1000 : ℕ) : ℤ) := by
    rw [← hnat]
    exact (UInt64.toInt_toInt64_eq_iff _).mpr (by omega)
  have hfuture : (maxFutureSec).toInt = 600 := rfl
  rw [Int64.toInt_add, hseconds, hfuture]
  exact Int.bmod_eq_of_le (by omega) (by omega)

/-- The answer to an event that the handler finds too far in the future. -/
def tooFarInFuture : String := "created_at too far in future"

/-- The messages of the storage are others. -/
theorem storeEvent_message_ne (p : Platform) (env : Env) (s : Engine) (json : CStr) (idItem : Json)
    (kind : Int32) : (storeEvent p env s json idItem kind).2.message ≠ tooFarInFuture := by
  have hsave : ∀ r, saveMessage r ≠ tooFarInFuture := by
    intro r
    cases r <;> decide
  unfold storeEvent
  dsimp only
  split
  · exact hsave _
  · have hstored : "" ≠ tooFarInFuture := by decide
    split
    · exact hstored
    · exact hstored

/-- An event gets an answer, and it is the one for the future exactly if the rate limiter lets it
pass and its time is over the limit. -/
theorem handleEvent_future_iff {p : Platform} {json : CStr} {obj : Json} {e : Event}
    (hparse : p.parse json = some obj) (he : e.Written obj) (env : Env) (s : Engine) :
    ∃ r, handleEvent p env s json = .ok r ∧ (r.2.message = tooFarInFuture ↔
      env.allowed = true ∧ e.createdAt.valueUInt64.toInt64 > env.seconds + maxFutureSec) := by
  unfold handleEvent
  by_cases hallowed : env.allowed = true
  · simp only [hallowed, Bool.not_true, Bool.false_eq_true, if_false, hparse, he.id, he.pubkey,
      he.kind, he.createdAt, true_and]
    by_cases hfuture :
        (Json.number e.createdAt).toNumber.valueUInt64.toInt64 > env.seconds + maxFutureSec
    · rw [if_pos hfuture]
      exact ⟨_, rfl, iff_of_true rfl hfuture⟩
    · rw [if_neg hfuture]
      -- every other answer has another text
      have hother : ∀ r : Engine × OkReply, r.2.message ≠ tooFarInFuture →
          ∃ r', Except.ok (ε := Fault) r = .ok r' ∧ (r'.2.message = tooFarInFuture ↔
            e.createdAt.valueUInt64.toInt64 > env.seconds + maxFutureSec) :=
        fun r hne => ⟨r, rfl, iff_of_false hne hfuture⟩
      simp only [Json.asString, deref, bind, Except.bind, hexBytes_hexText,
        relayValidatorVerifyEvent_of_written hparse he]
      split
      · exact hother _ (show "duplicate" ≠ tooFarInFuture by decide)
      · split
        · exact hother _ (show "invalid signature" ≠ tooFarInFuture by decide)
        · exact hother _ (storeEvent_message_ne p env s json _ _)
  · simp only [hallowed, Bool.not_false, if_true]
    refine ⟨_, rfl, iff_of_false ?_ fun h => Bool.false_ne_true h.1⟩
    show "rate limited" ≠ tooFarInFuture
    decide

/-- **Events of the present.** At the time `t`, so many ticks after the start, an event whose time
is not after `t` is not rejected as one of the future, exactly if the rate limiter turns it away or
its time is at most ten minutes behind the seconds since the start. -/
theorem handleEvent_present_iff {p : Platform} {json : CStr} {obj : Json} {e : Event}
    (hparse : p.parse json = some obj) (he : e.Written obj) (env : Env) (s : Engine) (t : ℕ)
    (ticks : UInt32) :
    ∃ r, handleEvent p (env.clocked t ticks) s json = .ok r ∧
      ((e.createdAt.valueUInt64.toNat ≤ t → r.2.message ≠ tooFarInFuture) ↔
        t < e.createdAt.valueUInt64.toNat ∨ env.allowed = false ∨
          e.createdAt.valueUInt64.toInt64.toInt ≤ ((ticks.toNat / 1000 : ℕ) : ℤ) + 600) := by
  obtain ⟨r, hr, hfuture⟩ := handleEvent_future_iff hparse he (env.clocked t ticks) s
  refine ⟨r, hr, ?_⟩
  have hlimit : e.createdAt.valueUInt64.toInt64 > (env.clocked t ticks).seconds + maxFutureSec ↔
      ((ticks.toNat / 1000 : ℕ) : ℤ) + 600 < e.createdAt.valueUInt64.toInt64.toInt := by
    rw [← toInt_tickSeconds_add]
    exact Int64.lt_iff_toInt_lt
  rw [ne_eq, hfuture, hlimit, not_and_or, Bool.not_eq_true, not_lt, ← not_lt, imp_iff_not_or,
    not_lt, not_le]
  rfl

/-- A reaction of the tenth second after the start, at that time. -/
theorem handleEvent_present_reaction :
    reactionPlatform.parse reactionText = some reaction.tree ∧
      ∃ r, handleEvent reactionPlatform (calmEnv.clocked 5 10000) (Engine.empty 5000 3600)
          reactionText = .ok r ∧
        ((reaction.createdAt.valueUInt64.toNat ≤ 5 → r.2.message ≠ tooFarInFuture) ↔
          5 < reaction.createdAt.valueUInt64.toNat ∨ calmEnv.allowed = false ∨
            reaction.createdAt.valueUInt64.toInt64.toInt ≤
              (((10000 : UInt32).toNat / 1000 : ℕ) : ℤ) + 600) :=
  ⟨parse_reactionText, handleEvent_present_iff parse_reactionText reaction.written_tree calmEnv
    (Engine.empty 5000 3600) 5 10000⟩

/-- A reaction of November 2023. -/
def recentReaction : Event := { reaction with createdAt := .ofInt 1700000000 }

/-- Its text. -/
def recentText : CStr :=
  cstr "\x7b\"id\":\"" ++ hexText recentReaction.id.toList ++ cstr "\",\"pubkey\":\"" ++
    hexText recentReaction.pubkey.toList ++
    cstr "\",\"created_at\":1700000000,\"kind\":7,\"tags\":[],\"content\":\"\",\"sig\":\"" ++
    hexText recentReaction.sig.toList ++ cstr "\"\x7d"

/-- `cJSON` on this text, with its hash for an id and a signature. -/
def recentPlatform : Platform :=
  { textPlatform [(recentText, recentReaction.tree)] with
    sha256 := fun _ => recentReaction.id
    schnorrVerify := fun _ _ _ => true }

/-- A device that knows the time and has been up for an hour rejects it. -/
theorem recent_reaction_rejected :
    AuthenticText recentPlatform recentText ∧
      recentReaction.createdAt.valueUInt64.toNat ≤ 1700000000 ∧
      ∃ r, handleEvent recentPlatform (calmEnv.clocked 1700000000 3600000) (Engine.empty 5000 3600)
        recentText = .ok r ∧ r.2.message = tooFarInFuture := by
  have hparse : recentPlatform.parse recentText = some recentReaction.tree := by
    simp [recentPlatform, textPlatform]
  refine ⟨⟨_, hparse, recentReaction, recentReaction.written_tree, rfl, rfl⟩, by decide, ?_⟩
  obtain ⟨r, hr, hfuture⟩ := handleEvent_future_iff hparse recentReaction.written_tree
    (calmEnv.clocked 1700000000 3600000) (Engine.empty 5000 3600)
  exact ⟨r, hr, hfuture.mpr ⟨rfl, by decide⟩⟩

/-! ### Runs that finish -/

/-- The run does not end at a null pointer. -/
def Finishes {α : Type} (x : Except Fault α) : Prop := ∃ a, x = .ok a

section Finishes

variable {α β : Type}

@[simp] theorem finishes_ok (a : α) : Finishes (.ok a) := ⟨a, rfl⟩

@[simp] theorem finishes_pure (a : α) : Finishes (pure a : Except Fault α) := ⟨a, rfl⟩

@[simp] theorem not_finishes_error (fault : Fault) : ¬ Finishes (.error fault : Except Fault α) :=
  nofun

@[simp] theorem finishes_map {x : Except Fault α} {f : α → β} :
    Finishes (x.map f) ↔ Finishes x := by
  cases x with
  | ok a => exact iff_of_true ⟨f a, rfl⟩ ⟨a, rfl⟩
  | error fault => exact iff_of_false nofun nofun

theorem deref_eq_ok {o : Option α} {a : α} : deref o = .ok a ↔ o = some a := by
  cases o with
  | none => exact iff_of_false nofun nofun
  | some a' =>
    refine ⟨fun h => ?_, fun h => ?_⟩
    · rw [Except.ok.inj h]
    · rw [h]
      rfl

/-- Two runs in a row. -/
theorem finishes_bind {x : Except Fault α} {f : α → Except Fault β} :
    Finishes (x >>= f) ↔ ∃ a, x = .ok a ∧ Finishes (f a) := by
  cases x with
  | ok a =>
    refine ⟨fun h => ⟨a, rfl, h⟩, ?_⟩
    rintro ⟨a', ha', h⟩
    rwa [← Except.ok.inj ha'] at h
  | error fault => exact iff_of_false nofun fun h => by cases h.choose_spec.1

end Finishes

/-! ### The strings of the fields -/

/-- The field is a string. -/
def IsString (obj : Json) (name : String) : Prop :=
  ∃ text, obj.getObjectItem name = some (.string text)

/-- The field is a string of this length. -/
def HasLength (obj : Json) (name : String) (n : ℕ) : Prop :=
  ∃ text, obj.getObjectItem name = some (.string text) ∧ text.length = n

/-- The field is a string whose digits are read as so many bytes. -/
def HasBytes (p : Platform) (obj : Json) (name : String) (n : ℕ) : Prop :=
  ∃ text, obj.getObjectItem name = some (.string text) ∧ (hexBytes n p.heap text).isSome

/-- The field is there. -/
def HasItem (obj : Json) (name : String) : Prop := (obj.getObjectItem name).isSome

/-- The fields that the validator looks for. -/
def Signed (obj : Json) : Prop := HasItem obj "id" ∧ HasItem obj "pubkey" ∧ HasItem obj "sig"

/-- They have the right lengths. -/
def Measured (obj : Json) : Prop :=
  Signed obj ∧ HasLength obj "id" 64 ∧ HasLength obj "pubkey" 64 ∧ HasLength obj "sig" 128

/-- And they are hexadecimal. -/
def Readable (p : Platform) (obj : Json) : Prop :=
  Measured obj ∧ HasBytes p obj "id" 32 ∧ HasBytes p obj "pubkey" 32 ∧ HasBytes p obj "sig" 64

/-- `relay_validator_verify_event` uses the string of a field. -/
inductive ValidatorUses (p : Platform) (obj : Json) : String → Prop where
  /-- The three calls of `strlen`, each after the one before has found its length. -/
  | idLength (h : Signed obj) : ValidatorUses p obj "id"
  | pubkeyLength (h : Signed obj) (hid : HasLength obj "id" 64) : ValidatorUses p obj "pubkey"
  | sigLength (h : Signed obj) (hid : HasLength obj "id" 64) (hpk : HasLength obj "pubkey" 64) :
      ValidatorUses p obj "sig"
  /-- The three calls of `hex_to_bytes`. -/
  | idBytes (h : Measured obj) : ValidatorUses p obj "id"
  | pubkeyBytes (h : Measured obj) (hid : HasBytes p obj "id" 32) : ValidatorUses p obj "pubkey"
  | sigBytes (h : Measured obj) (hid : HasBytes p obj "id" 32) (hpk : HasBytes p obj "pubkey" 32) :
      ValidatorUses p obj "sig"
  /-- The two strings that `serialize_event_for_id` makes. -/
  | serialPubkey (h : Readable p obj) : ValidatorUses p obj "pubkey"
  | serialContent (h : Readable p obj) (hcreated : HasItem obj "created_at")
      (hkind : HasItem obj "kind") : ValidatorUses p obj "content"

/-- The event gets past the rate limiter, and the handler finds the fields that it looks for. -/
def Handled (env : Env) (obj : Json) : Prop :=
  env.allowed = true ∧ HasItem obj "id" ∧ HasItem obj "pubkey" ∧ HasItem obj "kind" ∧
    HasItem obj "created_at"

/-- Its time is over the limit. -/
def FromFuture (env : Env) (obj : Json) : Prop :=
  ∃ createdAt, obj.getObjectItem "created_at" = some createdAt ∧
    createdAt.toNumber.valueUInt64.toInt64 > env.seconds + maxFutureSec

/-- Its id is hexadecimal, and is in the store or not. -/
def HasId (p : Platform) (s : Engine) (obj : Json) (stored : Bool) : Prop :=
  ∃ text id, obj.getObjectItem "id" = some (.string text) ∧ hexBytes 32 p.heap text = some id ∧
    s.eventExists id = stored

/-- The use of the string of a field of the event: while its tree is there, or after `cJSON_Delete`
has freed it. -/
inductive StringUse where
  | live (name : String)
  | freed (name : String)

/-- The string that is used is there: the field is one, and its tree is not freed. -/
def StringUse.Backed (obj : Json) : StringUse → Prop
  | .live name => IsString obj name
  | .freed _ => False

/-- `handle_event` uses a string. -/
inductive HandlerUses (p : Platform) (env : Env) (s : Engine) (json : CStr) (obj : Json) :
    StringUse → Prop where
  /-- The id in the answer to an event of the future, given once the tree is freed. -/
  | future (h : Handled env obj) (hfuture : FromFuture env obj) :
      HandlerUses p env s json obj (.freed "id")
  /-- The call of `relay_hex_to_bytes`. -/
  | idBytes (h : Handled env obj) (hfuture : ¬ FromFuture env obj) :
      HandlerUses p env s json obj (.live "id")
  /-- The id in the answer to a duplicate. -/
  | duplicate (h : Handled env obj) (hfuture : ¬ FromFuture env obj) (hold : HasId p s obj true) :
      HandlerUses p env s json obj (.freed "id")
  | validator (h : Handled env obj) (hfuture : ¬ FromFuture env obj) (hnew : HasId p s obj false)
      {name : String} (huses : ValidatorUses p obj name) :
      HandlerUses p env s json obj (.live name)
  /-- The id in every answer behind the validator, whatever it said and the storage says. -/
  | answer (h : Handled env obj) (hfuture : ¬ FromFuture env obj) (hnew : HasId p s obj false)
      {valid : Bool} (hvalid : relayValidatorVerifyEvent p json = .ok valid) :
      HandlerUses p env s json obj (.freed "id")
  /-- The key that the broadcast is given. -/
  | broadcast (h : Handled env obj) (hfuture : ¬ FromFuture env obj) (hnew : HasId p s obj false)
      (hvalid : relayValidatorVerifyEvent p json = .ok true)
      (hsaved : (s.saveEventJson p.heap env.now env.opened json).2 = .ok) :
      HandlerUses p env s json obj (.freed "pubkey")

/-- `relay_validator_verify_event` finishes and uses no string of a field that has none. -/
def ValidatorTotal (p : Platform) (json : CStr) : Prop :=
  Finishes (relayValidatorVerifyEvent p json) ∧
    ∀ obj, p.parse json = some obj → ∀ name, ValidatorUses p obj name → IsString obj name

/-- `handle_event` finishes with an answer and uses no string that is not there. -/
def HandlerTotal (p : Platform) (env : Env) (s : Engine) (json : CStr) : Prop :=
  Finishes (handleEvent p env s json) ∧
    ∀ obj, p.parse json = some obj → ∀ u, HandlerUses p env s json obj u → u.Backed obj

/-- Every field that the checks of the validator come to is a string, and `last` holds behind
them. -/
def Checked (p : Platform) (obj : Json) (last : Prop) : Prop :=
  Signed obj → IsString obj "id" ∧ (HasLength obj "id" 64 →
    IsString obj "pubkey" ∧ (HasLength obj "pubkey" 64 → IsString obj "sig" ∧
      (Readable p obj → last)))

/-- What the validator needs of an event: its strings as far as the checks come, and behind them
the other fields, with a content that is a string. -/
def ValidatorReady (p : Platform) (obj : Json) : Prop :=
  Checked p obj (HasItem obj "created_at" ∧ HasItem obj "kind" ∧ IsString obj "content")

/-- What the handler needs of an event that it handles: it turns it away with an empty id, since
the time is within the limit and the id is a string that is not hexadecimal. -/
def HandlerReady (p : Platform) (env : Env) (obj : Json) : Prop :=
  Handled env obj → ¬ FromFuture env obj ∧ IsString obj "id" ∧ ¬ HasBytes p obj "id" 32

section Validator

variable {p : Platform} {json : CStr} {obj : Json}

theorem HasLength.isString {name : String} {n : ℕ} (h : HasLength obj name n) :
    IsString obj name := by
  obtain ⟨text, htext, -⟩ := h
  exact ⟨text, htext⟩

theorem HasBytes.isString {name : String} {n : ℕ} (h : HasBytes p obj name n) :
    IsString obj name := by
  obtain ⟨text, htext, -⟩ := h
  exact ⟨text, htext⟩

theorem IsString.hasItem {name : String} (h : IsString obj name) : HasItem obj name := by
  obtain ⟨text, htext⟩ := h
  unfold HasItem
  rw [htext]
  rfl

/-- What holds of the string of a field. -/
theorem forall_string_iff {name : String} {text : CStr}
    (h : obj.getObjectItem name = some (.string text)) {P : CStr → Prop} :
    (∀ text', obj.getObjectItem name = some (.string text') → P text') ↔ P text := by
  refine ⟨fun hall => hall text h, fun htext text' htext' => ?_⟩
  rwa [← Json.string.inj (Option.some.inj (h.symm.trans htext'))]

/-- The length of a field is that of its string. -/
theorem hasLength_iff {name : String} {text : CStr}
    (h : obj.getObjectItem name = some (.string text)) (n : ℕ) :
    HasLength obj name n ↔ text.length = n := by
  refine ⟨?_, fun hn => ⟨text, h, hn⟩⟩
  rintro ⟨text', htext', hn⟩
  obtain rfl := Json.string.inj (Option.some.inj (h.symm.trans htext'))
  exact hn

theorem hasBytes_iff {name : String} {text : CStr}
    (h : obj.getObjectItem name = some (.string text)) (n : ℕ) :
    HasBytes p obj name n ↔ (hexBytes n p.heap text).isSome := by
  refine ⟨?_, fun hn => ⟨text, h, hn⟩⟩
  rintro ⟨text', htext', hn⟩
  obtain rfl := Json.string.inj (Option.some.inj (h.symm.trans htext'))
  exact hn

/-- Behind a call of `strlen` the run goes on with a string of the length, or ends well. -/
theorem finishes_stringOfLength {name : String} {item : Json}
    (h : obj.getObjectItem name = some item) (n : ℕ) {next : Option CStr → Except Fault Bool}
    (hother : Finishes (next none)) :
    Finishes (stringOfLength n item >>= next) ↔ IsString obj name ∧
      (HasLength obj name n → ∀ text, obj.getObjectItem name = some (.string text) →
        Finishes (next (some text))) := by
  cases hstring : item.asString with
  | none =>
    have hno : ¬ IsString obj name := by
      rintro ⟨text, htext⟩
      rw [Option.some.inj (h.symm.trans htext)] at hstring
      cases hstring
    rw [stringOfLength, hstring]
    exact iff_of_false (not_finishes_error _) fun hboth => hno hboth.1
  | some text =>
    obtain rfl := Json.asString_eq_some.mp hstring
    have hlen : stringOfLength n (.string text) =
        .ok (if text.length = n then some text else none) := rfl
    rw [hlen, hasLength_iff h]
    show Finishes (next _) ↔ _
    by_cases hn : text.length = n
    · rw [if_pos hn]
      refine ⟨fun hnext => ⟨⟨text, h⟩, fun _ text' htext' => ?_⟩, fun hboth => hboth.2 hn text h⟩
      rwa [← Json.string.inj (Option.some.inj (h.symm.trans htext'))]
    · rw [if_neg hn]
      exact iff_of_true hother ⟨⟨text, h⟩, fun hlen => absurd hlen hn⟩

/-- The serialisation follows the pointers to its four fields. -/
theorem finishes_serialArray : Finishes (serialArray obj) ↔ HasItem obj "pubkey" ∧
    HasItem obj "created_at" ∧ HasItem obj "kind" ∧ HasItem obj "content" := by
  have hderef : ∀ {o : Option Json} {next : Json → Except Fault Json},
      Finishes (deref o >>= next) ↔ o.isSome ∧ ∀ j, o = some j → Finishes (next j) := by
    intro o next
    cases o with
    | none => exact iff_of_false (not_finishes_error _) fun hboth => Bool.false_ne_true hboth.1
    | some j =>
      refine ⟨fun hnext => ⟨rfl, fun j' hj' => ?_⟩, fun hboth => hboth.2 j rfl⟩
      rwa [← Option.some.inj hj']
  unfold serialArray HasItem
  simp only [hderef, finishes_pure, implies_true, and_true]
  refine and_congr_right fun hpk => ?_
  obtain ⟨pubkey, hpubkey⟩ := Option.isSome_iff_exists.mp hpk
  refine ⟨fun h => ?_, ?_⟩
  · obtain ⟨hcreated, hrest⟩ := h pubkey hpubkey
    obtain ⟨createdAt, hcreatedAt⟩ := Option.isSome_iff_exists.mp hcreated
    obtain ⟨hkind, hlast⟩ := hrest createdAt hcreatedAt
    obtain ⟨kind, hkind'⟩ := Option.isSome_iff_exists.mp hkind
    exact ⟨hcreated, hkind, hlast kind hkind'⟩
  · rintro ⟨hcreated, hkind, hcontent⟩ _ _
    exact ⟨hcreated, fun _ _ => ⟨hkind, fun _ _ => hcontent⟩⟩

/-- The validator finishes behind its checks if the serialisation does. -/
theorem finishes_verifyFields (hparse : p.parse json = some obj) (idHex pkHex sigHex : CStr) :
    Finishes (verifyFields p json idHex pkHex sigHex) ↔
      ((hexBytes 32 p.heap idHex).isSome ∧ (hexBytes 32 p.heap pkHex).isSome ∧
        (hexBytes 64 p.heap sigHex).isSome → Finishes (serialArray obj)) := by
  unfold verifyFields
  cases hexBytes 32 p.heap idHex with
  | none => simp
  | some eventId =>
    cases hexBytes 32 p.heap pkHex with
    | none => simp
    | some pubkey =>
      cases hexBytes 64 p.heap sigHex with
      | none => simp
      | some sig =>
        have hserial : Finishes (verifyEventId p json eventId) ↔ Finishes (serialArray obj) := by
          unfold verifyEventId serializeEventForId
          rw [hparse]
          dsimp only
          cases serialArray obj with
          | error fault => exact iff_of_false nofun nofun
          | ok serial => exact iff_of_true ⟨_, rfl⟩ ⟨_, rfl⟩
        simpa using hserial

/-- The validator finishes exactly if every field that its checks come to is a string and the
fields of the serialisation are there behind them. -/
theorem finishes_validator (hparse : p.parse json = some obj) :
    Finishes (relayValidatorVerifyEvent p json) ↔
      Checked p obj (HasItem obj "created_at" ∧ HasItem obj "kind" ∧ HasItem obj "content") := by
  unfold relayValidatorVerifyEvent Checked
  rw [hparse]
  dsimp only
  by_cases hsigned : Signed obj
  · rw [imp_iff_right hsigned]
    have hpubkey : HasItem obj "pubkey" := hsigned.2.1
    obtain ⟨idItem, hid⟩ := Option.isSome_iff_exists.mp hsigned.1
    obtain ⟨pkItem, hpk⟩ := Option.isSome_iff_exists.mp hsigned.2.1
    obtain ⟨sigItem, hsig⟩ := Option.isSome_iff_exists.mp hsigned.2.2
    simp only [hid, hpk, hsig]
    -- one check after the other
    rw [finishes_stringOfLength hid 64 (finishes_pure _)]
    refine and_congr_right fun ⟨idHex, hidHex⟩ => imp_congr_right fun hidLen => ?_
    rw [forall_string_iff hidHex, finishes_stringOfLength hpk 64 (finishes_pure _)]
    refine and_congr_right fun ⟨pkHex, hpkHex⟩ => imp_congr_right fun hpkLen => ?_
    rw [forall_string_iff hpkHex, finishes_stringOfLength hsig 128 (finishes_pure _)]
    refine and_congr_right fun ⟨sigHex, hsigHex⟩ => ?_
    rw [forall_string_iff hsigHex, finishes_verifyFields hparse, finishes_serialArray,
      and_iff_right hpubkey]
    unfold Readable Measured
    rw [hasBytes_iff hidHex, hasBytes_iff hpkHex, hasBytes_iff hsigHex, ← and_imp]
    refine imp_congr_left (and_congr_left fun _ => ?_)
    exact ⟨fun hsigLen => ⟨hsigned, hidLen, hpkLen, hsigLen⟩, fun h => h.2.2.2⟩
  · refine iff_of_true ?_ fun h => absurd h hsigned
    split
    next idItem pkItem sigItem hid hpk hsig =>
      exact absurd (by simp [Signed, HasItem, hid, hpk, hsig]) hsigned
    · exact finishes_ok _

/-- The fields whose strings the validator uses have one exactly if every field that its checks
come to is a string, and so is the content when the serialisation comes to it. -/
theorem validatorUses_iff : (∀ name, ValidatorUses p obj name → IsString obj name) ↔
    Checked p obj (HasItem obj "created_at" ∧ HasItem obj "kind" → IsString obj "content") := by
  refine ⟨?_, ?_⟩
  · intro h hsigned
    refine ⟨h _ (.idLength hsigned), fun hid => ⟨h _ (.pubkeyLength hsigned hid), fun hpk => ?_⟩⟩
    refine ⟨h _ (.sigLength hsigned hid hpk), fun hreadable => ?_⟩
    rintro ⟨hcreated, hkind⟩
    exact h _ (.serialContent hreadable hcreated hkind)
  · intro h name huses
    cases huses with
    | idLength hsigned => exact (h hsigned).1
    | pubkeyLength hsigned hid => exact ((h hsigned).2 hid).1
    | sigLength hsigned hid hpk => exact (((h hsigned).2 hid).2 hpk).1
    | idBytes hmeasured => exact hmeasured.2.1.isString
    | pubkeyBytes hmeasured hid => exact hmeasured.2.2.1.isString
    | sigBytes hmeasured hid hpk => exact hmeasured.2.2.2.isString
    | serialPubkey hreadable => exact hreadable.1.2.2.1.isString
    | serialContent hreadable hcreated hkind =>
      obtain ⟨hsigned, hid, hpk, -⟩ := hreadable.1
      exact (((h hsigned).2 hid).2 hpk).2 hreadable ⟨hcreated, hkind⟩

theorem checked_and {P Q : Prop} :
    Checked p obj P ∧ Checked p obj Q ↔ Checked p obj (P ∧ Q) := by
  unfold Checked
  refine ⟨?_, fun h => ⟨fun hsigned => ?_, fun hsigned => ?_⟩⟩
  · rintro ⟨hP, hQ⟩ hsigned
    refine ⟨(hP hsigned).1, fun hid => ⟨((hP hsigned).2 hid).1, fun hpk => ?_⟩⟩
    refine ⟨(((hP hsigned).2 hid).2 hpk).1, fun hreadable => ?_⟩
    exact ⟨(((hP hsigned).2 hid).2 hpk).2 hreadable, (((hQ hsigned).2 hid).2 hpk).2 hreadable⟩
  · refine ⟨(h hsigned).1, fun hid => ⟨((h hsigned).2 hid).1, fun hpk => ?_⟩⟩
    exact (((h hsigned).2 hid).2 hpk).imp_right fun hlast hreadable => (hlast hreadable).1
  · refine ⟨(h hsigned).1, fun hid => ⟨((h hsigned).2 hid).1, fun hpk => ?_⟩⟩
    exact (((h hsigned).2 hid).2 hpk).imp_right fun hlast hreadable => (hlast hreadable).2

/-- What the validator needs of an event, to finish and to use strings only. -/
theorem validatorReady_iff (hparse : p.parse json = some obj) :
    Finishes (relayValidatorVerifyEvent p json) ∧
        (∀ name, ValidatorUses p obj name → IsString obj name) ↔
      ValidatorReady p obj := by
  rw [finishes_validator hparse, validatorUses_iff, checked_and]
  refine iff_of_eq (congrArg (Checked p obj) (propext ⟨?_, ?_⟩))
  · rintro ⟨⟨hcreated, hkind, -⟩, hcontent⟩
    exact ⟨hcreated, hkind, hcontent ⟨hcreated, hkind⟩⟩
  · rintro ⟨hcreated, hkind, hcontent⟩
    exact ⟨⟨hcreated, hkind, hcontent.hasItem⟩, fun _ => hcontent⟩

theorem validatorTotal_iff : ValidatorTotal p json ↔
    ∀ obj, p.parse json = some obj → ValidatorReady p obj := by
  unfold ValidatorTotal
  cases hparse : p.parse json with
  | none =>
    refine iff_of_true ⟨⟨false, ?_⟩, fun _ => nofun⟩ fun _ => nofun
    rw [relayValidatorVerifyEvent, hparse]
  | some obj =>
    simp only [Option.some.injEq, forall_eq']
    exact validatorReady_iff hparse

end Validator

section Handler

variable {p : Platform} {env : Env} {s : Engine} {json : CStr} {obj : Json}

/-- What is not handled gets its answer at once. -/
theorem finishes_of_not_handled (hparse : p.parse json = some obj) (h : ¬ Handled env obj) :
    Finishes (handleEvent p env s json) := by
  unfold handleEvent
  rw [hparse]
  split
  · exact finishes_ok _
  next hallowed =>
    dsimp only
    split
    next idItem pkItem kindItem createdAt hid hpk hkind hcreated =>
      refine absurd ?_ h
      simpa [Handled, HasItem, hid, hpk, hkind, hcreated] using hallowed
    · exact finishes_ok _

/-- The handler finishes exactly if it does not come to an id that is no string, nor to a validator
that does not finish. -/
theorem finishes_handleEvent (hparse : p.parse json = some obj) :
    Finishes (handleEvent p env s json) ↔ (Handled env obj → ¬ FromFuture env obj →
      IsString obj "id" ∧ (HasId p s obj false → Finishes (relayValidatorVerifyEvent p json))) := by
  by_cases hhandled : Handled env obj
  · rw [imp_iff_right hhandled]
    obtain ⟨hallowed, hid, hpk, hkind, hcreated⟩ := hhandled
    obtain ⟨idItem, hid⟩ := Option.isSome_iff_exists.mp hid
    obtain ⟨pkItem, hpk⟩ := Option.isSome_iff_exists.mp hpk
    obtain ⟨kindItem, hkind⟩ := Option.isSome_iff_exists.mp hkind
    obtain ⟨createdAt, hcreated⟩ := Option.isSome_iff_exists.mp hcreated
    unfold handleEvent
    simp only [hallowed, hparse, hid, hpk, hkind, hcreated, Bool.not_true, Bool.false_eq_true,
      if_false]
    by_cases hfuture : createdAt.toNumber.valueUInt64.toInt64 > env.seconds + maxFutureSec
    · rw [if_pos hfuture]
      exact iff_of_true (finishes_ok _) fun hpast => absurd ⟨createdAt, hcreated, hfuture⟩ hpast
    · have hpast : ¬ FromFuture env obj := by
        rintro ⟨createdAt', hcreated', hfuture'⟩
        obtain rfl := Option.some.inj (hcreated.symm.trans hcreated')
        exact hfuture hfuture'
      rw [if_neg hfuture, imp_iff_right hpast, finishes_bind]
      refine ⟨?_, ?_⟩
      · rintro ⟨idHex, hidHex, hrest⟩
        have hitem : obj.getObjectItem "id" = some (.string idHex) := by
          rw [hid, Json.asString_eq_some.mp (deref_eq_ok.mp hidHex)]
        refine ⟨⟨idHex, hitem⟩, ?_⟩
        rintro ⟨text, id, htext, hbytes, hnew⟩
        obtain rfl := Json.string.inj (Option.some.inj (hitem.symm.trans htext))
        simp only [hbytes, hnew, Bool.false_eq_true, if_false] at hrest
        obtain ⟨valid, hvalid, -⟩ := finishes_bind.mp hrest
        exact ⟨valid, hvalid⟩
      · rintro ⟨⟨idHex, hitem⟩, hrest⟩
        obtain rfl := Option.some.inj (hid.symm.trans hitem)
        refine ⟨idHex, rfl, ?_⟩
        cases hbytes : hexBytes 32 p.heap idHex with
        | none => exact finishes_pure _
        | some id =>
          dsimp only
          by_cases hexists : s.eventExists id = true
          · rw [if_pos hexists]
            exact finishes_pure _
          · rw [if_neg hexists]
            obtain ⟨valid, hvalid⟩ := hrest ⟨idHex, id, hitem, hbytes, Bool.not_eq_true _ ▸ hexists⟩
            refine finishes_bind.mpr ⟨valid, hvalid, ?_⟩
            split
            · exact finishes_pure _
            · exact finishes_pure _
  · exact iff_of_true (finishes_of_not_handled hparse hhandled) fun h => absurd h hhandled

/-- A hexadecimal id is in the store or not. -/
theorem hasBytes_id_iff : HasBytes p obj "id" 32 ↔ HasId p s obj true ∨ HasId p s obj false := by
  refine ⟨?_, ?_⟩
  · rintro ⟨text, htext, hbytes⟩
    obtain ⟨id, hid⟩ := Option.isSome_iff_exists.mp hbytes
    cases hstored : s.eventExists id with
    | true => exact Or.inl ⟨text, id, htext, hid, hstored⟩
    | false => exact Or.inr ⟨text, id, htext, hid, hstored⟩
  · rintro (⟨text, id, htext, hid, -⟩ | ⟨text, id, htext, hid, -⟩)
    · exact ⟨text, htext, Option.isSome_iff_exists.mpr ⟨id, hid⟩⟩
    · exact ⟨text, htext, Option.isSome_iff_exists.mpr ⟨id, hid⟩⟩

/-- The handler that finishes uses a freed string as soon as the time is over the limit or the id
is hexadecimal. -/
theorem handlerTotal_iff_of_parse (hparse : p.parse json = some obj) :
    Finishes (handleEvent p env s json) ∧
        (∀ u, HandlerUses p env s json obj u → u.Backed obj) ↔
      HandlerReady p env obj := by
  rw [finishes_handleEvent hparse]
  refine ⟨?_, ?_⟩
  · rintro ⟨hfinishes, huses⟩ hhandled
    have hpast : ¬ FromFuture env obj := fun hfuture => huses _ (.future hhandled hfuture)
    refine ⟨hpast, huses _ (.idBytes hhandled hpast), fun hbytes => ?_⟩
    -- an id that is known is answered as a duplicate, any other one with what the validator says
    rcases (hasBytes_id_iff (s := s)).mp hbytes with hold | hnew
    · exact huses _ (.duplicate hhandled hpast hold)
    · obtain ⟨valid, hvalid⟩ := (hfinishes hhandled hpast).2 hnew
      exact huses _ (.answer hhandled hpast hnew hvalid)
  · intro hready
    have hno : ∀ stored, Handled env obj → ¬ HasId p s obj stored := by
      intro stored hhandled hid
      refine (hready hhandled).2.2 ((hasBytes_id_iff (s := s)).mpr ?_)
      cases stored with
      | true => exact Or.inl hid
      | false => exact Or.inr hid
    refine ⟨fun hhandled _ => ⟨(hready hhandled).2.1, fun hnew => absurd hnew (hno _ hhandled)⟩, ?_⟩
    intro u huse
    cases huse with
    | future hhandled hfuture => exact absurd hfuture (hready hhandled).1
    | idBytes hhandled hpast => exact (hready hhandled).2.1
    | duplicate hhandled hpast hold => exact absurd hold (hno _ hhandled)
    | validator hhandled hpast hnew huses => exact absurd hnew (hno _ hhandled)
    | answer hhandled hpast hnew hvalid => exact absurd hnew (hno _ hhandled)
    | broadcast hhandled hpast hnew hvalid hsaved => exact absurd hnew (hno _ hhandled)

theorem handlerTotal_iff : HandlerTotal p env s json ↔
    ∀ obj, p.parse json = some obj → HandlerReady p env obj := by
  unfold HandlerTotal
  cases hparse : p.parse json with
  | none =>
    refine iff_of_true ⟨?_, fun _ => nofun⟩ fun _ => nofun
    unfold handleEvent
    rw [hparse]
    split
    · exact finishes_ok _
    · exact finishes_ok _
  | some obj =>
    simp only [Option.some.injEq, forall_eq']
    exact handlerTotal_iff_of_parse hparse

end Handler

/-- **Total handling.** On every text a client can send, the handler and the validator finish and
use no string that is not there, exactly if the text is no JSON, or the event is turned away before
an id is answered and has what the validator needs of it. -/
theorem handling_total_iff (p : Platform) (env : Env) (s : Engine) (json : CStr) :
    HandlerTotal p env s json ∧ ValidatorTotal p json ↔
      ∀ obj, p.parse json = some obj → HandlerReady p env obj ∧ ValidatorReady p obj := by
  rw [handlerTotal_iff, validatorTotal_iff]
  exact ⟨fun h obj hparse => ⟨h.1 obj hparse, h.2 obj hparse⟩,
    fun h => ⟨fun obj hparse => (h obj hparse).1, fun obj hparse => (h obj hparse).2⟩⟩

/-- Well-formed events are not among them: past the rate limiter, each is answered from freed
memory. -/
theorem Event.Written.not_handlerTotal {p : Platform} {json : CStr} {obj : Json} {e : Event}
    (he : e.Written obj) (hparse : p.parse json = some obj) {env : Env}
    (hallowed : env.allowed = true) (s : Engine) : ¬ HandlerTotal p env s json := by
  intro htotal
  have hhandled : Handled env obj := by
    unfold Handled HasItem
    rw [he.id, he.pubkey, he.kind, he.createdAt]
    exact ⟨hallowed, rfl, rfl, rfl, rfl⟩
  obtain ⟨-, -, hno⟩ := handlerTotal_iff.mp htotal obj hparse hhandled
  refine hno ((hasBytes_iff he.id 32).mpr ?_)
  rw [hexBytes_hexText]
  rfl

/-- The id in its answer is what stands there. -/
theorem handleEvent_id_of_written {p : Platform} {json : CStr} {obj : Json} {e : Event}
    (hparse : p.parse json = some obj) (he : e.Written obj) {env : Env}
    (hallowed : env.allowed = true) (s : Engine) :
    ∃ r, handleEvent p env s json = .ok r ∧ r.2.id = some env.freed := by
  unfold handleEvent
  simp only [hallowed, Bool.not_true, Bool.false_eq_true, if_false, hparse, he.id, he.pubkey,
    he.kind, he.createdAt]
  split
  · exact ⟨_, rfl, rfl⟩
  · simp only [Json.asString, deref, bind, Except.bind, hexBytes_hexText,
      relayValidatorVerifyEvent_of_written hparse he]
    split
    · exact ⟨_, rfl, rfl⟩
    · split
      · exact ⟨_, rfl, rfl⟩
      · refine ⟨_, rfl, ?_⟩
        -- saved, full or a duplicate after all: the answer has the same id
        unfold storeEvent
        dsimp only
        split
        · rfl
        · split
          · rfl
          · rfl

/-- `cJSON` on an event whose id is a number. -/
def numberedPlatform : Platform :=
  textPlatform [(cstr "\x7b\"id\":5,\"pubkey\":\"\",\"kind\":1,\"created_at\":1\x7d",
    .object [(cstr "id", .number (.ofInt 5)), (cstr "pubkey", .string []),
      (cstr "kind", .number (.ofInt 1)), (cstr "created_at", .number (.ofInt 1))])]

/-- The handler looks for the digits of this id behind a null pointer. -/
theorem numbered_event_faults :
    ¬ (HandlerTotal numberedPlatform calmEnv (Engine.empty 5000 3600)
        (cstr "\x7b\"id\":5,\"pubkey\":\"\",\"kind\":1,\"created_at\":1\x7d") ∧
      ValidatorTotal numberedPlatform
        (cstr "\x7b\"id\":5,\"pubkey\":\"\",\"kind\":1,\"created_at\":1\x7d")) := by
  rintro ⟨⟨⟨r, hr⟩, -⟩, -⟩
  have hfault : handleEvent numberedPlatform calmEnv (Engine.empty 5000 3600)
      (cstr "\x7b\"id\":5,\"pubkey\":\"\",\"kind\":1,\"created_at\":1\x7d") =
        .error .nullPointer := rfl
  rw [hfault] at hr
  cases hr

end Relay

end TollGate
