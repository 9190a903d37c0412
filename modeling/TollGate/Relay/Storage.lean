import TollGate.Lib.CText
import TollGate.Lib.TombstoneLog

/-!
# The event store of the local relay

`storage_engine.c`: an index in memory, one file for each event and a copy of the index
in flash. An event is saved under the next file number, deleted by a mark in its index
entry, and marked entries are squeezed out of the index from time to time.

What the index knows of an event is searched for in its JSON text with `strstr`
(`parse_event_meta`), and its id and key are read by `relay_hex_to_bytes`, which takes
two characters at a time to `sscanf`. Such a read may go over the end of the string;
`heap` gives the bytes that stand in memory behind the terminator.

The engine is one that `storage_init` made, so the tests of `initialized` are left out.
-/

namespace TollGate

namespace Relay

open CStr TombstoneLog

/-! ### Hexadecimal fields -/

/-- The value of a hexadecimal digit. -/
def hexDigit (b : UInt8) : UInt8 := UInt8.ofNat (digitValue b)

/-- `sscanf(mem, "%02x", &byte)`: at most two characters after any blanks. A sign is one
of the two, and of `0x` the zero is taken. -/
def scanHexByte (mem : List UInt8) : Option UInt8 :=
  match mem.dropWhile isSpace with
  | [] => none
  | c :: rest =>
    -- a sign takes one of the two characters, so one digit is left
    if c = 43 ∨ c = 45 then
      match rest.head? with
      | some d =>
        if isDigit 16 d then some (if c = 45 then -hexDigit d else hexDigit d) else none
      | none => none
    else if isDigit 16 c then
      match rest.head? with
      | some d => if isDigit 16 d then some (16 * hexDigit c + hexDigit d) else some (hexDigit c)
      | none => some (hexDigit c)
    else none

/-- The loop of `relay_hex_to_bytes`: the bytes written, and whether all of them were. -/
def hexLoop : ℕ → List UInt8 → List UInt8 × Bool
  | 0, _ => ([], true)
  | n + 1, mem =>
    match scanHexByte mem with
    -- the bytes written so far stay written
    | none => ([], false)
    | some b =>
      let rest := hexLoop n (mem.drop 2)
      (b :: rest.1, rest.2)

/-- `relay_hex_to_bytes`, from the memory that begins with the string. -/
def relayHexToBytes (mem : List UInt8) (hexLen outLen : ℕ) : List UInt8 × Bool :=
  if hexLen ≠ outLen * 2 then ([], false) else hexLoop outLen mem

/-- The memory from a string on: its bytes, the terminator and what stands behind it. -/
def memory (heap : CStr → List UInt8) (s : CStr) : List UInt8 := s ++ 0 :: heap s

/-- A field of `n` bytes that was zero and whose first bytes are written. -/
def zeroField (n : ℕ) (bytes : List UInt8) : Vector UInt8 n := Vector.ofFn fun i => bytes.getD i 0

/-- The `n` bytes of a hexadecimal string, when all of them can be read. -/
def hexBytes (n : ℕ) (heap : CStr → List UInt8) (s : CStr) : Option (Vector UInt8 n) :=
  let read := relayHexToBytes (memory heap s) (n * 2) n
  if read.2 then some (zeroField n read.1) else none

/-- Bytes as two digits each, lower case. -/
def hexText (bytes : List UInt8) : CStr := bytes.flatMap fun b => hexPadded 2 b.toNat

theorem length_hexText (bytes : List UInt8) : (hexText bytes).length = 2 * bytes.length := by
  unfold hexText
  induction bytes with
  | nil => rfl
  | cons b bytes ih =>
    rw [List.flatMap_cons, List.length_append, ih, length_hexPadded, List.length_cons]
    omega

/-! ### The state -/

/-- `storage_index_entry_t`. -/
structure IndexEntry where
  eventId : Vector UInt8 32
  createdAt : UInt32
  expiresAt : UInt32
  fileIndex : UInt32
  kind : UInt16
  pubkeyPrefix : Vector UInt8 4
  flags : UInt8
deriving DecidableEq

/-- `flags & STORAGE_FLAG_DELETED`. -/
def IndexEntry.deleted (e : IndexEntry) : Bool := e.flags &&& 1 ≠ 0

/-- `flags |= STORAGE_FLAG_DELETED`. -/
def IndexEntry.delete (e : IndexEntry) : IndexEntry := { e with flags := e.flags ||| 1 }

/-- The time of the entry is over. -/
def IndexEntry.expired (e : IndexEntry) (now : UInt32) : Bool :=
  e.expiresAt > 0 && e.expiresAt < now

/-- The copy of the index in flash: `count` and `next_idx`, and the chunks of 50 entries. -/
structure Nvs where
  header : Option (UInt16 × UInt32)
  chunks : ℕ → Option (List IndexEntry)

/-- `storage_engine_t`, with the files and the flash. The index has the first
`index_count` entries of the array. -/
structure Engine where
  index : List IndexEntry
  maxIndexEntries : ℕ
  nextFileIndex : UInt32
  defaultTtlSec : UInt32
  files : CStr → Option CStr
  nvs : Nvs

/-- The engine after `storage_init` on an empty flash. -/
def Engine.empty (maxIndexEntries : ℕ) (defaultTtlSec : UInt32) : Engine where
  index := []
  maxIndexEntries := maxIndexEntries
  nextFileIndex := 0
  defaultTtlSec := defaultTtlSec
  files := fun _ => none
  nvs := ⟨none, fun _ => none⟩

/-- The results of the storage functions. -/
inductive StorageResult where
  | ok
  | full
  | duplicate
  | notFound
  | io
deriving DecidableEq

/-! ### The source operations -/

/-- What `get_event_path` prints. -/
def pathText (eventId : Vector UInt8 32) (fileIndex : UInt32) : CStr :=
  cstr "/littlefs/events/" ++ hexPadded 2 eventId[0].toNat ++ cstr "/" ++
    hexText (eventId.toList.take 16) ++ cstr "_" ++
    hexPadded 8 fileIndex.toNat ++ cstr ".json"

/-- `get_event_path`, into a buffer of 128 bytes. -/
def getEventPath (eventId : Vector UInt8 32) (fileIndex : UInt32) : CStr :=
  snprintf 128 (pathText eventId fileIndex)

/-- The path of an entry's file. -/
def IndexEntry.path (e : IndexEntry) : CStr := getEventPath e.eventId e.fileIndex

/-- What `parse_event_meta` finds in the text of an event. -/
structure EventMeta where
  id : Vector UInt8 32
  pubkey : Vector UInt8 32
  createdAt : UInt64
  kind : Int32

/-- The bytes behind the first occurrence of a text. -/
def after (needle : String) (json : CStr) : Option CStr :=
  (strstr (cstr needle) json).map (List.drop (cstr needle).length)

/-- A 32 byte field of an event, read behind its name. A field that is not there is zero. -/
def hexField (heap : CStr → List UInt8) (needle : String) (json : CStr) : Vector UInt8 32 :=
  zeroField 32 (match after needle json with
    | none => []
    | some s => (relayHexToBytes (s ++ 0 :: heap json) 64 32).1)

/-- `parse_event_meta`. -/
def parseEventMeta (heap : CStr → List UInt8) (json : CStr) : EventMeta where
  id := hexField heap "\"id\":\"" json
  pubkey := hexField heap "\"pubkey\":\"" json
  createdAt := ((after "\"created_at\":" json).map (strtoull 10)).getD 0
  kind := ((after "\"kind\":" json).map atoi).getD 0

namespace Engine

variable (s : Engine)

/-- `save_index_to_nvs`. Chunks beyond the index keep what was written before. -/
def saveIndexToNvs : Engine :=
  { s with nvs :=
    { header := some (UInt16.ofNat s.index.length, s.nextFileIndex)
      chunks := fun k =>
        if 50 * k < s.index.length then some ((s.index.drop (50 * k)).take 50)
        else s.nvs.chunks k } }

/-- `find_index_entry`: the place of the live entry with this id. -/
def findIndexEntry (eventId : Vector UInt8 32) : Option ℕ :=
  s.index.findIdx? fun e => e.eventId = eventId && !e.deleted

/-- `storage_event_exists`. -/
def eventExists (eventId : Vector UInt8 32) : Bool := (s.findIndexEntry eventId).isSome

/-- The entry of a new event. -/
def newEntry (heap : CStr → List UInt8) (now : UInt32) (json : CStr) : IndexEntry :=
  let m := parseEventMeta heap json
  { eventId := m.id
    createdAt := m.createdAt.toUInt32
    expiresAt := now + s.defaultTtlSec
    fileIndex := s.nextFileIndex
    kind := m.kind.toUInt32.toUInt16
    pubkeyPrefix := zeroField 4 m.pubkey.toList
    flags := 0 }

/-- The engine with a new event in it. -/
def addEntry (e : IndexEntry) (json : CStr) : Engine :=
  { s with
    index := s.index ++ [e]
    nextFileIndex := s.nextFileIndex + 1
    files := Function.update s.files e.path (some json) }

/-- `storage_save_event_json`, where `opened` says whether the file could be opened. -/
def saveEventJson (heap : CStr → List UInt8) (now : UInt32) (opened : Bool) (json : CStr) :
    Engine × StorageResult :=
  let e := s.newEntry heap now json
  if s.eventExists e.eventId then (s, .duplicate)
  else if s.index.length ≥ s.maxIndexEntries then (s, .full)
  else if !opened then (s, .io)
  else
    let s := s.addEntry e json
    -- flash is written at every tenth entry only
    (if s.index.length % 10 = 0 then s.saveIndexToNvs else s, .ok)

/-- The file of the entry is unlinked. -/
def unlink (files : CStr → Option CStr) (e : IndexEntry) : CStr → Option CStr :=
  Function.update files e.path none

/-- `storage_delete_event`. -/
def deleteEvent (eventId : Vector UInt8 32) : Engine × StorageResult :=
  match s.findIndexEntry eventId with
  | none => (s, .notFound)
  | some i =>
    -- the file goes at once, the entry keeps its place with a mark
    let files := match s.index[i]? with
      | some e => unlink s.files e
      | none => s.files
    ({ s with index := s.index.modify i IndexEntry.delete, files := files }.saveIndexToNvs, .ok)

/-- The entries a purge deletes. -/
def purges (now : UInt32) (e : IndexEntry) : Bool := !e.deleted && e.expired now

/-- `storage_purge_expired`: the engine afterwards and the number of entries deleted. -/
def purgeExpired (now : UInt32) : Engine × ℕ :=
  let purged := s.index.filter (purges now)
  let s' := { s with
    -- an entry that is marked already is no candidate
    index := s.index.map fun e => if purges now e then e.delete else e
    files := purged.foldl unlink s.files }
  (if purged.length > 0 then s'.saveIndexToNvs else s', purged.length)

/-- `storage_compact_index`. -/
def compactIndex : Engine × ℕ :=
  let r := compactLoop IndexEntry.deleted s.index
  let compacted := s.index.length - r.2
  if compacted > 0 then ({ s with index := r.1.take r.2 }.saveIndexToNvs, compacted)
  else ({ s with index := r.1 }, 0)

/-- `STORAGE_MAX_EVENT_SIZE`. -/
abbrev maxEventSize : ℕ := 8192

/-- The text of an entry's file, as a query reads it. -/
def readEvent (e : IndexEntry) : Option CStr :=
  match s.files e.path with
  | none => none
  | some text => if text.length = 0 ∨ text.length > maxEventSize then none else some text

/-- The tests of a query on an index entry, but for those of its life. -/
def indexTest (heap : CStr → List UInt8) (kind : Int32) (author : Option CStr) (e : IndexEntry) :
    Bool :=
  -- a kind below one stands for any kind
  (!(kind > 0) || e.kind.toUInt32.toInt32 = kind) &&
    match author with
    | none => true
    | some a =>
      a.length < 8 || e.pubkeyPrefix = zeroField 4 (relayHexToBytes (memory heap a) 8 4).1

/-- The loop of a query, over the entries from the newest on. -/
def queryLoop (heap : CStr → List UInt8) (now : UInt32) (kind : Int32) (author : Option CStr) :
    List IndexEntry → ℕ → List (IndexEntry × CStr)
  | [], _ => []
  | _, 0 => []
  | e :: es, n + 1 =>
    -- only what is sent counts towards the limit
    if e.deleted || e.expired now || !indexTest heap kind author e then
      queryLoop heap now kind author es (n + 1)
    else match s.readEvent e with
      | none => queryLoop heap now kind author es (n + 1)
      | some text => (e, text) :: queryLoop heap now kind author es n

/-- The limit a query works with. -/
def clampLimit (limit : Int32) : ℕ :=
  let limit := if limit > 500 then 500 else limit
  if limit ≤ 0 then 100 else limit.toNatClampNeg

/-- `storage_query_events_json`, with the entries the texts belong to. -/
def queryEntries (heap : CStr → List UInt8) (now : UInt32) (kind : Int32) (author : Option CStr)
    (limit : Int32) : List (IndexEntry × CStr) :=
  s.queryLoop heap now kind author s.index.reverse (clampLimit limit)

/-- `storage_query_events_json`. -/
def queryEventsJson (heap : CStr → List UInt8) (now : UInt32) (kind : Int32)
    (author : Option CStr) (limit : Int32) : List CStr :=
  (s.queryEntries heap now kind author limit).map Prod.snd

end Engine

end Relay

end TollGate
