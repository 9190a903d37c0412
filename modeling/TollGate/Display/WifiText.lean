import Mathlib
import TollGate.Lib.CText

/-!
# The text that joins the network

The symbol on most screens says which network to join, in the form
`WIFI:S:<name>;T:WPA;P:<password>;;`. Names and passwords may have any characters in them, so the
ones with a meaning are escaped by a backslash.

`escape_wifi_field` stops when its buffer has no room for another escape, and never in the middle of
one (`escapeWifiField_eq`). For the names and passwords of the configuration the buffers are large
enough, and a reader of the text finds both as they are (`readWifi_buildWifi`).
-/

namespace TollGate

namespace Display

/-- The characters with a meaning: backslash, semicolon, colon, comma and quotation mark. -/
def hasMeaning (c : UInt8) : Bool := c == 92 || c == 59 || c == 58 || c == 44 || c == 34

/-- A character as it is written: with a backslash in front of it when it has a meaning. -/
def escapeByte (c : UInt8) : List UInt8 := if hasMeaning c then [92, c] else [c]

/-- The loop of `escape_wifi_field`, with what is in the buffer so far. It asks for room for an
escape and the terminating zero before each character, so the test inside for the room of an escape
never fails. -/
def escapeLoop (dstSize : ℕ) : CStr → CStr → CStr
  | [], dst => dst
  | c :: src, dst =>
    if dst.length + 2 < dstSize then
      if hasMeaning c then
        if dstSize ≤ dst.length + 2 then dst else escapeLoop dstSize src (dst ++ [92, c])
      else escapeLoop dstSize src (dst ++ [c])
    else dst

/-- What is in the buffer in front of the terminating zero, which `dst_size` counts. -/
def escapeWifiField (src : CStr) (dstSize : ℕ) : CStr := escapeLoop dstSize src []

/-- The text of the symbol. The kind of the network is `WPA` if there is a password and `nopass` if
there is none; each of the two strings is escaped into a buffer of its own. -/
def buildWifiQrString (apSsid apPassword : CStr) (outSize : ℕ) : CStr :=
  let escapedSsid := escapeWifiField apSsid 64
  if 0 < apPassword.length then
    let escapedPass := escapeWifiField apPassword 128
    CStr.snprintf outSize
      (cstr "WIFI:S:" ++ escapedSsid ++ cstr ";T:WPA;P:" ++ escapedPass ++ cstr ";;")
  else CStr.snprintf outSize (cstr "WIFI:S:" ++ escapedSsid ++ cstr ";T:nopass;;")

/-! ### Reading -/

/-- A value, up to the first semicolon that is not escaped, and what is behind it. A backslash is
dropped, and the character behind it stands for itself. -/
def readValue : CStr → Option (CStr × CStr)
  | [] => none
  | 92 :: c :: text => (readValue text).map fun p => (c :: p.1, p.2)
  | c :: text => if c = 59 then some ([], text) else (readValue text).map fun p => (c :: p.1, p.2)

/-- The fields, each a letter, a colon and a value with its semicolon, up to one semicolon more. The
fuel is the length of the text, which is more than the fields are. -/
def readFields : ℕ → CStr → Option (List (UInt8 × CStr))
  | 0, _ => none
  | _ + 1, 59 :: _ => some []
  | fuel + 1, key :: 58 :: text => do
    let (value, text) ← readValue text
    let fields ← readFields fuel text
    some ((key, value) :: fields)
  | _ + 1, _ => none

/-- A network as a phone joins it: its name, and the password where it has one. -/
structure Network where
  ssid : CStr
  password : Option CStr
  deriving DecidableEq

/-- **The network in a text**, as the phone that scanned it understands it: the fields may be in any
order, and without a name or a kind there is none. -/
def readWifi (text : CStr) : Option Network :=
  match text with
  | 87 :: 73 :: 70 :: 73 :: 58 :: text => do
    let fields ← readFields text.length text
    let ssid ← fields.lookup 83
    let kind ← fields.lookup 84
    if kind = cstr "nopass" then some ⟨ssid, none⟩
    else (fields.lookup 80).map fun password => ⟨ssid, some password⟩
  | _ => none

/-! ### Escapes -/

variable {src dst ssid password : CStr} {dstSize : ℕ}

/-- An escape takes at most two bytes. -/
theorem length_escapeByte_le (c : UInt8) : (escapeByte c).length ≤ 2 := by
  unfold escapeByte
  split
  · exact le_rfl
  · exact Nat.le_succ 1

/-- Escapes take at most twice the room of the text. -/
theorem length_flatMap_escapeByte_le (src : CStr) :
    (src.flatMap escapeByte).length ≤ 2 * src.length := by
  induction src with
  | nil => rfl
  | cons c src ih =>
    have hc := length_escapeByte_le c
    rw [List.flatMap_cons, List.length_append, List.length_cons]
    omega

/-- One more character, when there is room for an escape and the zero. -/
theorem escapeLoop_cons (hroom : dst.length + 2 < dstSize) (c : UInt8) (src : CStr) :
    escapeLoop dstSize (c :: src) dst = escapeLoop dstSize src (dst ++ escapeByte c) := by
  rw [escapeLoop, if_pos hroom, if_neg (Nat.not_le.mpr hroom), escapeByte]
  split
  · rfl
  · rfl

/-- **An escape is never cut, and no room is left unused**: a buffer of at least one byte holds the
escapes of the first characters, with room for the zero behind them, and when there are characters
left then at most one byte is free besides the zero, which is not enough for another escape. -/
theorem escapeWifiField_eq (src : CStr) (hsize : 0 < dstSize) :
    ∃ n, escapeWifiField src dstSize = (src.take n).flatMap escapeByte ∧
      (escapeWifiField src dstSize).length < dstSize ∧
      (n < src.length → dstSize ≤ (escapeWifiField src dstSize).length + 2) := by
  have hrun : ∀ dst : CStr, dst.length < dstSize → ∃ n,
      escapeLoop dstSize src dst = dst ++ (src.take n).flatMap escapeByte ∧
        (escapeLoop dstSize src dst).length < dstSize ∧
        (n < src.length → dstSize ≤ (escapeLoop dstSize src dst).length + 2) := by
    induction src with
    | nil =>
      intro dst hdst
      exact ⟨0, (List.append_nil dst).symm, hdst, fun hlt => absurd hlt (Nat.not_lt_zero 0)⟩
    | cons c src ih =>
      intro dst hdst
      by_cases hroom : dst.length + 2 < dstSize
      · have hc := length_escapeByte_le c
        obtain ⟨n, heq, hlen, hfull⟩ := ih (dst ++ escapeByte c) (by
          rw [List.length_append]
          omega)
        rw [escapeLoop_cons hroom]
        refine ⟨n + 1, ?_, hlen, fun hlt => hfull (Nat.succ_lt_succ_iff.mp hlt)⟩
        rw [heq, List.take_succ_cons, List.flatMap_cons, List.append_assoc]
      · -- the loop ends here, with some of the text left
        rw [escapeLoop, if_neg hroom]
        exact ⟨0, (List.append_nil dst).symm, hdst, fun _ => Nat.not_lt.mp hroom⟩
  exact hrun [] hsize

/-- A buffer of six bytes: the second escape has no room. -/
theorem escapeWifiField_full :
    ∃ n, escapeWifiField (cstr "a;b;") 6 = ((cstr "a;b;").take n).flatMap escapeByte ∧
      (escapeWifiField (cstr "a;b;") 6).length < 6 ∧
      (n < (cstr "a;b;").length → 6 ≤ (escapeWifiField (cstr "a;b;") 6).length + 2) :=
  escapeWifiField_eq (cstr "a;b;") (by decide)

/-- A buffer that is large enough for the escape of each character holds the whole text. -/
theorem escapeWifiField_of_length (hroom : 2 * src.length + 2 ≤ dstSize) :
    escapeWifiField src dstSize = src.flatMap escapeByte := by
  have hrun : ∀ dst : CStr, dst.length + 2 * src.length + 2 ≤ dstSize →
      escapeLoop dstSize src dst = dst ++ src.flatMap escapeByte := by
    induction src with
    | nil => exact fun dst _ => (List.append_nil dst).symm
    | cons c src ih =>
      intro dst hdst
      have hc := length_escapeByte_le c
      rw [List.length_cons] at hdst hroom
      rw [escapeLoop_cons (by omega), ih (by omega) _ (by
        rw [List.length_append]
        omega), List.flatMap_cons, List.append_assoc]
  exact hrun [] (by
    rw [List.length_nil]
    omega)

/-- **A value comes back without its escapes.** -/
theorem readValue_flatMap (value text : CStr) :
    readValue (value.flatMap escapeByte ++ 59 :: text) = some (value, text) := by
  induction value with
  | nil => rfl
  | cons c value ih =>
    rw [List.flatMap_cons, List.append_assoc, escapeByte]
    by_cases hc : hasMeaning c = true
    · rw [if_pos hc]
      show (readValue (value.flatMap escapeByte ++ 59 :: text)).map _ = _
      rw [ih]
      rfl
    · have h92 : c ≠ 92 := by
        rintro rfl
        exact hc rfl
      have h59 : c ≠ 59 := by
        rintro rfl
        exact hc rfl
      rw [if_neg hc, List.singleton_append, readValue.eq_3 _ _ (fun a _ h => absurd h h92),
        if_neg h59, ih]
      rfl

/-- A field in front of others, with its value escaped. -/
def fieldText (key : UInt8) (value text : CStr) : CStr :=
  key :: 58 :: (value.flatMap escapeByte ++ 59 :: text)

/-- A field in front is the first one that a reader gets. -/
theorem readFields_fieldText {key : UInt8} (hkey : key ≠ 59) (value text : CStr) (fuel : ℕ) :
    readFields (fuel + 1) (fieldText key value text) =
      (readFields fuel text).map ((key, value) :: ·) := by
  rw [fieldText, readFields.eq_3 _ _ _ hkey, readValue_flatMap]
  show (readFields fuel text).bind _ = _
  cases readFields fuel text with
  | none => rfl
  | some fields => rfl

/-- The parts of the text that are the same for all networks, byte by byte. -/
theorem cstr_literals : cstr "WIFI:S:" = [87, 73, 70, 73, 58, 83, 58] ∧
    cstr ";T:WPA;P:" = [59, 84, 58, 87, 80, 65, 59, 80, 58] ∧ cstr ";;" = [59, 59] ∧
    cstr ";T:nopass;;" = [59, 84, 58, 110, 111, 112, 97, 115, 115, 59, 59] := by
  decide

/-- The whole text, which is not cut: both names and passwords have at most twice their length when
they are escaped, and 206 bytes is what the longest ones need. -/
theorem buildWifiQrString_eq (hssid : ssid.length < 32) (hpassword : password.length < 64) :
    buildWifiQrString ssid password 320 = [87, 73, 70, 73, 58] ++ fieldText 83 ssid
        (if password = [] then fieldText 84 (cstr "nopass") [59]
          else fieldText 84 (cstr "WPA") (fieldText 80 password [59])) ∧
      (buildWifiQrString ssid password 320).length ≤ 206 := by
  obtain ⟨hstart, hwpa, hend, hopen⟩ := cstr_literals
  have hssid' := length_flatMap_escapeByte_le ssid
  have hpassword' := length_flatMap_escapeByte_le password
  unfold buildWifiQrString
  dsimp only
  rw [escapeWifiField_of_length (by omega), escapeWifiField_of_length (by omega), hstart, hwpa,
    hend, hopen]
  by_cases hnone : password = []
  · rw [if_neg (by simp [hnone]), if_pos hnone, CStr.snprintf_of_length_lt (by
      simp only [List.length_append, List.length_cons, List.length_nil]
      omega)]
    refine ⟨?_, ?_⟩
    · rw [List.append_assoc]
      rfl
    · simp only [List.length_append, List.length_cons, List.length_nil]
      omega
  · rw [if_pos (List.length_pos_iff.mpr hnone), if_neg hnone, CStr.snprintf_of_length_lt (by
      simp only [List.length_append, List.length_cons, List.length_nil]
      omega)]
    refine ⟨?_, ?_⟩
    · simp only [List.append_assoc]
      rfl
    · simp only [List.length_append, List.length_cons, List.length_nil]
      omega

/-- **A reader finds the name and the password**, whatever characters they have. -/
theorem readWifi_buildWifi (hssid : ssid.length < 32) (hpassword : password.length < 64) :
    readWifi (buildWifiQrString ssid password 320) =
      some ⟨ssid, if password = [] then none else some password⟩ := by
  rw [(buildWifiQrString_eq hssid hpassword).1]
  generalize hrest : (if password = [] then _ else _) = rest
  -- there is a step for each of the fields
  have hfuel : ∃ fuel, (fieldText 83 ssid rest).length = fuel + 4 := by
    have hlong : 1 ≤ rest.length := by
      rw [← hrest]
      split
      · exact Nat.succ_le_succ (Nat.zero_le _)
      · exact Nat.succ_le_succ (Nat.zero_le _)
    refine ⟨(fieldText 83 ssid rest).length - 4, ?_⟩
    rw [fieldText, List.length_cons, List.length_cons, List.length_append, List.length_cons]
    omega
  obtain ⟨fuel, hfuel⟩ := hfuel
  show (readFields (fieldText 83 ssid rest).length (fieldText 83 ssid rest)).bind _ = _
  rw [hfuel, readFields_fieldText (by decide), ← hrest]
  by_cases hnone : password = []
  · rw [if_pos hnone, if_pos hnone, readFields_fieldText (by decide)]
    rfl
  · rw [if_neg hnone, if_neg hnone, readFields_fieldText (by decide),
      readFields_fieldText (by decide)]
    rfl

/-- A field of a string without zeros has no zero in it. -/
theorem not_mem_fieldText {key : UInt8} {value text : CStr} (hkey : key ≠ 0) (hvalue : 0 ∉ value)
    (htext : 0 ∉ text) : 0 ∉ fieldText key value text := by
  have hescaped : 0 ∉ value.flatMap escapeByte := by
    rw [List.mem_flatMap]
    rintro ⟨c, hc, hzero⟩
    rw [escapeByte] at hzero
    split at hzero
    · rw [List.mem_pair] at hzero
      rcases hzero with h92 | rfl
      · exact absurd h92 (by decide)
      · exact hvalue hc
    · rw [List.mem_singleton] at hzero
      exact hvalue (hzero ▸ hc)
  simp [fieldText, hkey.symm, hescaped, htext]

/-- The text has no zero in it, so the symbol is made of all of it. -/
theorem not_mem_buildWifi (hssid : ssid.length < 32) (hpassword : password.length < 64)
    (hs : 0 ∉ ssid) (hp : 0 ∉ password) : 0 ∉ buildWifiQrString ssid password 320 := by
  rw [(buildWifiQrString_eq hssid hpassword).1, List.mem_append, not_or]
  refine ⟨by decide, not_mem_fieldText (by decide) hs ?_⟩
  split
  · exact not_mem_fieldText (by decide) (by decide) (by decide)
  · exact not_mem_fieldText (by decide) (by decide) (not_mem_fieldText (by decide) hp (by decide))

end Display

end TollGate
