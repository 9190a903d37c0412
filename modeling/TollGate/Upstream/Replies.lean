import TollGate.Lib.CJson
import TollGate.Lib.CText

/-!
# What an upstream TollGate answers

A TollGate that is a customer of another one reads three texts of it: the discovery document
(kind 10021), the session that a payment buys (kind 1022), and the usage line
`remaining/total`. `cJSON_Parse` is a parameter.
-/

namespace TollGate

namespace Upstream

open CJson CStr

/-- `tollgate_discovery_t`. -/
structure Discovery where
  isTollgate : Bool
  pricePerStep : Int32
  stepSizeMs : Int32
  mintUrl : CStr
  metric : CStr
  unit : CStr
  miningAvailable : Bool
  miningPort : UInt16

/-- The record of zeros. -/
def Discovery.zero : Discovery := ⟨false, 0, 0, [], [], [], false, 0⟩

/-- The string at a place of a tag. -/
def stringAt (tag : Json) (i : ℕ) : Option CStr := (tag.getArrayItem i).bind Json.asString

/-- A `price_per_step` tag. The kind of payment decides what its other items are. -/
def Discovery.readPrice (d : Discovery) (tag : Json) (tagLen : ℕ) : Discovery :=
  if stringAt tag 1 = some (cstr "mining") ∧ tagLen ≥ 3 then
    { d with
      miningAvailable := true
      miningPort := ((stringAt tag 2).map fun port =>
        (atoi port).toUInt32.toUInt16).getD d.miningPort }
  else if stringAt tag 1 = some (cstr "cashu") ∧ tagLen ≥ 6 then
    { d with
      pricePerStep := ((stringAt tag 2).map atoi).getD d.pricePerStep
      unit := ((stringAt tag 3).map (strncpy 16)).getD d.unit
      mintUrl := ((stringAt tag 4).map (strncpy 256)).getD d.mintUrl }
  else d

/-- One turn of the loop over the tags of a discovery document. -/
def Discovery.readTag (d : Discovery) (tag : Json) : Discovery :=
  match tag.asArray with
  | none => d
  | some items =>
    -- a tag that is too short, or whose name is no string, is skipped
    if items.length < 2 then d
    else match stringAt tag 0 with
      | none => d
      | some name =>
        if name = cstr "metric" then
          { d with metric := ((stringAt tag 1).map (strncpy 32)).getD d.metric }
        else if name = cstr "step_size" then
          { d with stepSizeMs := ((stringAt tag 1).map atoi).getD d.stepSizeMs }
        else if name = cstr "price_per_step" ∧ items.length ≥ 3 then d.readPrice tag items.length
        else d

/-- `valueint` of the number under `kind`. -/
def kindOf (root : Json) : Option Int32 :=
  ((root.getObjectItemCaseSensitive "kind").bind Json.asNumber).map Number.valueint

/-- The items under `tags`. -/
def tagsOf (root : Json) : List Json :=
  ((root.getObjectItemCaseSensitive "tags").bind Json.asArray).getD []

section Parse

variable (parse : CStr → Option Json)

/-- `tollgate_core_client_parse_discovery`. -/
def clientParseDiscovery (text : CStr) : Option Discovery :=
  match parse text with
  | none => none
  | some root =>
    if kindOf root ≠ some 10021 then none
    else some <| (tagsOf root).foldl Discovery.readTag
      { Discovery.zero with isTollgate := true, unit := strncpy 16 (cstr "sat") }

/-- One turn of the loop over the tags of a session. -/
def readAllotment (allotment : Int64) (tag : Json) : Int64 :=
  match tag.asArray with
  | none => allotment
  | some _ =>
    if stringAt tag 0 = some (cstr "allotment") then ((stringAt tag 1).map atoll).getD allotment
    else allotment

/-- `tollgate_core_client_parse_session`, with `*allotment_ms_out` zero before. -/
def clientParseSession (text : CStr) : Option Int64 :=
  match parse text with
  | none => none
  | some root =>
    if kindOf root ≠ some 1022 then none else some ((tagsOf root).foldl readAllotment 0)

end Parse

/-- `tollgate_core_client_parse_usage`: what remains and the total. -/
def clientParseUsage (resp : CStr) : Option (Int64 × Int64) :=
  match strchr 47 resp with
  | none => none
  | some slash =>
    let rlen := resp.length - slash.length
    -- the part before the slash must fit its buffer, the part behind it is cut
    if rlen ≥ 32 then none
    else some (atoll (resp.take rlen), atoll (strncpy 32 slash.tail))

/-- `tollgate_core_client_should_renew`. -/
def clientShouldRenew (remainingMs allotmentMs : Int64) (thresholdPct : Int32) : Bool :=
  let thresholdPct := if thresholdPct ≤ 0 then 20 else thresholdPct
  -- what remains is unknown before the first session
  if allotmentMs ≤ 0 ∨ remainingMs < 0 then false
  else decide ((remainingMs * 100 / allotmentMs).toInt32 ≤ thresholdPct)

end Upstream

end TollGate
