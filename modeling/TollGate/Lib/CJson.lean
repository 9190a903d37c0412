import TollGate.Lib.CTypes

/-!
# JSON trees as cJSON keeps them

The parsed form of a JSON text, and the accessors that C code reads it with.
Members of an object stay in the order of the text and may repeat; a lookup takes
the first match. `cJSON_GetObjectItem` ignores the case of ASCII letters,
`cJSON_GetObjectItemCaseSensitive` does not. An accessor of another type than the
node's gives `none`, as the `cJSON_Is*` tests do.
-/

namespace CJson

/-- A number: `valueint`, `valuedouble` cast to `uint64_t`, and the exact value of
`valuedouble`. -/
structure Number where
  valueint : Int32
  valueUInt64 : UInt64
  valuedouble : ℚ
deriving DecidableEq

/-- The number that `cJSON_CreateNumber` makes of an `int`. -/
def Number.ofInt (i : Int32) : Number := ⟨i, i.toInt64.toUInt64, i.toInt⟩

/-- `(double)n`: the nearest number of 53 significant bits, of two the even one. -/
def toDouble (n : ℕ) : ℕ :=
  let ulp := 2 ^ (n.log2 - 52)
  let down := n / ulp
  let r := 2 * (n % ulp)
  (if r < ulp ∨ (r = ulp ∧ down % 2 = 0) then down else down + 1) * ulp

/-- The number that `cJSON_CreateNumber` makes of a `uint64_t`. -/
def Number.ofUInt64 (n : UInt64) : Number :=
  let d := toDouble n.toNat
  ⟨if d ≥ 2147483647 then 2147483647 else Int32.ofNat d, UInt64.ofNat d, d⟩

/-- `(int64_t)valuedouble`, towards zero. -/
def Number.toInt64 (n : Number) : Int64 := Int64.ofInt (n.valuedouble.num.tdiv n.valuedouble.den)

/-- A parsed JSON text. -/
inductive Json where
  | null
  | bool (b : Bool)
  | number (n : Number)
  | string (s : CStr)
  | array (items : List Json)
  | object (members : List (CStr × Json))

/-- `tolower` of the C locale. -/
def toLower (b : UInt8) : UInt8 := if 65 ≤ b ∧ b ≤ 90 then b + 32 else b

/-- The two names are equal up to the case of ASCII letters. -/
def sameName (a b : CStr) : Bool := a.map toLower = b.map toLower

namespace Json

/-- The first member whose name passes the test. -/
def findMember (p : CStr → Bool) : Json → Option Json
  | .object members => (members.find? fun m => p m.1).map Prod.snd
  | _ => none

/-- `cJSON_GetObjectItem`. -/
def getObjectItem (j : Json) (name : String) : Option Json :=
  j.findMember fun n => sameName n (cstr name)

/-- `cJSON_GetObjectItemCaseSensitive`. -/
def getObjectItemCaseSensitive (j : Json) (name : String) : Option Json :=
  j.findMember fun n => n = cstr name

/-- `valuestring` of a string node. -/
def asString : Json → Option CStr
  | .string s => some s
  | _ => none

/-- The value of a number node. -/
def asNumber : Json → Option Number
  | .number n => some n
  | _ => none

/-- The value of a boolean node. -/
def asBool : Json → Option Bool
  | .bool b => some b
  | _ => none

/-- The items of an array node. -/
def asArray : Json → Option (List Json)
  | .array items => some items
  | _ => none

/-- `valueint` of any node. -/
def valueint : Json → Int32
  | .number n => n.valueint
  | .bool true => 1
  | _ => 0

/-- The number in a node; in any other node `valuedouble` is zero. -/
def toNumber : Json → Number
  | .number n => n
  | _ => .ofInt 0

/-- `cJSON_GetArrayItem`, which counts the members of an object as well. -/
def getArrayItem (j : Json) (i : ℕ) : Option Json :=
  match j with
  | .array items => items[i]?
  | .object members => (members.map Prod.snd)[i]?
  | _ => none

/-- The object of the members that are there. -/
def ofMembers (members : List (String × Option Json)) : Json :=
  .object (members.filterMap fun m => m.2.map (cstr m.1, ·))

theorem asString_eq_some {j : Json} {s : CStr} : j.asString = some s ↔ j = .string s := by
  cases j <;> simp [asString]

theorem asArray_eq_some {j : Json} {items : List Json} :
    j.asArray = some items ↔ j = .array items := by
  cases j <;> simp [asArray]

theorem bind_asString_eq_some {o : Option Json} {s : CStr} :
    o.bind asString = some s ↔ o = some (.string s) := by
  rw [Option.bind_eq_some_iff]
  refine ⟨?_, fun h => ⟨_, h, rfl⟩⟩
  rintro ⟨j, rfl, hj⟩
  rw [asString_eq_some.mp hj]

theorem getObjectItem_ofMembers_cons (member : String × Option Json)
    (members : List (String × Option Json)) (name : String) :
    (ofMembers (member :: members)).getObjectItem name =
      if sameName (cstr member.1) (cstr name) then
        member.2.or ((ofMembers members).getObjectItem name)
      else (ofMembers members).getObjectItem name := by
  obtain ⟨key, value⟩ := member
  cases value with
  | none => simp [ofMembers, getObjectItem, findMember]
  | some j =>
    cases hname : sameName (cstr key) (cstr name) with
    | true => simp [ofMembers, getObjectItem, findMember, hname]
    | false => simp [ofMembers, getObjectItem, findMember, hname]

/-- A name that no member has is not found. -/
theorem getObjectItem_ofMembers_of_absent {members : List (String × Option Json)} {name : String}
    (h : ∀ key ∈ members.map Prod.fst, sameName (cstr key) (cstr name) = false) :
    (ofMembers members).getObjectItem name = none := by
  induction members with
  | nil => rfl
  | cons member members ih =>
    rw [List.map_cons, List.forall_mem_cons] at h
    rw [getObjectItem_ofMembers_cons, h.1, if_neg Bool.false_ne_true, ih h.2]

/-- Of members with different names each is found. -/
theorem getObjectItem_ofMembers {members : List (String × Option Json)}
    (hkeys : (members.map Prod.fst).Pairwise fun a b => sameName (cstr a) (cstr b) = false)
    {name : String} {value : Option Json} (h : (name, value) ∈ members) :
    (ofMembers members).getObjectItem name = value := by
  have hsame : ∀ a, sameName a a = true := fun a => decide_eq_true rfl
  have hcomm : ∀ a b, sameName a b = sameName b a := fun a b =>
    decide_eq_decide.mpr eq_comm
  induction members with
  | nil => cases h
  | cons member members ih =>
    rw [List.map_cons, List.pairwise_cons] at hkeys
    rw [getObjectItem_ofMembers_cons]
    rcases List.mem_cons.mp h with rfl | h
    · rw [hsame, if_pos rfl, getObjectItem_ofMembers_of_absent, Option.or_none]
      exact fun key hkey => (hcomm _ _).trans (hkeys.1 key hkey)
    · rw [hkeys.1 name (List.mem_map_of_mem h), if_neg Bool.false_ne_true, ih hkeys.2 h]

end Json

end CJson
