import MemoryArchive.Json.Value

namespace MemoryArchive.Python

open Json (Fields Number)

/-- The floats of an interpreter and its conversions from text: what a literal, an
integer and a text are as floats, the product with 1000.0, the integer part, and what
`repr` writes of a finite float. -/
structure Runtime (F : Type) where
  ofLiteral : Number → F
  ofInt : Int → Option F
  ofText : String → Option F
  thousandfold : F → F
  truncate : F → Option Int
  isZero : F → Bool
  isFinite : F → Bool
  repr : F → Number
  intOfText : String → Option Int

/-- What `json.loads` makes, and `json.dumps` takes. A dictionary lists its members in
the order in which their keys were first put in. -/
inductive Value (F : Type)
  | null
  | bool (b : Bool)
  | int (i : Int)
  | float (x : F)
  | str (s : String)
  | list (items : List (Value F))
  | dict (members : List (String × Value F))

abbrev Dict (F : Type) := List (String × Value F)

variable {F : Type}

section Loads

variable (py : Runtime F)

mutual

/-- A number with a fraction or an exponent is a float. -/
def ofJson : Json → Value F
  | .null => .null
  | .bool b => .bool b
  | .num n =>
      match n.toInt? with
      | some i => .int i
      | none => .float (py.ofLiteral n)
  | .str s => .str s
  | .arr items => .list (ofItems items)
  | .obj fields => .dict (ofFields fields)

def ofItems : List Json → List (Value F)
  | [] => []
  | j :: items => ofJson j :: ofItems items

def ofFields : Fields → Dict F
  | [] => []
  | (k, v) :: fields => (k, ofJson v) :: ofFields fields

end

/-- The value of a text: in every object a later member takes the place of an earlier
one of the same key. -/
def parsed (j : Json) : Value F := ofJson py (j.rebuild Json.putDict)

def parsedFields (fields : Fields) : Dict F := ofFields py (Json.rebuildFields Json.putDict [] fields)

end Loads

mutual

/-- `p` holds of every number in the value. -/
def allNumbers (p : Number → Bool) : Json → Bool
  | .num n => p n
  | .arr items => allNumbersItems p items
  | .obj fields => allNumbersFields p fields
  | .null | .bool _ | .str _ => true

def allNumbersItems (p : Number → Bool) : List Json → Bool
  | [] => true
  | j :: items => allNumbers p j && allNumbersItems p items

def allNumbersFields (p : Number → Bool) : Fields → Bool
  | [] => true
  | (_, v) :: fields => allNumbers p v && allNumbersFields p fields

end

/-- An integer of more than 4300 digits is not converted from text. -/
def convertible (n : Number) : Bool :=
  n.toInt? = none || decide ((n.literal.filter Char.isDigit).length ≤ 4300)

/-- `json.loads` of a text that is JSON. -/
def loads (py : Runtime F) (j : Json) : Option (Value F) :=
  if allNumbers convertible j then some (parsed py j) else none

section Dumps

variable (py : Runtime F)

mutual

/-- Every float of the value is finite. -/
def finite : Value F → Bool
  | .float x => py.isFinite x
  | .list items => finiteItems items
  | .dict members => finiteMembers members
  | .null | .bool _ | .int _ | .str _ => true

def finiteItems : List (Value F) → Bool
  | [] => true
  | v :: items => finite v && finiteItems items

def finiteMembers : Dict F → Bool
  | [] => true
  | (_, v) :: members => finite v && finiteMembers members

end

mutual

/-- The JSON that is written for a value whose floats are finite. -/
def toJson : Value F → Json
  | .null => .null
  | .bool b => .bool b
  | .int i => .num (Number.ofInt i)
  | .float x => .num (py.repr x)
  | .str s => .str s
  | .list items => .arr (toItems items)
  | .dict members => .obj (toFields members)

def toItems : List (Value F) → List Json
  | [] => []
  | v :: items => toJson v :: toItems items

def toFields : Dict F → Fields
  | [] => []
  | (k, v) :: members => (k, toJson v) :: toFields members

end

/-- `json.dumps`. A float that is not finite is written as NaN or Infinity, which are
no JSON. -/
def dumps (v : Value F) : Option Json := if finite py v then some (toJson py v) else none

end Dumps

namespace Value

variable (py : Runtime F)

/-- `int(v)`. -/
def toInt : Value F → Option Int
  | .int i => some i
  | .bool b => some (if b then 1 else 0)
  | .float x => py.truncate x
  | .str s => py.intOfText s
  | .null | .list _ | .dict _ => none

/-- `float(v)`. -/
def toFloat : Value F → Option F
  | .int i => py.ofInt i
  | .bool b => py.ofInt (if b then 1 else 0)
  | .float x => some x
  | .str s => py.ofText s
  | .null | .list _ | .dict _ => none

/-- `bool(v)`. -/
def toBool : Value F → Bool
  | .null => false
  | .bool b => b
  | .int i => i ≠ 0
  | .float x => !py.isZero x
  | .str s => s ≠ ""
  | .list items => !items.isEmpty
  | .dict members => !members.isEmpty

/-- What a loop over the value goes through. -/
def iterate : Value F → Option (List (Value F))
  | .list items => some items
  | .dict members => some (members.map fun m => .str m.1)
  | .str s => some (s.toList.map fun c => .str (String.singleton c))
  | .null | .bool _ | .int _ | .float _ => none

/-- The members of a dictionary; another value has no `get`. -/
def members : Value F → Option (Dict F)
  | .dict members => some members
  | .null | .bool _ | .int _ | .float _ | .str _ | .list _ => none

end Value

/-- `d.get(key, default)`. -/
def getD (d : Dict F) (key : String) (default : Value F) : Value F := (d.lookup key).getD default

section Lookup

variable (py : Runtime F)

theorem lookup_ofFields (fields : Fields) (key : String) :
    (ofFields py fields).lookup key = (fields.lookup key).map (ofJson py) := by
  induction fields with
  | nil => rfl
  | cons f fields ih =>
    obtain ⟨k, v⟩ := f
    rw [ofFields, Table.lookup_cons_ite, Table.lookup_cons_ite, ih]
    split <;> rfl

theorem parsed_obj (fields : Fields) : parsed py (.obj fields) = .dict (parsedFields py fields) := by
  rw [parsed, Json.rebuild, ofJson]
  rfl

theorem ofItems_eq_map (items : List Json) : ofItems py items = items.map (ofJson py) := by
  induction items with
  | nil => rfl
  | cons j items ih => rw [ofItems, List.map_cons, ih]

theorem toItems_eq_map (items : List (Value F)) : toItems py items = items.map (toJson py) := by
  induction items with
  | nil => rfl
  | cons v items ih => rw [toItems, List.map_cons, ih]

theorem rebuildItems_eq_map (items : List Json) :
    Json.rebuildItems Json.putDict items = items.map (Json.rebuild Json.putDict) := by
  induction items with
  | nil => rfl
  | cons j items ih => rw [Json.rebuildItems, List.map_cons, ih]

theorem parsed_arr (items : List Json) : parsed py (.arr items) = .list (items.map (parsed py)) := by
  rw [parsed, Json.rebuild, ofJson, rebuildItems_eq_map, ofItems_eq_map, List.map_map]
  rfl

end Lookup

end MemoryArchive.Python
