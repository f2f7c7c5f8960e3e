import CodeIndex.Json

namespace CodeIndex.Json

def asText? : Json → Option String
  | .str value => value
  | _ => none

def asBool? : Json → Option Bool
  | .bool value => some value
  | _ => none

def asWord? : Json → Option UInt64
  | .num number => (number.nat?.filter (· < UInt64.size)).map UInt64.ofNat
  | _ => none

def asItems? : Json → Option (List Json)
  | .arr items => some items
  | _ => none

def asOption? (decode : Json → Option α) : Json → Option (Option α)
  | .null => some none
  | json => (decode json).map some

def asList? (decode : Json → Option α) (json : Json) : Option (List α) :=
  json.asItems?.bind (·.mapM decode)

-- A choice is its name, or an object whose only member has that name and null.
def asChoice? (ofName? : String → Option α) : Json → Option α
  | .str (some name) => ofName? name
  | .obj [(some name, .null)] => ofName? name
  | _ => none

def valuesOf (key : String) (members : List (Literal × Json)) : List Json :=
  (members.filter (·.1 == some key)).map (·.2)

def memberOf? (members : List (Literal × Json)) (key : String) : Option (Option Json) :=
  match valuesOf key members with
  | [] => some none
  | [value] => some (some value)
  | _ => none

-- A record is an object with known keys, each at most once and others ignored, or an array of its
-- fields in order.
def fields? (names : List String) : Json → Option (List (Option Json))
  | .obj members =>
    if members.all (·.1.isSome) then names.mapM (memberOf? members) else none
  | .arr items =>
    if items.length ≤ names.length then
      some (items.map some ++ List.replicate (names.length - items.length) none)
    else none
  | _ => none

def optional (default : α) (decode : Json → Option α) : Option Json → Option α
  | none => some default
  | some json => decode json

def required (decode : Json → Option α) : Option Json → Option α
  | none => none
  | some json => decode json

def get? (json : Json) (key : String) : Option Json :=
  match json with
  | .obj members => members.lookup (some key)
  | _ => none

def last? (json : Json) (key : String) : Option Json :=
  match json with
  | .obj members => (valuesOf key members).getLast?
  | _ => none

end CodeIndex.Json
