/-!
# JSON values

Objects keep their fields in the order in which their keys come first. A string may hold half of a
surrogate pair, which no text represents; such a string is kept only as ill-formed.
-/

namespace Colloquy

/-- A string of a JSON text, nothing if it is ill-formed. -/
abbrev JsonString := Option String

inductive Json where
  | null
  | bool (b : Bool)
  | int (n : Int)
  /-- The number `digits · 10 ^ exponent`, or its negative. -/
  | decimal (negative : Bool) (digits : Nat) (exponent : Int)
  | infinity (negative : Bool)
  | notANumber
  | str (s : JsonString)
  | arr (items : List Json)
  | obj (fields : List (JsonString × Json))

namespace Json

def text (s : String) : Json :=
  .str (some s)

def textOrNull : Option String → Json
  | none => .null
  | some s => .text s

def object (fields : List (String × Json)) : Json :=
  .obj (fields.map fun field => (some field.1, field.2))

def setField (key : JsonString) (value : Json) :
    List (JsonString × Json) → List (JsonString × Json)
  | [] => [(key, value)]
  | field :: rest =>
    if field.1 = key then (key, value) :: rest else field :: setField key value rest

def field? (fields : List (JsonString × Json)) (key : String) : Option Json :=
  fields.lookup (some key)

end Json

end Colloquy
