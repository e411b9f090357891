import Colloquy.JsonValue
import Colloquy.ShortestDecimal

/-!
# Writing JSON

A value is written without blanks and in plain printable characters only: every other character of
a string is written as an escape, beyond the first 65536 codes as a surrogate pair.
-/

namespace Colloquy

namespace JsonWriter

def hexEscape (code : Nat) : String :=
  let digits := Nat.toDigits 16 code
  "\\u" ++ String.ofList (List.replicate (4 - digits.length) '0' ++ digits)

def character (c : Char) : String :=
  match c with
  | '"' => "\\\""
  | '\\' => "\\\\"
  | '\n' => "\\n"
  | '\r' => "\\r"
  | '\t' => "\\t"
  | '\x08' => "\\b"
  | '\x0c' => "\\f"
  | c =>
    if ' ' ≤ c ∧ c ≤ '~' then c.toString
    else if c.toNat < 0x10000 then hexEscape c.toNat
    else
      let offset := c.toNat - 0x10000
      hexEscape (0xD800 + offset / 0x400) ++ hexEscape (0xDC00 + offset % 0x400)

/-- A string in quotation marks. An ill-formed one is written as an empty string. -/
def string (s : JsonString) : String :=
  "\"" ++ (s.getD "").foldl (fun out c => out ++ character c) "" ++ "\""

def infinity (negative : Bool) : String :=
  if negative then "-Infinity" else "Infinity"

/-- A number that is no integer, to the precision of a floating-point number. -/
def decimal (negative : Bool) (digits : Nat) (exponent : Int) : String :=
  match ShortestDecimal.text? digits exponent with
  | none => infinity negative
  | some text => (if negative then "-" else "") ++ String.ofList text

mutual

def value (out : String) : Json → String
  | .null => out ++ "null"
  | .bool b => out ++ (if b then "true" else "false")
  | .int n => out ++ toString n
  | .decimal negative digits exponent => out ++ decimal negative digits exponent
  | .infinity negative => out ++ infinity negative
  | .notANumber => out ++ "NaN"
  | .str s => out ++ string s
  | .arr list => items (out ++ "[") "" list ++ "]"
  | .obj list => fields (out ++ "\x7b") "" list ++ "\x7d"

/-- Appends the items of a list, the first of them after the given separator. -/
def items (out : String) (separator : String) : List Json → String
  | [] => out
  | item :: rest => items (value (out ++ separator) item) "," rest

def fields (out : String) (separator : String) : List (JsonString × Json) → String
  | [] => out
  | (key, field) :: rest =>
    fields (value (out ++ separator ++ string key ++ ":") field) "," rest

end

end JsonWriter

def Json.write (json : Json) : String :=
  JsonWriter.value "" json

end Colloquy
