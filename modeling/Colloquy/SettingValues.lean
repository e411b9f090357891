import Colloquy.IntegerText
import Colloquy.JsonValue
import Colloquy.ShortestDecimal

/-!
# Values of settings

A setting holds an integer, a truth value or a text. A value of another kind is taken if it stands
for one of the right kind, as the text `1_000` stands for an integer, and refused otherwise.
-/

namespace Colloquy

inductive SettingFault where
  | notAnInteger
  | integerExpected
  /-- The number has a fraction. -/
  | notWhole
  /-- The number is infinite or none at all. -/
  | notFinite
  /-- The integer is too large to be taken from this kind of value. -/
  | tooLarge
  | notABoolean
  | booleanExpected
  | textExpected
deriving DecidableEq

def SettingFault.name : SettingFault → String
  | .notAnInteger => "int_parsing"
  | .integerExpected => "int_type"
  | .notWhole => "int_from_float"
  | .notFinite => "finite_number"
  | .tooLarge => "int_parsing_size"
  | .notABoolean => "bool_parsing"
  | .booleanExpected => "bool_type"
  | .textExpected => "string_type"

namespace SettingValue

def integerFault : IntegerText.Fault → SettingFault
  | .malformed => .notAnInteger
  | .tooLong => .tooLarge

/-- The number from which on a number with a fraction or an exponent is too large for an
integer. -/
def integerBound : Nat := Nat.pow 2 63

/-- The integer that a number with a fraction or an exponent comes to, in binary precision. -/
def integerOfDecimal (negative : Bool) (digits : Nat) (exponent : Int) :
    Except SettingFault Int :=
  match ShortestDecimal.ofScientific? digits exponent with
  | none => .error .notFinite
  | some binary =>
    match binary.whole? with
    | none => .error .notWhole
    | some n =>
      if n < integerBound then .ok (if negative then -n else n) else .error .tooLarge

def readInteger : Json → Except SettingFault Int
  | .int n => .ok n
  | .bool b => .ok (if b then 1 else 0)
  | .decimal negative digits exponent => integerOfDecimal negative digits exponent
  | .infinity _ | .notANumber => .error .notFinite
  | .str none => .error .notAnInteger
  | .str (some s) => (IntegerText.read s.toList).mapError integerFault
  | _ => .error .integerExpected

def truth? (text : String) : Option Bool :=
  let word := text.toLower
  if ["1", "true", "t", "yes", "y", "on"].contains word then some true
  else if ["0", "false", "f", "no", "n", "off"].contains word then some false
  else none

def truthOfInteger (n : Int) : Except SettingFault Bool :=
  if n = 0 then .ok false else if n = 1 then .ok true else .error .notABoolean

/-- The value of a setting that is on or off. Integers beyond 64 bits are of no use here, and nor
are numbers that come to no integer. -/
def readTruth : Json → Except SettingFault Bool
  | .bool b => .ok b
  | .int n =>
    if -(integerBound : Int) ≤ n ∧ n < integerBound then truthOfInteger n
    else .error .booleanExpected
  | .decimal negative digits exponent =>
    match integerOfDecimal negative digits exponent with
    | .error _ => .error .booleanExpected
    | .ok n => truthOfInteger n
  | .str s =>
    match s.bind truth? with
    | some b => .ok b
    | none => .error .notABoolean
  | _ => .error .booleanExpected

def readText : Json → Except SettingFault String
  | .str (some s) => .ok s
  | _ => .error .textExpected

def readOptionalText : Json → Except SettingFault (Option String)
  | .null => .ok none
  | json => (readText json).map some

end SettingValue

end Colloquy
