import Colloquy.JsonValue
import Colloquy.Numerals

/-!
# Reading JSON

The text is a list of characters in which half of a surrogate pair may stand where no character
does. Beyond the standard, the names of infinity and of the value that is no number are accepted.
Control characters must not stand in strings, of two fields with one key the last counts, and an
integer must not have more digits than a numeral may have.
-/

namespace Colloquy

/-- A decoded text, with nothing in place of half of a surrogate pair. -/
abbrev Decoded := List (Option Char)

namespace JsonReader

def isBlank (c : Char) : Bool :=
  c == ' ' || c == '\t' || c == '\n' || c == '\r'

def skipBlank : Decoded → Decoded
  | some c :: rest => if isBlank c then skipBlank rest else some c :: rest
  | source => source

def after? : List Char → Decoded → Option Decoded
  | [], source => some source
  | c :: word, some d :: source => if c = d then after? word source else none
  | _ :: _, _ => none

def hexDigit? (c : Char) : Option Nat :=
  if '0' ≤ c ∧ c ≤ '9' then some (c.toNat - '0'.toNat)
  else if 'a' ≤ c ∧ c ≤ 'f' then some (c.toNat - 'a'.toNat + 10)
  else if 'A' ≤ c ∧ c ≤ 'F' then some (c.toNat - 'A'.toNat + 10)
  else none

def hexCode? (a b c d : Char) : Option Nat := do
  return (((← hexDigit? a) * 16 + (← hexDigit? b)) * 16 + (← hexDigit? c)) * 16 + (← hexDigit? d)

/-- A unit of a string: a character, half of a surrogate pair that stands in the text itself, or a
code that is written as an escape. -/
inductive StringUnit where
  | char (c : Char)
  | loneHalf
  | escaped (code : Nat)

def escape? : Char → Option Char
  | '"' => some '"'
  | '\\' => some '\\'
  | '/' => some '/'
  | 'b' => some '\x08'
  | 'f' => some '\x0c'
  | 'n' => some '\n'
  | 'r' => some '\r'
  | 't' => some '\t'
  | _ => none

/-- The units of a string up to its quotation mark, and the text after it. -/
def units : Decoded → Option (List StringUnit × Decoded)
  | [] => none
  | none :: rest => (units rest).map fun (us, rest) => (.loneHalf :: us, rest)
  | some '"' :: rest => some ([], rest)
  | some '\\' :: some 'u' :: some a :: some b :: some c :: some d :: rest =>
    match hexCode? a b c d with
    | none => none
    | some code => (units rest).map fun (us, rest) => (.escaped code :: us, rest)
  | some '\\' :: some c :: rest =>
    match escape? c with
    | none => none
    | some e => (units rest).map fun (us, rest) => (.char e :: us, rest)
  | some c :: rest =>
    if c.val < ' '.val || c == '\\' then none
    else (units rest).map fun (us, rest) => (.char c :: us, rest)

def isHighHalf (code : Nat) : Bool :=
  0xD800 ≤ code && code < 0xDC00

def isLowHalf (code : Nat) : Bool :=
  0xDC00 ≤ code && code < 0xE000

/-- The characters of a string, unless it is ill-formed. Two halves that are both escapes and stand
next to each other are one character. -/
def characters : List StringUnit → Option (List Char)
  | [] => some []
  | .char c :: rest => (characters rest).map (c :: ·)
  | .loneHalf :: _ => none
  | .escaped high :: .escaped low :: rest =>
    if isHighHalf high then
      if isLowHalf low then
        (characters rest).map
          (Char.ofNat (0x10000 + (high - 0xD800) * 0x400 + (low - 0xDC00)) :: ·)
      else none
    else if isLowHalf high then none
    else (characters (.escaped low :: rest)).map (Char.ofNat high :: ·)
  | .escaped code :: rest =>
    if isHighHalf code || isLowHalf code then none
    else (characters rest).map (Char.ofNat code :: ·)

def string (source : Decoded) : Option (JsonString × Decoded) :=
  (units source).map fun (us, rest) => ((characters us).map String.ofList, rest)

def digits : Decoded → List Char × Decoded
  | some c :: rest =>
    if c.isDigit then
      let (ds, rest) := digits rest
      (c :: ds, rest)
    else ([], some c :: rest)
  | source => ([], source)

/-- The digits of an integer without sign: one zero, or a run that does not begin with zero. -/
def whole (source : Decoded) : Option (List Char × Decoded) :=
  match source with
  | some '0' :: rest => some (['0'], rest)
  | source =>
    match digits source with
    | ([], _) => none
    | found => some found

def fraction? : Decoded → Option (List Char × Decoded)
  | some '.' :: rest =>
    match digits rest with
    | ([], _) => none
    | found => some found
  | _ => none

def exponent? (source : Decoded) : Option (Int × Decoded) :=
  match source with
  | some 'e' :: rest | some 'E' :: rest =>
    let (negative, rest) := match rest with
      | some '-' :: rest => (true, rest)
      | some '+' :: rest => (false, rest)
      | rest => (false, rest)
    match digits rest with
    | ([], _) => none
    | (ds, rest) =>
      let n : Int := Numerals.value ds
      some (if negative then -n else n, rest)
  | _ => none

def number (negative : Bool) (source : Decoded) : Option (Json × Decoded) :=
  match whole source with
  | none => none
  | some (ds, rest) =>
    match fraction? rest, exponent? rest with
    | none, none =>
      match Numerals.valueWithin ds with
      | .error _ => none
      | .ok n => some (.int (if negative then -n else n), rest)
    | some (fs, rest), _ =>
      let (e, rest) := (exponent? rest).getD (0, rest)
      some (.decimal negative (Numerals.value (ds ++ fs)) (e - fs.length), rest)
    | none, some (e, rest) => some (.decimal negative (Numerals.value ds) e, rest)

def words : List (List Char × Json) :=
  [("null".toList, .null), ("true".toList, .bool true), ("false".toList, .bool false),
   ("NaN".toList, .notANumber), ("Infinity".toList, .infinity false),
   ("-Infinity".toList, .infinity true)]

/-- A value that is no string, list or object. -/
def atom (source : Decoded) : Option (Json × Decoded) :=
  match words.findSome? fun w => (after? w.1 source).map (w.2, ·) with
  | some found => some found
  | none =>
    match source with
    | some '-' :: rest => number true rest
    | _ => number false source

mutual

/-- A value and the text after it. The first argument bounds the depth and the number of values. -/
def value : Nat → Decoded → Option (Json × Decoded)
  | 0, _ => none
  | _ + 1, some '"' :: rest => (string rest).map fun (s, rest) => (.str s, rest)
  | fuel + 1, some '[' :: rest =>
    match skipBlank rest with
    | some ']' :: rest => some (.arr [], rest)
    | rest => (items fuel rest).map fun (items, rest) => (.arr items, rest)
  | fuel + 1, some '\x7b' :: rest =>
    match skipBlank rest with
    | some '\x7d' :: rest => some (.obj [], rest)
    | rest => fields fuel [] rest
  | _ + 1, source => atom source

def items : Nat → Decoded → Option (List Json × Decoded)
  | 0, _ => none
  | fuel + 1, source =>
    match value fuel source with
    | none => none
    | some (item, rest) =>
      match skipBlank rest with
      | some ',' :: rest =>
        (items fuel (skipBlank rest)).map fun (more, rest) => (item :: more, rest)
      | some ']' :: rest => some ([item], rest)
      | _ => none

/-- The fields of an object up to its brace, added to those read before. -/
def fields : Nat → List (JsonString × Json) → Decoded → Option (Json × Decoded)
  | 0, _, _ => none
  | fuel + 1, known, some '"' :: rest =>
    match string rest with
    | none => none
    | some (key, rest) =>
      match skipBlank rest with
      | some ':' :: rest =>
        match value fuel (skipBlank rest) with
        | none => none
        | some (field, rest) =>
          let known := Json.setField key field known
          match skipBlank rest with
          | some ',' :: rest => fields fuel known (skipBlank rest)
          | some '\x7d' :: rest => some (.obj known, rest)
          | _ => none
      | _ => none
  | _ + 1, _, _ => none

end

end JsonReader

/-- The value that a whole text stands for, blanks around it aside. -/
def Json.read? (source : Decoded) : Option Json :=
  match JsonReader.value (source.length + 1) (JsonReader.skipBlank source) with
  | none => none
  | some (json, rest) => if (JsonReader.skipBlank rest).isEmpty then some json else none

end Colloquy
