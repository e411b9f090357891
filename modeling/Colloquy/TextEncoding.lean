import Colloquy.JsonReader

/-!
# Texts as bytes

Bytes are decoded by the three Unicode encodings. Half of a surrogate pair may stand alone where
the reader of the text can tell it from a character; a strict text holds characters only.
-/

namespace Colloquy.TextEncoding

/-- The character of a code, nothing for half of a surrogate pair. -/
def ofCode (code : Nat) : Option Char :=
  if 0xD800 ≤ code ∧ code < 0xE000 then none else some (Char.ofNat code)

def isContinuation (b : UInt8) : Bool :=
  0x80 ≤ b && b < 0xC0

/-- The code with six more bits from a byte that continues a character. -/
def extend (code : Nat) (b : UInt8) : Nat :=
  code * 0x40 + (b.toNat - 0x80)

/-- The text of bytes in UTF-8. A code must have no more bytes than it needs. -/
def utf8? : List UInt8 → Option Decoded
  | [] => some []
  | a :: rest =>
    if a < 0x80 then (utf8? rest).map (ofCode a.toNat :: ·)
    else
      match rest with
      | [] => none
      | b :: rest =>
        if !isContinuation b then none
        else if 0xC2 ≤ a && a < 0xE0 then
          (utf8? rest).map (ofCode (extend (a.toNat - 0xC0) b) :: ·)
        else
          match rest with
          | [] => none
          | c :: rest =>
            if !isContinuation c then none
            else if 0xE0 ≤ a && a < 0xF0 then
              let code := extend (extend (a.toNat - 0xE0) b) c
              if code < 0x800 then none else (utf8? rest).map (ofCode code :: ·)
            else
              match rest with
              | [] => none
              | d :: rest =>
                let code := extend (extend (extend (a.toNat - 0xF0) b) c) d
                if isContinuation d && 0xF0 ≤ a && a < 0xF8 && 0x10000 ≤ code && code < 0x110000
                then (utf8? rest).map (ofCode code :: ·)
                else none

def ofUnits : List Nat → Decoded
  | [] => []
  | high :: low :: rest =>
    if JsonReader.isHighHalf high && JsonReader.isLowHalf low then
      some (Char.ofNat (0x10000 + (high - 0xD800) * 0x400 + (low - 0xDC00))) :: ofUnits rest
    else ofCode high :: ofUnits (low :: rest)
  | unit :: rest => ofCode unit :: ofUnits rest

/-- The numbers that pairs of bytes stand for, the more significant byte first or last. -/
def units? (bigFirst : Bool) : List UInt8 → Option (List Nat)
  | [] => some []
  | [_] => none
  | a :: b :: rest =>
    let unit := if bigFirst then a.toNat * 0x100 + b.toNat else b.toNat * 0x100 + a.toNat
    (units? bigFirst rest).map (unit :: ·)

def utf16? (bigFirst : Bool) (bytes : List UInt8) : Option Decoded :=
  (units? bigFirst bytes).map ofUnits

def ofHalves? (bigFirst : Bool) : List Nat → Option Decoded
  | [] => some []
  | [_] => none
  | a :: b :: rest =>
    let code := if bigFirst then a * 0x10000 + b else b * 0x10000 + a
    if code < 0x110000 then (ofHalves? bigFirst rest).map (ofCode code :: ·) else none

def utf32? (bigFirst : Bool) (bytes : List UInt8) : Option Decoded :=
  (units? bigFirst bytes).bind (ofHalves? bigFirst)

/-- The text of the bytes of a JSON text. A byte order mark tells the encoding, or else the zero
bytes among the first four do; UTF-8 is the rule. -/
def json? (bytes : List UInt8) : Option Decoded :=
  match bytes with
  | 0x00 :: 0x00 :: 0xFE :: 0xFF :: rest => utf32? true rest
  | 0xFF :: 0xFE :: 0x00 :: 0x00 :: rest => utf32? false rest
  | 0xFE :: 0xFF :: rest => utf16? true rest
  | 0xFF :: 0xFE :: rest => utf16? false rest
  | 0xEF :: 0xBB :: 0xBF :: rest => utf8? rest
  | 0x00 :: b :: _ :: _ :: _ => if b = 0 then utf32? true bytes else utf16? true bytes
  | _ :: 0x00 :: c :: d :: _ => if c = 0 && d = 0 then utf32? false bytes else utf16? false bytes
  | [0x00, _] => utf16? true bytes
  | [_, 0x00] => utf16? false bytes
  | _ => utf8? bytes

def strict? (text : Decoded) : Option (List Char) :=
  text.mapM id

def unifyLineEnds : List Char → List Char
  | [] => []
  | '\r' :: '\n' :: rest => '\n' :: unifyLineEnds rest
  | c :: rest => (if c = '\r' then '\n' else c) :: unifyLineEnds rest

end Colloquy.TextEncoding
