/-!
# Blank characters at the ends of a text

The blank characters are the white space of Unicode and the four separators of the ASCII control
characters.
-/

namespace Colloquy.BlankText

def isBlank (c : Char) : Bool :=
  let n := c.toNat
  (9 ≤ n && n ≤ 13) || (0x1C ≤ n && n ≤ 0x20) || n == 0x85 || n == 0xA0 || n == 0x1680
    || (0x2000 ≤ n && n ≤ 0x200A) || n == 0x2028 || n == 0x2029 || n == 0x202F || n == 0x205F
    || n == 0x3000

def strip (text : List Char) : List Char :=
  ((text.dropWhile isBlank).reverse.dropWhile isBlank).reverse

def stripped (s : String) : String :=
  String.ofList (strip s.toList)

end Colloquy.BlankText
