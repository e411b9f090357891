/-!
# The middle-square hash

A datum is squared without its sign and the middle bits of the product are kept. The datum is a
sign-magnitude word, so only its low 35 bits take part; the product has 70 bits.
-/

namespace Colloquy.MiddleSquare

def magnitudeBits : Nat := 35

def widthLimit : Nat := 15

/-- The datum without its sign: its low bits, in two's complement if it is negative. -/
def magnitude (datum : Int) : Nat :=
  (datum % (Nat.pow 2 magnitudeBits : Nat)).toNat

/-- The middle `bits` bits of the square of the magnitude. -/
def hash (datum : Int) (bits : Nat) : Nat :=
  ((magnitude datum * magnitude datum) >>> (magnitudeBits - bits / 2)) % Nat.pow 2 bits

/-- A hash was asked for with too many bits, or with fewer than none. -/
structure WidthOutOfRange where
  width : Int
deriving DecidableEq, Repr

def WidthOutOfRange.message (e : WidthOutOfRange) : String :=
  "hash width must be in 0.." ++ toString widthLimit ++ ", got " ++ toString e.width

def hashOfWidth (datum : Int) (width : Int) : Except WidthOutOfRange Nat :=
  if 0 ≤ width ∧ width ≤ widthLimit then .ok (hash datum width.toNat) else .error ⟨width⟩

end Colloquy.MiddleSquare
