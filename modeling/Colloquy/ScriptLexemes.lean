import Colloquy.Words

/-!
# The lexemes of a script

A script is made of brackets, numbers and symbols. Control characters and spaces separate them,
and a comment runs from a semicolon to the end of its line. Each lexeme knows the line it stands
on and how much of the text has been read when it is complete; a carriage return followed by a
line feed ends one line, not two. A scanner reads a text token by token and can look at a token
before it passes it.
-/

namespace Colloquy

inductive Token where
  | opening
  | closing
  | number (digits : Word)
  | symbol (name : Word)
deriving DecidableEq

/-- How far a text has been read: the line that has been reached and the number of characters. -/
structure Place where
  line : Nat
  stop : Nat
deriving DecidableEq

def Place.start : Place := ⟨1, 0⟩

def Place.pass (p : Place) (endsLine : Bool) : Place :=
  ⟨if endsLine then p.line + 1 else p.line, p.stop + 1⟩

structure Lexeme where
  token : Token
  place : Place
deriving DecidableEq

structure Lexemes where
  list : List Lexeme
  finish : Place
deriving DecidableEq

namespace Lexemes

def isLineEnd (c : Char) : Bool :=
  c == '\n' || c == '\x0b' || c == '\x0c' || c == '\r'

def isBlank (c : Char) : Bool :=
  c.val ≤ ' '.val || c == '\x7f'

def endsSymbol (c : Char) : Bool :=
  c == '(' || c == ')' || c == ';' || isBlank c

/-- What the characters just read belong to. Those of a token are held in reverse. -/
inductive Mode where
  | gap (afterReturn : Bool)
  | comment
  | number (pending : List Char)
  | symbol (pending : List Char)
deriving DecidableEq

/-- The token that is complete when no further character belongs to it. -/
def Mode.token? : Mode → Option Token
  | .gap _ | .comment => none
  | .number pending => some (.number pending.reverse)
  | .symbol pending => some (.symbol pending.reverse)

/-- The character belongs to the comment or token at hand. -/
def Mode.continues (c : Char) : Mode → Bool
  | .gap _ => false
  | .comment => !isLineEnd c
  | .number _ => c.isDigit
  | .symbol _ => !endsSymbol c

def Mode.push (c : Char) : Mode → Mode
  | .number pending => .number (c :: pending)
  | .symbol pending => .symbol (c :: pending)
  | mode => mode

def Mode.start (c : Char) : Mode :=
  if isBlank c || c == '(' || c == ')' then .gap (c == '\r')
  else if c == ';' then .comment
  else if c.isDigit then .number [c]
  else .symbol [c]

def bracket? (c : Char) : Option Token :=
  if c == '(' then some .opening else if c == ')' then some .closing else none

/-- The character ends a line where it stands: a line feed after a carriage return does not, since
the two end one line together. -/
def Mode.endsLine (c : Char) (mode : Mode) : Bool :=
  isLineEnd c && !(c == '\n' && mode == .gap true)

def emit (token : Option Token) (place : Place) (rest : Lexemes) : Lexemes :=
  match token with
  | none => rest
  | some t => ⟨⟨t, place⟩ :: rest.list, rest.finish⟩

/-- The lexemes of the rest of a text, read on from a mode and a place. -/
def readFrom (mode : Mode) (place : Place) : List Char → Lexemes
  | [] => emit mode.token? place ⟨[], place⟩
  | c :: cs =>
    if mode.continues c then readFrom (mode.push c) (place.pass false) cs
    else
      let next := place.pass (mode.endsLine c)
      emit mode.token? place (emit (bracket? c) next (readFrom (.start c) next cs))

def read (text : List Char) : Lexemes :=
  readFrom (.gap false) .start text

end Lexemes

inductive Scanned where
  | token (t : Token)
  | finish
deriving DecidableEq

/-- What has been found in a text, the text after it and the place up to which it has been read. -/
structure Reached where
  found : Scanned
  unread : List Char
  place : Place

namespace Lexemes

/-- Reads on from a mode and a place up to the end of a token, or of the text. -/
def reach (mode : Mode) (place : Place) : List Char → Reached
  | [] =>
    match mode.token? with
    | some t => ⟨.token t, [], place⟩
    | none => ⟨.finish, [], place⟩
  | c :: cs =>
    if mode.continues c then reach (mode.push c) (place.pass false) cs
    else
      match mode.token? with
      | some t => ⟨.token t, c :: cs, place⟩
      | none =>
        let next := place.pass (mode.endsLine c)
        match bracket? c with
        | some t => ⟨.token t, cs, next⟩
        | none => reach (.start c) next cs

/-- The end of a text is found only where nothing is left of it. -/
theorem unread_of_found_finish {mode : Mode} {place : Place} {text : List Char}
    (h : (reach mode place text).found = .finish) : (reach mode place text).unread = [] := by
  fun_induction reach mode place text with
  | case1 => cases h
  | case2 => rfl
  | case3 mode place c cs hc ih => exact ih h
  | case4 => cases h
  | case5 => cases h
  | case6 mode place c cs hc hmode next hbracket ih => exact ih h

end Lexemes

/-- A scanner of a text: what it has not read yet, the place that it has reached, and what it holds if it
has looked at it and not passed it. -/
structure Scanner where
  unread : List Char
  place : Place
  held : Option Scanned
  unread_of_held : held = some .finish → unread = []

namespace Scanner

def start (text : List Char) : Scanner :=
  ⟨text, .start, none, nofun⟩

/-- Looks at the next token without passing it; the text is read up to its end all the same. -/
def peek (s : Scanner) : Scanned × Scanner :=
  match s.held with
  | some found => (found, s)
  | none =>
    let reached := Lexemes.reach (.gap false) s.place s.unread
    (reached.found, ⟨reached.unread, reached.place, some reached.found,
      fun h => Lexemes.unread_of_found_finish (Option.some.inj h)⟩)

/-- Passes the next token. At the end of the text it stays there. -/
def next (s : Scanner) : Scanned × Scanner :=
  match s.held with
  | some found => (found, ⟨s.unread, s.place, none, nofun⟩)
  | none =>
    let reached := Lexemes.reach (.gap false) s.place s.unread
    (reached.found, ⟨reached.unread, reached.place, none, nofun⟩)

/-- The lexemes that the scanner has still to pass, and the place at the end of the text. -/
def rest (s : Scanner) : Lexemes :=
  match s.held with
  | none => Lexemes.readFrom (.gap false) s.place s.unread
  | some (.token t) => Lexemes.emit (some t) s.place (Lexemes.readFrom (.gap false) s.place s.unread)
  | some .finish => ⟨[], s.place⟩

@[simp] theorem rest_start (text : List Char) : (start text).rest = Lexemes.read text := rfl

end Scanner

end Colloquy
