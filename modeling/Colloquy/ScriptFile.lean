import Colloquy.QuotedText
import Colloquy.ScriptReader
import Colloquy.TextEncoding

/-!
# Script files

A script file holds the text of a script in UTF-8; its lines may end in any of the usual ways.
-/

namespace Colloquy

inductive FileContent where
  | bytes (content : List UInt8)
  | absent (fault : FileFault)

inductive FileLoadFault where
  | load (fault : LoadFault)
  /-- The bytes are no text. -/
  | undecodable
  /-- The path holds a null character, which no path may. -/
  | nullInPath
deriving DecidableEq

def FileLoadFault.nullInPathMessage : String := "embedded null byte"

namespace ScriptFile

def parts (path : String) : List String :=
  (path.splitOn "/").filter fun part => part ≠ "" && part ≠ "."

/-- The slashes at the front of an absolute path. Two of them are kept, more count as one. -/
def root (path : String) : String :=
  let slashes := (path.toList.takeWhile (· == '/')).length
  if slashes = 0 then "" else if slashes = 2 then "//" else "/"

/-- The path without repeated slashes and without parts that stay where they are. -/
def normalize (path : String) : String :=
  let plain := root path ++ "/".intercalate (parts path)
  if plain.isEmpty then "." else plain

def ofBytes (content : List UInt8) : Except FileLoadFault Script :=
  match (TextEncoding.utf8? content).bind TextEncoding.strict? with
  | none => .error .undecodable
  | some text => (Script.read (TextEncoding.unifyLineEnds text)).mapError .load

/-- The fault of a path at which there is no file to read. -/
def unreadable (path : String) (fault : FileFault) : FileLoadFault :=
  let plain := normalize path
  .load (.script (.unreadable plain (String.ofList (QuotedText.quote plain.toList)) fault))

def load (path : String) (content : FileContent) : Except FileLoadFault Script :=
  if path.toList.contains '\x00' then .error .nullInPath
  else
    match content with
    | .bytes bytes => ofBytes bytes
    | .absent fault => .error (unreadable path fault)

def pathLimit : Nat := 4096

def partLimit : Nat := 255

/-- What is found at a path from a directory without files in it. -/
def inEmptyDirectory (path : String) : FileContent :=
  if pathLimit ≤ (normalize path).utf8ByteSize then .absent .nameTooLong
  else
    match (parts path).find? (· ≠ "..") with
    | none => .absent .directory
    | some name =>
      .absent (if partLimit < name.utf8ByteSize then .nameTooLong else .missing)

end ScriptFile

end Colloquy
