import Colloquy.BlankText

/-!
# Names of requests

A request is named by one of its headers, if that header is there and not blank.
-/

namespace Colloquy.RequestName

/-- The header that names a request, written as headers are handed over: in lower case. -/
def header : String := "x-request-id"

def maxLength : Nat := 128

def ofHeader? (value : String) : Option String :=
  let name := BlankText.strip value.toList
  if name.isEmpty then none else some (String.ofList (name.take maxLength))

/-- The name among the headers of a request; of several headers of one kind the first counts. -/
def ofHeaders? (headers : List (String × String)) : Option String :=
  ((headers.find? fun h => h.1 = header).bind fun h => ofHeader? h.2)

end Colloquy.RequestName
