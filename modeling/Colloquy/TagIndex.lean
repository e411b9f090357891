import Colloquy.KeywordRule

/-!
# The tag index

Every rule may list tags, with or without a slash in front; a slash alone is no tag. The index
lists under each tag the keywords of its rules in the order of the rules' keys.
-/

namespace Colloquy.TagIndex

/-- The name of a tag as it is listed, nothing for a slash alone. -/
def nameOf (listed : Word) : Option Word :=
  match listed with
  | ['/'] => none
  | '/' :: name => some name
  | name => some name

def addMember (tags : Tags) (tag keyword : Word) : Tags :=
  let members := (tags.get? tag).getD []
  if members.contains keyword then tags else tags.insert tag (members ++ [keyword])

def addRule (tags : Tags) (r : Rule) : Tags :=
  (r.tags.filterMap nameOf).foldl (fun tags tag => addMember tags tag r.keyword) tags

def ofRules (rules : WordMap Rule) : Tags :=
  rules.entries.foldl (fun tags entry => addRule tags entry.2) WordMap.empty

def render (tags : Tags) : List Char :=
  tags.entries.flatMap fun entry =>
    entry.1 ++ [':', ' '] ++ [' '].intercalate entry.2 ++ ['\n']

end Colloquy.TagIndex
