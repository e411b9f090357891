import Colloquy.TagIndex

/-!
# Scripts

A script is a greeting and a map of rules. The rule that makes memories is kept in the same map
under a key of its own; all other entries are keyword rules, and their tags make the tag index.
-/

namespace Colloquy

/-- A script: the words of its greeting and its rules by key. -/
structure Script where
  greeting : List Word
  rules : WordMap Rule
deriving DecidableEq

namespace Script

def greetingText (s : Script) : List Char :=
  Words.join s.greeting

/-- The memory rule, if the rule under its key is one. -/
def memoryRule? (s : Script) : Option MemoryRule :=
  (s.rules.get? memoryKey).bind Rule.memory?

/-- The rules under all other keys. -/
def keywordRules (s : Script) : WordMap Rule :=
  s.rules.filterKeys (· ≠ memoryKey)

def tags (s : Script) : Tags :=
  TagIndex.ofRules s.keywordRules

end Script

end Colloquy
