import Colloquy.ChatService
import Colloquy.JsonReader
import Colloquy.QuotedText
import Colloquy.ScriptWriter
import Colloquy.Proofs.ScriptTokens
import Colloquy.Proofs.BracketForms
import Colloquy.Proofs.ScriptGrammar
import Colloquy.Proofs.RuleReading
import Colloquy.Proofs.ScriptReading
import Colloquy.Proofs.ScriptAcceptance
import Colloquy.Proofs.LoadedScripts
import Colloquy.Proofs.SpelledTexts
import Colloquy.Proofs.ScriptRoundTrip
import Colloquy.Proofs.WellFormedScripts
import Colloquy.Proofs.LoadableScripts
import Colloquy.Proofs.ConversationSafety
import Colloquy.Proofs.MemoryHistory
import Colloquy.Proofs.ReassemblyRotation
import Colloquy.Proofs.RegistryIsolation
import Colloquy.Proofs.RegistryRecency
import Colloquy.Proofs.TracedConversations
import Colloquy.Proofs.SentenceCuts
import Colloquy.Proofs.FilledTemplates
import Colloquy.Proofs.WordLaws
import Colloquy.Proofs.ServiceRuns
import Colloquy.Proofs.LogDiscretion
import Colloquy.Proofs.ServiceConversations
import Colloquy.Proofs.KeystackCourse
import Colloquy.Proofs.LinkRanks
import Colloquy.Proofs.CodedSentences
import Colloquy.Proofs.DoctorConversations
import Colloquy.Proofs.FilledSpans
import Colloquy.Proofs.ScannedClauses
import Colloquy.Proofs.HopLimits
import Colloquy.Proofs.ScannerCalls
import Colloquy.Proofs.UnifiedLineEnds
import Colloquy.Proofs.UniqueDerivations
import Colloquy.Proofs.ScriptArrangement
import Colloquy.Proofs.ReferenceSpellings
import Colloquy.Proofs.DeadEnds
import Colloquy.Proofs.ChosenPairs
import Colloquy.Proofs.NormalizedWords
import Colloquy.Proofs.PackedCells
import Colloquy.Proofs.MiddleBits
import Colloquy.Proofs.TagGroups
