import Colloquy.TurnTrace

/-!
# Conversations

A turn reduces the text to words, finds the keywords of one clause and works them off by rank. A
rule may answer, rewrite the sentence, send it on to another keyword or give way to the next one.
With no keyword at all an old memory may be recalled; when nothing else answers the NONE rule or
a canned phrase does. A turn gives the answer, the state afterwards and the events in their order.
A tracer is told of every event before the turn goes on. A fault, also one of the tracer, ends the
turn, and what the state has become by then remains.
-/

namespace Colloquy

structure Turn where
  reply : Except Fault Word
  state : State
  events : List Event

namespace Turn

def after (events : List Event) (t : Turn) : Turn :=
  { t with events := events ++ t.events }

def answer (reply : Word) (s : State) : Turn :=
  ⟨.ok reply, s, []⟩

def fail (fault : Fault) (s : State) : Turn :=
  ⟨.error fault, s, []⟩

end Turn

/-- A turn with the tracer that has been told of it. -/
structure WatchedTurn extends Turn where
  tracer : Tracer

namespace WatchedTurn

def after (events : List Event) (t : WatchedTurn) : WatchedTurn :=
  { t with toTurn := t.toTurn.after events }

def answer (reply : Word) (s : State) (tracer : Tracer) : WatchedTurn :=
  ⟨.answer reply s, tracer⟩

def fail (fault : Fault) (s : State) (tracer : Tracer) : WatchedTurn :=
  ⟨.fail fault s, tracer⟩

/-- Tells the tracer of events, one after the other, and goes on. The turn fails with the first that
cannot be told. -/
def tell : List Event → State → Tracer → (Tracer → WatchedTurn) → WatchedTurn
  | [], _, tracer, next => next tracer
  | event :: events, s, tracer, next =>
    match tracer.see event with
    | .error numeral => .fail (.oversized numeral) s tracer
    | .ok tracer => (tell events s tracer next).after [event]

end WatchedTurn

structure Options where
  cannedPhrases : Bool
  maxHops : Int

def defaultMaxHops : Int := 10000

/-- A script with its tags and with the two rules that every conversation needs. -/
structure Repertoire where
  script : Script
  tags : Tags
  noneRule : Rule
  memoryRule : MemoryRule
  tags_eq : tags = script.tags
  noneRule_eq : script.rules.get? noneKey = some noneRule
  memoryRule_eq : script.memoryRule? = some memoryRule

inductive StartFault where
  | noNoneRule
  | noMemoryRule
  | noHops
deriving DecidableEq

def StartFault.message : StartFault → String
  | .noNoneRule => "script has no NONE rule"
  | .noMemoryRule => "script has no MEMORY rule"
  | .noHops => "max_link_hops must be at least 1"

def Repertoire.ofScript (script : Script) : Except StartFault Repertoire :=
  match hn : script.rules.get? noneKey with
  | none => .error .noNoneRule
  | some noneRule =>
    match hm : script.memoryRule? with
    | none => .error .noMemoryRule
    | some memoryRule => .ok ⟨script, script.tags, noneRule, memoryRule, rfl, hn, hm⟩

def standing (rules : WordMap Rule) (keyword : Word) : Standing :=
  match rules.get? keyword with
  | none => .unknown
  | some rule => if rule.hasTransformation then .ranked rule.precedence else .inert

/-- The keywords of a clause, the next one first, and its words with substitutions made. -/
structure Clause where
  keystack : List Word
  words : List Word
deriving DecidableEq

/-- Scans the rest of a sentence. The keywords found so far, the highest rank among them and the
words passed, in reverse, belong to the clause at hand. -/
def scanFrom (rules : WordMap Rule) (keystack : List Word) (rank : Int) (passed : List Word) :
    List Word → Clause
  | [] => ⟨keystack, passed.reverse⟩
  | w :: rest =>
    if Words.isDelimiter w then
      if keystack.isEmpty then scanFrom rules [] rank [] rest else ⟨keystack, passed.reverse⟩
    else
      match rules.get? w with
      | none => scanFrom rules keystack rank (w :: passed) rest
      | some rule =>
        let passed := (rule.substituteFor w).getD w :: passed
        if rule.hasTransformation then
          if rank < rule.precedence then
            scanFrom rules (w :: keystack) rule.precedence passed rest
          else scanFrom rules (keystack ++ [w]) rank passed rest
        else scanFrom rules keystack rank passed rest

/-- The first clause of a sentence that holds a keyword, or the last clause if none does. -/
def scan (rules : WordMap Rule) (words : List Word) : Clause :=
  scanFrom rules [] 0 [] words

namespace Repertoire

/-- Applies a rule, tells that it does, which reassembly it took and which template it filled, and
goes on with its application. -/
def watchedApplying (r : Repertoire) (rule : Rule) (words : List Word) (s : State) (tracer : Tracer)
    (next : Application → State → Tracer → WatchedTurn) : WatchedTurn :=
  let applied := rule.apply r.tags words s.cycles
  let s := { s with cycles := applied.cycles }
  WatchedTurn.tell
    (.applying rule words ::
      (applied.selection.toList.map .selected ++ applied.template.toList.map .reassembling))
    s tracer fun tracer =>
      match applied.result with
      | .error fault => .fail fault s tracer
      | .ok application => next application s tracer

/-- Answers by the NONE rule, or by a canned phrase if that rule gives no answer. -/
def watchedFallBack (r : Repertoire) (words : List Word) (s : State) (tracer : Tracer) :
    WatchedTurn :=
  r.watchedApplying r.noneRule words s tracer fun application s tracer =>
    WatchedTurn.tell [.fellBack application] s tracer fun tracer =>
      match application.outcome with
      | .complete reply => .answer (Words.join reply) s tracer
      | _ => WatchedTurn.tell [.noneSilent s.limit] s tracer (.answer s.phrase s)

def watchedGiveUp (r : Repertoire) (o : Options) (words : List Word) (s : State) (tracer : Tracer) :
    WatchedTurn :=
  if o.cannedPhrases then .answer s.phrase s tracer else r.watchedFallBack words s tracer

/-- Works off the keystack with a sentence, keyword by keyword and at most the given number. -/
def watchedWork (r : Repertoire) (o : Options) :
    Nat → List Word → List Word → State → Tracer → WatchedTurn
  | _, [], words, s, tracer => r.watchedFallBack words s tracer
  | 0, _ :: _, _, s, tracer =>
    WatchedTurn.tell [.hopLimit o.maxHops s.limit] s tracer (.answer s.phrase s)
  | hops + 1, keyword :: keystack, words, s, tracer =>
    let rules := r.script.rules
    WatchedTurn.tell
      [.keystack ((keyword :: keystack).map fun k => (k, standing rules k)),
        .working keyword words]
      s tracer fun tracer =>
        match rules.get? keyword with
        | none => WatchedTurn.tell [.unknownKeyword keyword] s tracer (r.watchedGiveUp o words s)
        | some rule =>
          WatchedTurn.tell ((r.memoryRule.template? r.tags keyword words).toList.map .reassembling)
            s tracer fun tracer =>
              match r.memoryRule.recollect r.tags keyword words with
              | .error fault => .fail fault s tracer
              | .ok recollection =>
                let s := s.keep recollection
                WatchedTurn.tell [.recollected keyword recollection] s tracer fun tracer =>
                  r.watchedApplying rule words s tracer fun application s tracer =>
                    WatchedTurn.tell [.applied rule words application] s tracer fun tracer =>
                      match application.outcome with
                      | .complete reply => .answer (Words.join reply) s tracer
                      | .inapplicable =>
                        WatchedTurn.tell [.noMatch keyword] s tracer (r.watchedGiveUp o words s)
                      | .newKey => watchedWork r o hops keystack words s tracer
                      | .link target rewritten =>
                        watchedWork r o hops (target :: keystack) (rewritten.getD words) s tracer

/-- The memory that answers a turn without keywords, and the state without it. -/
def recallable? (s : State) : Option (Word × State) :=
  if s.limit = State.recallLimit then s.takeOldest? else none

def watchedTurn (r : Repertoire) (o : Options) (s : State) (tracer : Tracer) (text : List Char) :
    WatchedTurn :=
  let s := s.advance
  let clause := scan r.script.rules (CardCode.normalize text)
  WatchedTurn.tell [.started s.limit, .memories s.memories] s tracer.begun fun tracer =>
    if clause.keystack.isEmpty then
      WatchedTurn.tell [.keystack []] s tracer fun tracer =>
        match recallable? s with
        | some (memory, s) => WatchedTurn.tell [.recalling] s tracer (.answer memory s)
        | none => r.watchedFallBack clause.words s tracer
    else r.watchedWork o o.maxHops.toNat clause.keystack clause.words s tracer

/-! ### Turns that nobody watches -/

def applying (r : Repertoire) (rule : Rule) (words : List Word) (s : State)
    (next : Application → State → Turn) : Turn :=
  (r.watchedApplying rule words s .silent fun application s tracer =>
    ⟨next application s, tracer⟩).toTurn

def fallBack (r : Repertoire) (words : List Word) (s : State) : Turn :=
  (r.watchedFallBack words s .silent).toTurn

def giveUp (r : Repertoire) (o : Options) (words : List Word) (s : State) : Turn :=
  (r.watchedGiveUp o words s .silent).toTurn

def work (r : Repertoire) (o : Options) (hops : Nat) (keystack words : List Word) (s : State) :
    Turn :=
  (r.watchedWork o hops keystack words s .silent).toTurn

/-- One turn of a conversation that nobody watches. -/
def turn (r : Repertoire) (o : Options) (s : State) (text : List Char) : Turn :=
  (r.watchedTurn o s .silent text).toTurn

end Repertoire

end Colloquy
