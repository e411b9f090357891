import Colloquy.Session

/-!
# Turns that nobody watches

A tracer that keeps nothing can be told of everything, so a turn that nobody watches is given by the
same equations with the tracer left out.
-/

namespace Colloquy

def Applied.events (rule : Rule) (words : List Word) (applied : Applied) : List Event :=
  .applying rule words ::
    (applied.selection.toList.map .selected ++ applied.template.toList.map .reassembling)

@[simp] theorem Turn.after_after (t : Turn) (events more : List Event) :
    (t.after more).after events = t.after (events ++ more) := by
  simp [Turn.after]

@[simp] theorem Turn.events_after (t : Turn) (events : List Event) :
    (t.after events).events = events ++ t.events := rfl

@[simp] theorem Turn.state_after (t : Turn) (events : List Event) :
    (t.after events).state = t.state := rfl

namespace WatchedTurn

@[simp] theorem toTurn_after (t : WatchedTurn) (events : List Event) :
    (t.after events).toTurn = t.toTurn.after events := rfl

@[simp] theorem after_after (t : WatchedTurn) (events more : List Event) :
    (t.after more).after events = t.after (events ++ more) := by
  simp [after]

theorem after_nil (t : WatchedTurn) : t.after [] = t := rfl

theorem tell_of_see {event : Event} {tracer told : Tracer} (h : tracer.see event = .ok told)
    (events : List Event) (s : State) (next : Tracer → WatchedTurn) :
    tell (event :: events) s tracer next = (tell events s told next).after [event] := by
  simp only [tell, h]

theorem tell_cons (event : Event) (events : List Event) (s : State) (tracer : Tracer)
    (next : Tracer → WatchedTurn) :
    tell (event :: events) s tracer next =
      tell [event] s tracer fun tracer => tell events s tracer next := by
  rw [tell, tell]
  cases tracer.see event <;> rfl

@[simp] theorem tell_silent (events : List Event) (s : State) (next : Tracer → WatchedTurn) :
    tell events s .silent next = (next .silent).after events := by
  induction events with
  | nil => exact (after_nil _).symm
  | cons event events ih =>
    rw [tell_of_see rfl, ih, after_after, List.singleton_append]

end WatchedTurn

namespace Repertoire

open WatchedTurn

variable (r : Repertoire) (o : Options) (rule : Rule) (words : List Word) (s : State)

theorem applying_eq (next : Application → State → Turn) :
    r.applying rule words s next =
      Turn.after ((rule.apply r.tags words s.cycles).events rule words)
        (match (rule.apply r.tags words s.cycles).result with
          | .error fault => .fail fault { s with cycles := (rule.apply r.tags words s.cycles).cycles }
          | .ok application =>
            next application { s with cycles := (rule.apply r.tags words s.cycles).cycles }) := by
  rw [applying, watchedApplying, tell_silent, toTurn_after]
  cases (rule.apply r.tags words s.cycles).result <;> rfl

/-- A rule is applied without a tracer, and what follows goes on without one. -/
theorem toTurn_watchedApplying (next : Application → State → Tracer → WatchedTurn) :
    (r.watchedApplying rule words s .silent next).toTurn =
      r.applying rule words s fun application s => (next application s .silent).toTurn := by
  rw [applying_eq, watchedApplying, tell_silent, toTurn_after]
  cases (rule.apply r.tags words s.cycles).result <;> rfl

theorem fallBack_eq_applying :
    r.fallBack words s = r.applying r.noneRule words s fun application s =>
      Turn.after [.fellBack application]
        (match application.outcome with
          | .complete reply => .answer (Words.join reply) s
          | _ => Turn.after [.noneSilent s.limit] (.answer s.phrase s)) := by
  rw [fallBack, watchedFallBack, toTurn_watchedApplying]
  congr 1
  funext application s
  rw [tell_silent, toTurn_after]
  cases application.outcome <;> rfl

theorem giveUp_eq :
    r.giveUp o words s = if o.cannedPhrases then .answer s.phrase s else r.fallBack words s := by
  rw [giveUp, watchedGiveUp]
  split <;> rfl

/-! ### Equations of a keystack -/

theorem work_nil (hops : Nat) : r.work o hops [] words s = r.fallBack words s := by
  cases hops <;> rfl

variable (keyword : Word) (keystack : List Word)

theorem work_succ_cons (hops : Nat) :
    r.work o (hops + 1) (keyword :: keystack) words s =
      Turn.after
        [.keystack ((keyword :: keystack).map fun k => (k, standing r.script.rules k)),
          .working keyword words]
        (match r.script.rules.get? keyword with
          | none => Turn.after [.unknownKeyword keyword] (r.giveUp o words s)
          | some rule =>
            Turn.after ((r.memoryRule.template? r.tags keyword words).toList.map .reassembling)
              (match r.memoryRule.recollect r.tags keyword words with
                | .error fault => .fail fault s
                | .ok recollection =>
                  Turn.after [.recollected keyword recollection]
                    (r.applying rule words (s.keep recollection) fun application s =>
                      Turn.after [.applied rule words application]
                        (match application.outcome with
                          | .complete reply => .answer (Words.join reply) s
                          | .inapplicable => Turn.after [.noMatch keyword] (r.giveUp o words s)
                          | .newKey => r.work o hops keystack words s
                          | .link target rewritten =>
                            r.work o hops (target :: keystack) (rewritten.getD words) s)))) := by
  rw [work, watchedWork, tell_silent, toTurn_after]
  cases r.script.rules.get? keyword with
  | none => rfl
  | some rule =>
    simp only [tell_silent, toTurn_after]
    cases r.memoryRule.recollect r.tags keyword words with
    | error fault => rfl
    | ok recollection =>
      simp only [toTurn_after, toTurn_watchedApplying]
      -- What follows the application is the same for each of its outcomes.
      congr 5
      funext application s
      cases application.outcome <;> rfl

/-! ### The equation of a turn -/

theorem turn_eq (text : List Char) :
    r.turn o s text =
      Turn.after [.started s.advance.limit, .memories s.advance.memories]
        (if (scan r.script.rules (CardCode.normalize text)).keystack.isEmpty then
          Turn.after [.keystack []]
            (match recallable? s.advance with
              | some (memory, s) => Turn.after [.recalling] (.answer memory s)
              | none => r.fallBack (scan r.script.rules (CardCode.normalize text)).words s.advance)
        else
          r.work o o.maxHops.toNat (scan r.script.rules (CardCode.normalize text)).keystack
            (scan r.script.rules (CardCode.normalize text)).words s.advance) := by
  have hbegun : Tracer.silent.begun = .silent := rfl
  rw [turn, watchedTurn, hbegun, tell_silent, toTurn_after]
  split
  · rw [tell_silent, toTurn_after]
    cases recallable? s.advance <;> rfl
  · rfl

end Repertoire

end Colloquy
