import Colloquy.Proofs.ReassemblyRotation
import Colloquy.Proofs.WorkedKeywords

/-!
# Dead ends

A turn comes to a dead end where the keyword at hand has no rule, or a rule that does not apply to
the sentence. There it answers with a canned phrase or by the NONE rule, as has been chosen. In
everything before a dead end the choice makes no difference, nor does it in a turn that comes to none.
-/

namespace Colloquy

def Event.isDeadEnd : Event → Bool
  | .unknownKeyword _ | .noMatch _ => true
  | _ => false

/-- The answer that an application gives: what it completes, or else the phrase. -/
def Applied.answerOr (applied : Applied) (phrase : Word) : Except Fault Word :=
  applied.result.map fun application =>
    match application.outcome with
    | .complete reply => Words.join reply
    | .inapplicable | .newKey | .link .. => phrase

namespace Repertoire

variable {r : Repertoire}

/-- The events end at a keyword that leads nowhere, the last that is worked on, with its sentence. -/
inductive DeadEnd (r : Repertoire) (keyword : Word) (words : List Word) : List Event → Prop where
  | unruled (earlier : List Event) (unruled : r.script.rules.get? keyword = none) :
      DeadEnd r keyword words (earlier ++ [.working keyword words, .unknownKeyword keyword])
  | inapplicable (earlier between : List Event) {rule : Rule} {application : Application}
      (ruled : r.script.rules.get? keyword = some rule)
      (outcome : application.outcome = .inapplicable)
      (idle : between.any Event.isWorking = false) :
      DeadEnd r keyword words (earlier ++ .working keyword words ::
        (between ++ [.applied rule words application, .noMatch keyword]))

theorem DeadEnd.after {keyword : Word} {words : List Word} {told : List Event}
    (h : r.DeadEnd keyword words told) (events : List Event) :
    r.DeadEnd keyword words (events ++ told) := by
  cases h with
  | unruled earlier unruled =>
    rw [← List.append_assoc]
    exact .unruled _ unruled
  | inapplicable earlier between ruled outcome idle =>
    rw [← List.append_assoc]
    exact .inapplicable _ between ruled outcome idle

/-- A turn with canned phrases and one without are the same and come to no dead end, or they come to
the same dead end, where the one answers with a phrase and the other falls back on the NONE rule. -/
inductive Parts (r : Repertoire) (canned other : WatchedTurn) : Prop where
  | same (eq : other = canned) (clear : canned.events.any Event.isDeadEnd = false)
  | parted (keyword : Word) (words : List Word) (told : List Event) (here : State) (tracer : Tracer)
      (deadEnd : r.DeadEnd keyword words told)
      (canned_eq : canned = (WatchedTurn.answer here.phrase here tracer).after told)
      (other_eq : other = (r.watchedFallBack words here tracer).after told)

theorem Parts.after {canned other : WatchedTurn} (h : r.Parts canned other) {events : List Event}
    (hclear : events.any Event.isDeadEnd = false) :
    r.Parts (canned.after events) (other.after events) := by
  cases h with
  | same eq clear =>
    refine .same (congrArg _ eq) ?_
    rw [WatchedTurn.toTurn_after, Turn.events_after, List.any_append, hclear, clear, Bool.false_or]
  | parted keyword words told here tracer deadEnd canned_eq other_eq =>
    refine .parted keyword words _ here tracer (deadEnd.after events) ?_ ?_
    · rw [canned_eq, WatchedTurn.after_after]
    · rw [other_eq, WatchedTurn.after_after]

/-- Both turns tell the events, or both fail to tell the same one. -/
theorem Parts.tell {canned other : Tracer → WatchedTurn}
    (h : ∀ tracer, r.Parts (canned tracer) (other tracer)) {events : List Event}
    (hclear : events.any Event.isDeadEnd = false) (s : State) (tracer : Tracer) :
    r.Parts (WatchedTurn.tell events s tracer canned) (WatchedTurn.tell events s tracer other) := by
  induction events generalizing tracer with
  | nil => exact h tracer
  | cons event events ih =>
    rw [List.any_cons, Bool.or_eq_false_iff] at hclear
    cases hsee : tracer.see event with
    | error numeral =>
      rw [WatchedTurn.tell, WatchedTurn.tell, hsee]
      exact .same rfl rfl
    | ok told =>
      rw [WatchedTurn.tell_of_see hsee, WatchedTurn.tell_of_see hsee]
      refine (ih hclear.2 told).after ?_
      rw [List.any_cons, hclear.1]
      rfl

theorem parts_fallBack (words : List Word) (s : State) (tracer : Tracer) :
    r.Parts (r.watchedFallBack words s tracer) (r.watchedFallBack words s tracer) := by
  refine .same rfl (List.any_eq_false.mpr fun event h => ?_)
  rw [toTurn_watchedFallBack] at h
  have htells : r.Tells 0 ⟨[], words⟩ event := tells_of_mem_fallBack h
  cases htells <;> simp [Event.isDeadEnd]

/-- What is told between a keyword that is worked on and the outcome of its rule. -/
def trail (r : Repertoire) (keyword : Word) (words : List Word) (recollection : Recollection)
    (rule : Rule) (cycles : Cycles) : List Event :=
  (r.memoryRule.template? r.tags keyword words).toList.map .reassembling ++
    .recollected keyword recollection :: (rule.apply r.tags words cycles).events rule words

/-- What is told of a keyword whose rule is applied, from the keyword to the outcome. -/
def passage (r : Repertoire) (keyword : Word) (words : List Word) (recollection : Recollection)
    (rule : Rule) (cycles : Cycles) (application : Application) : List Event :=
  .working keyword words ::
    (r.trail keyword words recollection rule cycles ++ [.applied rule words application])

section

variable (keyword : Word) (words : List Word) (recollection : Recollection) (cycles : Cycles)

theorem clear_passage (rule : Rule) (application : Application) :
    (r.passage keyword words recollection rule cycles application).any Event.isDeadEnd = false := by
  simp [passage, trail, Applied.events, Event.isDeadEnd]

theorem deadEnd_passage {rule : Rule} {application : Application}
    (hrule : r.script.rules.get? keyword = some rule)
    (houtcome : application.outcome = .inapplicable) :
    r.DeadEnd keyword words
      (r.passage keyword words recollection rule cycles application ++ [.noMatch keyword]) := by
  have hidle : (r.trail keyword words recollection rule cycles).any Event.isWorking = false := by
    simp [trail, Applied.events, Event.isWorking]
  have hend : r.DeadEnd keyword words _ := .inapplicable [] _ hrule houtcome hidle
  simpa [passage] using hend

end

/-- What a turn does with a keyword whose rule is applied. Of everything after the keystack every tracer
can be told. -/
theorem watchedWork_of_result (o : Options) (hops : Nat) {keyword : Word} (keystack : List Word)
    {words : List Word} {s : State} {rule : Rule} {recollection : Recollection}
    {application : Application} (tracer : Tracer)
    (hrule : r.script.rules.get? keyword = some rule)
    (hmade : r.memoryRule.recollect r.tags keyword words = .ok recollection)
    (hresult : (rule.apply r.tags words (s.keep recollection).cycles).result = .ok application) :
    let passage :=
      r.passage keyword words recollection rule (s.keep recollection).cycles application
    let here := { s.keep recollection with
      cycles := (rule.apply r.tags words (s.keep recollection).cycles).cycles }
    r.watchedWork o (hops + 1) (keyword :: keystack) words s tracer =
      WatchedTurn.tell
        [.keystack ((keyword :: keystack).map fun k => (k, standing r.script.rules k))] s tracer
        fun tracer =>
          (match application.outcome with
            | .complete reply => WatchedTurn.answer (Words.join reply) here (tracer.told passage)
            | .inapplicable =>
              WatchedTurn.tell [.noMatch keyword] here (tracer.told passage)
                (r.watchedGiveUp o words here)
            | .newKey => r.watchedWork o hops keystack words here (tracer.told passage)
            | .link target rewritten =>
              r.watchedWork o hops (target :: keystack) (rewritten.getD words) here
                (tracer.told passage)).after passage := by
  have htemplates : ∀ event ∈ ((r.memoryRule.template? r.tags keyword words).toList.map
      Event.reassembling), event.Writable := by
    simp [Event.Writable]
  rw [watchedWork, WatchedTurn.tell_cons _ [.working _ _]]
  simp only [hrule, hmade, WatchedTurn.tell_of_writable htemplates, watchedApplying_eq, hresult]
  simp only [WatchedTurn.tell_plain, ne_eq, reduceCtorEq, not_false_eq_true, implies_true]
  simp only [WatchedTurn.after_after, ← Tracer.told_append]
  congr 1
  funext tracer
  cases houtcome : application.outcome <;>
    simp [passage, trail]

theorem parts_work (maxHops : Int) (hops : Nat) (keystack words : List Word) (s : State)
    (tracer : Tracer) :
    r.Parts (r.watchedWork ⟨true, maxHops⟩ hops keystack words s tracer)
      (r.watchedWork ⟨false, maxHops⟩ hops keystack words s tracer) := by
  -- The choice is looked at where a turn gives up only: before that both turns do the same, and what
  -- they do with the keywords that are left is the induction hypothesis.
  induction hops generalizing keystack words s tracer with
  | zero =>
    cases keystack with
    | nil => exact parts_fallBack words s tracer
    | cons keyword keystack => exact .tell (fun tracer => .same rfl rfl) rfl s tracer
  | succ hops ih =>
    cases keystack with
    | nil => exact parts_fallBack words s tracer
    | cons keyword keystack =>
      cases hrule : r.script.rules.get? keyword with
      | none =>
        rw [watchedWork, watchedWork, WatchedTurn.tell_cons _ [.working _ _],
          WatchedTurn.tell_cons _ [.working _ _]]
        refine .tell (fun tracer => ?_) rfl s tracer
        simp only [hrule, WatchedTurn.tell_plain, ne_eq, reduceCtorEq, not_false_eq_true,
          implies_true, WatchedTurn.after_after]
        exact .parted keyword words _ s _ (.unruled [] hrule) rfl rfl
      | some rule =>
        cases hmade : r.memoryRule.recollect r.tags keyword words with
        | error fault =>
          rw [watchedWork, watchedWork]
          refine .tell (fun tracer => ?_) rfl s tracer
          simp only [hrule, hmade]
          exact .tell (fun tracer => .same rfl rfl) (by simp [Event.isDeadEnd]) s tracer
        | ok recollection =>
          cases hresult : (rule.apply r.tags words (s.keep recollection).cycles).result with
          | error fault =>
            rw [watchedWork, watchedWork]
            refine .tell (fun tracer => ?_) rfl s tracer
            simp only [hrule, hmade]
            refine .tell (fun tracer => .tell (fun tracer => ?_) rfl _ tracer)
              (by simp [Event.isDeadEnd]) s tracer
            simp only [watchedApplying_eq, hresult]
            exact .after (.same rfl rfl) (by simp [Applied.events, Event.isDeadEnd])
          | ok application =>
            have hclear := r.clear_passage keyword words recollection
              (s.keep recollection).cycles rule application
            rw [watchedWork_of_result _ _ _ _ hrule hmade hresult,
              watchedWork_of_result _ _ _ _ hrule hmade hresult]
            refine .tell (fun tracer => ?_) rfl s tracer
            cases houtcome : application.outcome with
            | complete reply => exact .after (.same rfl rfl) hclear
            | inapplicable =>
              have hend := deadEnd_passage keyword words recollection
                (s.keep recollection).cycles hrule houtcome
              simp only [WatchedTurn.tell_plain, ne_eq, reduceCtorEq, not_false_eq_true,
                implies_true, WatchedTurn.after_after]
              exact .parted keyword words _ _ _ hend rfl rfl
            | newKey => exact (ih _ _ _ _).after hclear
            | link target rewritten => exact (ih _ _ _ _).after hclear

theorem parts_turn (maxHops : Int) (s : State) (tracer : Tracer) (text : List Char) :
    r.Parts (r.watchedTurn ⟨true, maxHops⟩ s tracer text)
      (r.watchedTurn ⟨false, maxHops⟩ s tracer text) := by
  rw [watchedTurn, watchedTurn]
  refine .tell (fun tracer => ?_) rfl _ _
  split
  · refine .tell (fun tracer => ?_) rfl _ tracer
    split
    · exact .tell (fun tracer => .same rfl rfl) rfl _ tracer
    · exact parts_fallBack _ _ tracer
  · exact parts_work maxHops _ _ _ _ tracer

/-! ### Falling back -/

/-- The NONE rule changes nothing but the pointers, and answers with what it completes or else with
a phrase. -/
theorem fallBack_eq (words : List Word) (s : State) :
    let applied := r.noneRule.apply r.tags words s.cycles
    (r.fallBack words s).state = { s with cycles := applied.cycles } ∧
      (r.fallBack words s).reply = applied.answerOr s.phrase := by
  simp only [fallBack_eq_applying, applying_eq, Applied.answerOr]
  cases hresult : (r.noneRule.apply r.tags words s.cycles).result with
  | error fault => exact ⟨rfl, rfl⟩
  | ok application =>
    simp only [Except.map, Turn.after]
    cases houtcome : application.outcome <;> exact ⟨rfl, rfl⟩

end Repertoire

def Session.choosing (session : Session) (cannedPhrases : Bool) : Session :=
  { session with options := { session.options with cannedPhrases := cannedPhrases } }

/-- A turn that comes to no dead end is the same with canned phrases and without. One that comes to a
dead end answers with a canned phrase. Without them it has told and done the same up to there; the
NONE rule is then applied to the sentence of the keyword that leads nowhere, moves no pointer but
its own, and answers with what it completes, or with the same phrase if it completes nothing. -/
theorem Session.none_rule_stands_in_at_dead_ends (session : Session) (text : List Char) :
    let canned := (session.choosing true).say text
    let other := (session.choosing false).say text
    let here := canned.session.state
    let noneRule := session.repertoire.noneRule
    ((∀ event ∈ canned.events, event.isDeadEnd = false) ∧ other.events = canned.events ∧
        other.session.state = here ∧ other.reply = canned.reply) ∨
      ∃ keyword words, session.repertoire.DeadEnd keyword words canned.events ∧
        canned.reply = .ok here.phrase ∧ canned.events <+: other.events ∧
        let applied := noneRule.apply session.repertoire.tags words here.cycles
        other.session.state = { here with cycles := applied.cycles } ∧
          (∀ key, applied.cycles.peek key = here.cycles.peek key ∨
            ∃ index : Nat, noneRule.patternFor? session.repertoire.tags words = some index ∧
              key = (noneRule.keyword, (index : Int))) ∧
          other.reply = applied.answerOr here.phrase := by
  intro canned other here noneRule
  cases session.repertoire.parts_turn session.options.maxHops session.state session.tracer text with
  | same eq clear =>
    have hclear : ∀ event ∈ canned.events, event.isDeadEnd = false := fun event h =>
      Bool.eq_false_iff.mpr (List.any_eq_false.mp clear event h)
    exact .inl ⟨hclear, congrArg (·.events) eq, congrArg (·.state) eq, congrArg (·.reply) eq⟩
  | parted keyword words told stop tracer deadEnd canned_eq other_eq =>
    have htold : canned.events = told :=
      (congrArg (·.events) canned_eq).trans (List.append_nil told)
    have hhere : here = stop := congrArg (·.state) canned_eq
    have hother := congrArg WatchedTurn.toTurn other_eq
    rw [WatchedTurn.toTurn_after, Repertoire.toTurn_watchedFallBack] at hother
    obtain ⟨hstate, hreply⟩ := session.repertoire.fallBack_eq words stop
    refine .inr ⟨keyword, words, htold ▸ deadEnd, ?_, ?_, ?_⟩
    · rw [hhere]
      exact congrArg (·.reply) canned_eq
    · rw [htold]
      exact ⟨_, (congrArg Turn.events hother).symm⟩
    · rw [hhere]
      refine ⟨(congrArg Turn.state hother).trans hstate, fun key => ?_,
        (congrArg Turn.reply hother).trans hreply⟩
      by_cases hown : ∃ index : Nat, noneRule.patternFor? session.repertoire.tags words =
          some index ∧ key = (noneRule.keyword, (index : Int))
      · exact .inr hown
      · exact .inl (Rule.peek_apply_of_ne fun index hindex hkey => hown ⟨index, hindex, hkey.symm⟩)

theorem Session.none_rule_stands_in_behind_a_link :
    ∃ script session,
      Script.read
        ("(HI) (NONE ((0) (OH 1))) (A ((0) (PRE (B 1) (= C)))) ".toList ++
          "(MEMORY A (0 = A) (0 = B) (0 = C) (0 = D))".toList) = .ok script ∧
      Session.start script ⟨true, defaultMaxHops⟩ .silent = .ok session ∧
      ((session.choosing false).say "A D".toList).reply.toOption = some "OH B A D".toList ∧
      ∃ keyword words, session.repertoire.DeadEnd keyword words
        ((session.choosing true).say "A D".toList).events := by
  refine (Session.exists_start_of_any
    (p := fun session =>
      ((session.choosing true).say "A D".toList).events.any Event.isDeadEnd = true ∧
        ((session.choosing false).say "A D".toList).reply.toOption = some "OH B A D".toList)
    ?_).imp fun script => Exists.imp fun session h => ⟨h.1, h.2.1, ?_⟩
  · decide +kernel
  · obtain ⟨hdead, hreply⟩ := of_decide_eq_true h.2.2
    rcases session.none_rule_stands_in_at_dead_ends "A D".toList with
      ⟨hclear, -⟩ | ⟨keyword, words, hend, -⟩
    · obtain ⟨event, hevent, htrue⟩ := List.any_eq_true.mp hdead
      cases (hclear event hevent).symm.trans htrue
    · exact ⟨hreply, keyword, words, hend⟩

end Colloquy
