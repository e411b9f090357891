import Colloquy.Proofs.WatchedTurns
import Colloquy.Session

/-!
# The course of a turn

What a turn may do from a state on, said once for everything that is to be known of turns: it answers
or fails, tells an event that changes nothing, attempts to make a memory, or applies a rule of the
script. A turn either recalls a memory or takes such a course, so what every step of a course keeps
is kept by every turn that recalls nothing.
-/

namespace Colloquy

/-- The event changes nothing and tells of no memory and no rule. If it tells of keywords, it tells how
they stand with the rules. -/
def Event.Quiet (rules : WordMap Rule) : Event → Prop
  | .keystack entries => ∀ entry ∈ entries, entry.2 = standing rules entry.1
  | .started _ | .memories _ | .working .. | .unknownKeyword _ | .noMatch _ | .noneSilent _
  | .hopLimit .. => True
  | _ => False

namespace Repertoire

/-- The events of an attempt to make a memory up to its outcome. -/
def attempt (r : Repertoire) (keyword : Word) (words : List Word) : List Event :=
  .working keyword words :: (r.memoryRule.template? r.tags keyword words).toList.map .reassembling

/-- What a turn may do from a state on, step by step, with a tracer that may fail or without one. -/
inductive Course (r : Repertoire) : State → Turn → Prop where
  | answer {s : State} (reply : Word) : Course r s (.answer reply s)
  | untold {s : State} (numeral : Numerals.Oversized) : Course r s (.fail (.oversized numeral) s)
  | tell {s : State} {t : Turn} {event : Event} (quiet : event.Quiet r.script.rules) (rest : Course r s t) :
      Course r s (t.after [event])
  | recollect {s : State} {t : Turn} {keyword : Word} {words : List Word}
      {recollection : Recollection}
      (made : r.memoryRule.recollect r.tags keyword words = .ok recollection)
      (rest : Course r (s.keep recollection) t) :
      Course r s (t.after (r.attempt keyword words ++ [.recollected keyword recollection]))
  | recollectFault {s : State} {keyword : Word} {words : List Word} {fault : Fault}
      (failed : r.memoryRule.recollect r.tags keyword words = .error fault) :
      Course r s (Turn.after (r.attempt keyword words) (.fail fault s))
  | apply {s : State} {t : Turn} {key : Word} {rule : Rule} {words : List Word}
      {application : Application} {event : Event}
      (stored : r.script.rules.get? key = some rule)
      (result : (rule.apply r.tags words s.cycles).result = .ok application)
      (told : event = .applied rule words application ∨ event = .fellBack application)
      (rest : Course r { s with cycles := (rule.apply r.tags words s.cycles).cycles } t) :
      Course r s (t.after ((rule.apply r.tags words s.cycles).events rule words ++ [event]))
  | applyFault {s : State} {key : Word} {rule : Rule} {words : List Word} {fault : Fault}
      (stored : r.script.rules.get? key = some rule)
      (result : (rule.apply r.tags words s.cycles).result = .error fault) :
      Course r s (Turn.after ((rule.apply r.tags words s.cycles).events rule words)
        (.fail fault { s with cycles := (rule.apply r.tags words s.cycles).cycles }))

end Repertoire

namespace Repertoire

variable {r : Repertoire}

/-- A turn that tells a quiet event, or fails to tell it, takes its course if what follows does. -/
theorem course_tell_quiet (event : Event) (hquiet : event.Quiet r.script.rules) {s : State}
    {next : Tracer → WatchedTurn} (hnext : ∀ tracer, r.Course s (next tracer).toTurn)
    (tracer : Tracer) : r.Course s (WatchedTurn.tell [event] s tracer next).toTurn := by
  rw [WatchedTurn.tell]
  cases tracer.see event with
  | error numeral => exact .untold numeral
  | ok told => exact .tell hquiet (hnext told)

/-- An application takes its course if it tells its outcome and what follows takes its own. -/
theorem course_applying {key : Word} {rule : Rule} (hrule : r.script.rules.get? key = some rule)
    (words : List Word) (s : State) {event : Application → Event}
    {next : Application → State → Tracer → WatchedTurn}
    (hevent : ∀ application, event application = .applied rule words application ∨
      event application = .fellBack application)
    (hnext : ∀ application following tracer,
      r.Course following (next application following tracer).toTurn) (tracer : Tracer) :
    r.Course s (r.watchedApplying rule words s tracer fun application s tracer =>
      WatchedTurn.tell [event application] s tracer (next application s)).toTurn := by
  -- No rank is told of while a rule is applied, so no tracer fails there.
  rw [watchedApplying_eq, WatchedTurn.toTurn_after]
  cases hresult : (rule.apply r.tags words s.cycles).result with
  | error fault => exact .applyFault hrule hresult
  | ok application =>
    have hplain : ∀ entries, event application ≠ .keystack entries := by
      rcases hevent application with h | h <;> simp [h]
    simp only [WatchedTurn.tell_plain hplain, WatchedTurn.toTurn_after, Turn.after_after]
    exact .apply hrule hresult (hevent application) (hnext application _ _)

theorem course_fallBack (words : List Word) (s : State) (tracer : Tracer) :
    r.Course s (r.watchedFallBack words s tracer).toTurn := by
  refine course_applying r.noneRule_eq words s (fun _ => .inr rfl) (fun _ _ _ => ?_) tracer
  split
  · exact .answer _
  · exact course_tell_quiet (.noneSilent _) trivial (fun _ => .answer _) _

theorem course_giveUp (o : Options) (words : List Word) (s : State) (tracer : Tracer) :
    r.Course s (r.watchedGiveUp o words s tracer).toTurn := by
  unfold watchedGiveUp
  split
  · exact .answer _
  · exact course_fallBack words s tracer

/-- An attempt to make a memory takes its course if what follows on the memory does. -/
theorem course_attempt {keyword : Word} {words : List Word} {s : State}
    {next : Recollection → Tracer → WatchedTurn}
    (hnext : ∀ recollection tracer, r.memoryRule.recollect r.tags keyword words = .ok recollection →
      r.Course (s.keep recollection) (next recollection tracer).toTurn) (tracer : Tracer) :
    r.Course s (WatchedTurn.tell [.working keyword words] s tracer fun tracer =>
      WatchedTurn.tell ((r.memoryRule.template? r.tags keyword words).toList.map .reassembling)
        s tracer fun tracer =>
          match r.memoryRule.recollect r.tags keyword words with
          | .error fault => .fail fault s tracer
          | .ok recollection =>
            WatchedTurn.tell [.recollected keyword recollection] (s.keep recollection) tracer
              (next recollection)).toTurn := by
  have hattempt : ∀ event ∈ r.attempt keyword words, event.Writable := by
    simp [attempt, Event.Writable]
  have htell (next : Tracer → WatchedTurn) := WatchedTurn.tell_of_writable hattempt s tracer next
  simp only [attempt, WatchedTurn.tell_cons _ (List.map _ _)] at htell
  rw [htell, WatchedTurn.toTurn_after]
  cases hmade : r.memoryRule.recollect r.tags keyword words with
  | error fault => exact .recollectFault hmade
  | ok recollection =>
    simp only [WatchedTurn.tell_plain, ne_eq, reduceCtorEq, not_false_eq_true, implies_true,
      WatchedTurn.toTurn_after, Turn.after_after]
    exact .recollect hmade (hnext recollection _ hmade)

theorem course_work (o : Options) (hops : Nat) (keystack words : List Word) (s : State)
    (tracer : Tracer) : r.Course s (r.watchedWork o hops keystack words s tracer).toTurn := by
  induction hops generalizing keystack words s tracer with
  | zero =>
    cases keystack with
    | nil => exact course_fallBack words s tracer
    | cons keyword keystack =>
      exact course_tell_quiet (.hopLimit _ _) trivial (fun _ => .answer _) tracer
  | succ hops ih =>
    cases keystack with
    | nil => exact course_fallBack words s tracer
    | cons keyword keystack =>
      rw [watchedWork, WatchedTurn.tell_cons]
      refine course_tell_quiet (.keystack _) (by simp [Event.Quiet]) (fun tracer => ?_) tracer
      cases hrule : r.script.rules.get? keyword with
      | none =>
        refine course_tell_quiet (.working _ _) trivial (fun tracer => ?_) tracer
        exact course_tell_quiet (.unknownKeyword _) trivial (course_giveUp o words s) tracer
      | some rule =>
        refine course_attempt (fun recollection tracer hmade => ?_) tracer
        refine course_applying hrule words _ (fun _ => .inl rfl) (fun application here tracer => ?_) tracer
        split
        · exact .answer _
        · exact course_tell_quiet (.noMatch _) trivial (course_giveUp o words here) tracer
        · exact ih _ _ _ _
        · exact ih _ _ _ _

/-- A text recalls a memory: it holds no keyword, the limit has come round, and a memory waits. -/
def Recalls (r : Repertoire) (s : State) (text : List Char) : Prop :=
  (scan r.script.rules (CardCode.normalize text)).keystack = [] ∧
    s.advance.limit = State.recallLimit ∧ s.memories ≠ []

/-- A turn that recalls a memory answers with the oldest one, and does nothing else. -/
theorem turn_of_recalls (o : Options) {s : State} {text : List Char} (h : r.Recalls s text)
    (tracer : Tracer) :
    ∃ oldest rest, s.memories = oldest :: rest ∧
      (r.watchedTurn o s tracer text).toTurn = ⟨.ok oldest, { s.advance with memories := rest },
        [.started s.advance.limit, .memories s.memories, .keystack [], .recalling]⟩ := by
  obtain ⟨hkeystack, hlimit, hne⟩ := h
  obtain ⟨oldest, rest, hmemories⟩ := List.exists_cons_of_ne_nil hne
  have hadvance : s.advance.memories = oldest :: rest := hmemories
  have hturn : r.turn o s text = ⟨.ok oldest, { s.advance with memories := rest },
      [.started s.advance.limit, .memories s.memories, .keystack [], .recalling]⟩ := by
    simp [turn_eq, hkeystack, recallable?, hlimit, State.takeOldest?, hadvance, hmemories,
      Turn.after, Turn.answer]
  refine ⟨oldest, rest, hmemories, ?_⟩
  rw [watchedTurn_of_writable fun _ => by simp [hturn, Event.Writable], hturn]

/-- A turn that recalls a memory tells nothing else that changes anything. -/
theorem not_recalls_of_mem {o : Options} {s : State} {text : List Char} {tracer : Tracer}
    {event : Event} (hmem : event ∈ (r.watchedTurn o s tracer text).events)
    (hloud : ¬ event.Quiet r.script.rules) (hne : event ≠ .recalling) : ¬ r.Recalls s text := by
  intro h
  obtain ⟨oldest, rest, -, hturn⟩ := turn_of_recalls o h tracer
  simp only [hturn, List.mem_cons, List.not_mem_nil, or_false] at hmem
  rcases hmem with rfl | rfl | rfl | rfl
  · exact hloud trivial
  · exact hloud trivial
  · exact hloud nofun
  · exact hne rfl

/-- A turn that recalls no memory takes its course from the state with the next limit. -/
theorem course_turn (o : Options) {s : State} {text : List Char} (h : ¬ r.Recalls s text)
    (tracer : Tracer) : r.Course s.advance (r.watchedTurn o s tracer text).toTurn := by
  rw [watchedTurn, WatchedTurn.tell_cons]
  refine course_tell_quiet (.started _) trivial (fun tracer => ?_) _
  refine course_tell_quiet (.memories _) trivial (fun tracer => ?_) tracer
  split
  · rename_i hkeystack
    refine course_tell_quiet (.keystack []) (by simp [Event.Quiet]) (fun tracer => ?_) tracer
    split
    · rename_i memory next hrecall
      refine absurd ⟨List.isEmpty_iff.mp hkeystack, ?_⟩ h
      unfold recallable? State.takeOldest? at hrecall
      split at hrecall
      · rename_i hlimit
        split at hrecall
        · cases hrecall
        · rename_i memory rest hmemories
          exact ⟨hlimit, fun hnil => by cases hnil.symm.trans hmemories⟩
      · cases hrecall
    · exact course_fallBack _ _ tracer
  · exact course_work o _ _ _ _ tracer

end Repertoire

/-! ### Places in the events of a course -/

/-- An element that a part of a list does not hold stands behind that part. -/
theorem split_of_notMem {α : Type} {block rest before after : List α} {x : α} (hx : x ∉ block)
    (h : block ++ rest = before ++ x :: after) :
    ∃ more, before = block ++ more ∧ rest = more ++ x :: after := by
  rcases List.append_eq_append_iff.mp h with ⟨more, hbefore, hrest⟩ | ⟨more, hblock, hafter⟩
  · exact ⟨more, hbefore, hrest⟩
  · rcases List.cons_eq_append_iff.mp hafter with ⟨rfl, hrest⟩ | ⟨others, rfl, -⟩
    · exact ⟨[], by simp [hblock], hrest⟩
    · exact absurd (by simp [hblock]) hx

namespace Repertoire.Course

variable {r : Repertoire} {s : State} {t : Turn} {before after : List Event}

/-- An attempt to make a memory is told right after the keyword and the sentence that it is made
with. -/
theorem attempt_of_recollected (h : r.Course s t) {keyword : Word} {recollection : Recollection}
    (hsplit : t.events = before ++ .recollected keyword recollection :: after) :
    ∃ earlier words, before = earlier ++ r.attempt keyword words ∧
      r.memoryRule.recollect r.tags keyword words = .ok recollection := by
  induction h generalizing before with
  | answer reply => simp [Turn.answer] at hsplit
  | untold numeral => simp [Turn.fail] at hsplit
  | @tell s t event quiet rest ih =>
    have hevent : .recollected keyword recollection ∉ [event] := by
      rintro (_ | ⟨_, ⟨⟩⟩)
      exact quiet
    obtain ⟨more, rfl, hrest⟩ := split_of_notMem hevent hsplit
    obtain ⟨earlier, words, rfl, hmade⟩ := ih hrest
    exact ⟨event :: earlier, words, rfl, hmade⟩
  | @recollect s t other sentence result made rest ih =>
    have hattempt : .recollected keyword recollection ∉ r.attempt other sentence := by
      simp [attempt]
    rw [Turn.events_after, List.append_assoc] at hsplit
    obtain ⟨more, rfl, hrest⟩ := split_of_notMem hattempt hsplit
    rcases List.cons_eq_append_iff.mp hrest with ⟨rfl, hhead⟩ | ⟨tail, rfl, htail⟩
    · cases hhead
      exact ⟨[], sentence, by simp, made⟩
    · obtain ⟨earlier, words, rfl, hmade⟩ := ih htail
      exact ⟨r.attempt other sentence ++ .recollected other result :: earlier, words, by simp,
        hmade⟩
  | recollectFault failed =>
    have hmem := hsplit ▸ List.mem_append_right before List.mem_cons_self
    simp [Turn.fail, attempt] at hmem
  | @apply s t key rule words application event stored result told rest ih =>
    have hblock : .recollected keyword recollection ∉
        (rule.apply r.tags words s.cycles).events rule words ++ [event] := by
      rcases told with rfl | rfl <;> simp [Applied.events]
    obtain ⟨more, rfl, hrest⟩ := split_of_notMem hblock hsplit
    obtain ⟨earlier, sentence, rfl, hmade⟩ := ih hrest
    exact ⟨_, sentence, (List.append_assoc _ _ _).symm, hmade⟩
  | applyFault stored result =>
    have hmem := hsplit ▸ List.mem_append_right before List.mem_cons_self
    simp [Turn.fail, Applied.events] at hmem

/-- Where a rule is applied the turn has taken a course up to a state. It goes on with what the rule
does in that state, and ends there if the rule fails. -/
theorem course_to_applying (h : r.Course s t) {rule : Rule} {words : List Word}
    (hsplit : t.events = before ++ .applying rule words :: after) :
    ∃ key here rest, r.script.rules.get? key = some rule ∧
      r.Course s (Turn.after before (.answer [] here)) ∧
      .applying rule words :: after =
        (rule.apply r.tags words here.cycles).events rule words ++ rest ∧
      match (rule.apply r.tags words here.cycles).result with
      | .ok application => ∃ event later, rest = event :: later ∧
          (event = .applied rule words application ∨ event = .fellBack application)
      | .error fault => rest = [] ∧ t.reply = .error fault := by
  induction h generalizing before with
  | answer reply => simp [Turn.answer] at hsplit
  | untold numeral => simp [Turn.fail] at hsplit
  | @tell s t event quiet rest ih =>
    have hevent : .applying rule words ∉ [event] := by
      rintro (_ | ⟨_, ⟨⟩⟩)
      exact quiet
    obtain ⟨more, rfl, hrest⟩ := split_of_notMem hevent hsplit
    obtain ⟨key, here, later, hrule, hcourse, hafter⟩ := ih hrest
    refine ⟨key, here, later, hrule, ?_, hafter⟩
    rw [← Turn.after_after]
    exact .tell quiet hcourse
  | @recollect s t keyword sentence recollection made rest ih =>
    have hblock : .applying rule words ∉
        r.attempt keyword sentence ++ [.recollected keyword recollection] := by
      simp [attempt]
    obtain ⟨more, rfl, hrest⟩ := split_of_notMem hblock hsplit
    obtain ⟨key, here, later, hrule, hcourse, hafter⟩ := ih hrest
    refine ⟨key, here, later, hrule, ?_, hafter⟩
    rw [← Turn.after_after]
    exact .recollect made hcourse
  | recollectFault failed =>
    have hmem := hsplit ▸ List.mem_append_right before List.mem_cons_self
    simp [Turn.fail, attempt] at hmem
  | @apply s t key other sentence application event stored result told rest ih =>
    rcases List.cons_eq_append_iff.mp hsplit with ⟨rfl, hhead⟩ | ⟨tail, rfl, htail⟩
    · obtain ⟨hhead, rfl⟩ := List.cons.inj hhead
      cases hhead
      refine ⟨key, s, event :: t.events, stored, .answer _, ?_, ?_⟩
      · simp [Applied.events]
      · rw [result]
        exact ⟨event, _, rfl, told⟩
    · have hblock : .applying rule words ∉
          ((other.apply r.tags sentence s.cycles).events other sentence ++ [event]).tail := by
        rcases told with rfl | rfl <;> simp [Applied.events]
      obtain ⟨more, rfl, hrest⟩ := split_of_notMem hblock htail
      obtain ⟨otherKey, here, later, hrule, hcourse, hafter⟩ := ih hrest
      refine ⟨otherKey, here, later, hrule, ?_, hafter⟩
      have hstep := Course.apply stored result told hcourse
      rw [Turn.after_after] at hstep
      exact hstep
  | @applyFault s key other sentence fault stored result =>
    rcases List.cons_eq_append_iff.mp hsplit with ⟨rfl, hhead⟩ | ⟨tail, rfl, htail⟩
    · obtain ⟨hhead, rfl⟩ := List.cons.inj hhead
      cases hhead
      refine ⟨key, s, [], stored, .answer _, by simp [Applied.events, Turn.fail], ?_⟩
      rw [result]
      exact ⟨rfl, rfl⟩
    · have hmem := htail ▸ List.mem_append_right tail List.mem_cons_self
      simp [Turn.fail] at hmem

end Repertoire.Course

/-! ### The clock -/

def State.SameClock (s next : State) : Prop :=
  next.limit = s.limit ∧ next.turns = s.turns

theorem State.sameClock_keep (s : State) (recollection : Recollection) :
    s.SameClock (s.keep recollection) := by
  cases recollection <;> exact ⟨rfl, rfl⟩

theorem Repertoire.Course.sameClock {r : Repertoire} {s : State} {t : Turn} (h : r.Course s t) :
    s.SameClock t.state := by
  induction h with
  | answer reply => exact ⟨rfl, rfl⟩
  | untold numeral => exact ⟨rfl, rfl⟩
  | tell quiet rest ih => exact ih
  | @recollect s t keyword words recollection made rest ih =>
    obtain ⟨hlimit, hturns⟩ := s.sameClock_keep recollection
    exact ⟨ih.1.trans hlimit, ih.2.trans hturns⟩
  | recollectFault failed => exact ⟨rfl, rfl⟩
  | apply stored result told rest ih => exact ih
  | applyFault stored result => exact ⟨rfl, rfl⟩

/-- A turn is counted and moves the limit on once, whatever comes of it. -/
theorem Session.sameClock_say (s : Session) (text : List Char) :
    s.state.advance.SameClock (s.say text).session.state := by
  by_cases h : s.repertoire.Recalls s.state text
  · obtain ⟨oldest, rest, -, hturn⟩ := Repertoire.turn_of_recalls s.options h s.tracer
    rw [say, hturn]
    exact ⟨rfl, rfl⟩
  · exact (Repertoire.course_turn s.options h s.tracer).sameClock

/-! ### Scripts whose ranks can be written -/

/-- No rank of the script has more digits than may be written. -/
def Script.Writable (s : Script) : Prop :=
  ∀ key rule, s.rules.get? key = some rule → Numerals.Writable rule.precedence

theorem Script.Writable.standing {s : Script} (hs : s.Writable) (keyword : Word) :
    (standing s.rules keyword).Writable := by
  unfold Colloquy.standing
  split
  · trivial
  · rename_i rule hrule
    split
    · exact hs keyword rule hrule
    · trivial

namespace Repertoire

variable {r : Repertoire} {s : State}

theorem Course.writable {t : Turn} (h : r.Course s t) (hs : r.script.Writable) :
    ∀ event ∈ t.events, event.Writable := by
  have hplain {event : Event} (hne : ∀ entries, event ≠ .keystack entries) : event.Writable := by
    cases event with
    | keystack entries => exact absurd rfl (hne entries)
    | _ => trivial
  induction h with
  | answer reply => exact fun _ hevent => nomatch hevent
  | untold numeral => exact fun _ hevent => nomatch hevent
  | @tell s t event quiet rest ih =>
    refine List.forall_mem_cons.mpr ⟨?_, ih⟩
    cases event with
    | keystack entries => exact fun entry hentry => quiet entry hentry ▸ hs.standing entry.1
    | _ => exact hplain nofun
  | @recollect s t keyword words recollection made rest ih =>
    intro event hevent
    rcases List.mem_append.mp hevent with hevent | hevent
    · refine hplain ?_
      rintro entries rfl
      simp [attempt] at hevent
    · exact ih event hevent
  | @recollectFault s keyword words fault failed =>
    intro event hevent
    refine hplain ?_
    rintro entries rfl
    simp [attempt, Turn.fail] at hevent
  | @apply s t key rule words application event stored result told rest ih =>
    intro other hother
    rcases List.mem_append.mp hother with hother | hother
    · rcases List.mem_append.mp hother with hother | hother
      · exact Applied.writable_events rule words (rule.apply r.tags words s.cycles) other hother
      · rw [List.mem_singleton.mp hother]
        rcases told with rfl | rfl <;> trivial
    · exact ih other hother
  | @applyFault s key rule words fault stored result =>
    intro event hevent
    rcases List.mem_append.mp hevent with hevent | hevent
    · exact Applied.writable_events rule words (rule.apply r.tags words s.cycles) event hevent
    · cases hevent

theorem writable_turn (hs : r.script.Writable) (o : Options) (s : State) (text : List Char) :
    ∀ event ∈ (r.turn o s text).events, event.Writable := by
  by_cases hrecalls : r.Recalls s text
  · obtain ⟨oldest, rest, -, hturn⟩ := turn_of_recalls o hrecalls .silent
    rw [turn, hturn]
    simp [Event.Writable]
  · exact (course_turn o hrecalls .silent).writable hs

end Repertoire

/-- A session that nobody watches, or one on such a script, answers and goes on as if nobody watched
it. -/
theorem Session.exists_say_eq {s : Session}
    (h : s.tracer = .silent ∨ s.repertoire.script.Writable) (text : List Char) :
    let turn := s.repertoire.turn s.options s.state text
    ∃ tracer,
      s.say text = ⟨turn.reply, { s with state := turn.state, tracer := tracer }, turn.events⟩ := by
  refine exists_say_eq_turn fun hreport => ?_
  rcases h with hsilent | hs
  · rw [hsilent] at hreport
    cases hreport
  · exact s.repertoire.writable_turn hs s.options s.state text

end Colloquy
