import Colloquy.Proofs.SessionHistory
import Colloquy.Proofs.TurnCourse

/-!
# Memories over a conversation

Memories are recalled in the order in which they were made, and none is lost or repeated: all that were
made are those recalled and those that still wait. A turn recalls one exactly when it holds no
keyword, the limit has come round to four and one waits; it then does nothing else. Every memory that
a turn makes comes from the pair that the last word of the sentence at hand chooses.
-/

namespace Colloquy

/-- The sentence leaves the memory by the template of the pair that the hash of its last word
chooses. -/
def MemoryRule.Leaves (m : MemoryRule) (tags : Tags) (words template : List Word)
    (memory : Word) : Prop :=
  ∃ datum pair parts filled, CardCode.pack (words.getLast?.getD []) = .ok datum ∧
    m.pairs[MiddleSquare.hash datum hashBits]? = some pair ∧ pair.template = template ∧
    pair.decomposition.apply tags words = some parts ∧ reassemble parts template = .ok filled ∧
    Words.join filled = memory

/-- The pair chosen is that at the place that the hash of the last word of the sentence gives. -/
theorem MemoryRule.pair_of_choose {m : MemoryRule} {words : List Word} {place : Fin m.pairs.length}
    (h : m.choose words = .ok place) :
    ∃ datum, CardCode.pack (words.getLast?.getD []) = .ok datum ∧
      m.pairs[MiddleSquare.hash datum hashBits]? = some (m.pairs.get place) := by
  unfold choose at h
  split at h
  · cases h
  · rename_i datum hdatum
    simp only at h
    split at h
    · rename_i hlt
      cases h
      exact ⟨datum, hdatum, List.getElem?_eq_getElem hlt⟩
    · cases h

/-- A memory is made only when the keyword of the rule is worked on. -/
theorem MemoryRule.leaves_of_recollect {m : MemoryRule} {tags : Tags} {keyword memory : Word}
    {words : List Word} (h : m.recollect tags keyword words = .ok (.text memory)) :
    keyword = m.keyword ∧ ∃ template, m.template? tags keyword words = some template ∧
      m.Leaves tags words template memory := by
  unfold recollect at h
  split at h
  · rename_i hkeyword
    split at h
    · cases h
    · cases h
    · rename_i place hchoose
      obtain ⟨datum, hdatum, hpair⟩ := pair_of_choose hchoose
      split at h
      · cases h
      · rename_i parts hparts
        split at h
        · cases h
        · rename_i filled hfilled
          cases h
          refine ⟨hkeyword, m.pairs[place].template, ?_,
            datum, _, parts, filled, hdatum, hpair, rfl, hparts, hfilled, rfl⟩
          rw [template?, if_pos hkeyword, hchoose]
          exact congrArg (Option.map fun _ => m.pairs[place].template) hparts
  · cases h

/-! ### One turn -/

theorem Event.memory?_of_quiet {rules : WordMap Rule} {event : Event} (quiet : event.Quiet rules) :
    event.memory? = none := by
  cases event with
  | recollected keyword recollection => exact quiet.elim
  | _ => rfl

namespace Repertoire

variable {r : Repertoire} {s : State} {t : Turn}

theorem memory?_attempt (r : Repertoire) (keyword : Word) (words : List Word) :
    (r.attempt keyword words).filterMap Event.memory? = [] := by
  simp only [List.filterMap_eq_nil_iff, attempt, List.mem_cons, List.mem_map]
  rintro event (rfl | ⟨template, -, rfl⟩) <;> rfl

theorem memory?_events (rule : Rule) (words : List Word) (applied : Applied) :
    (applied.events rule words).filterMap Event.memory? = [] := by
  simp only [List.filterMap_eq_nil_iff, Applied.events, List.mem_cons, List.mem_append,
    List.mem_map]
  rintro event (rfl | ⟨selection, -, rfl⟩ | ⟨template, -, rfl⟩) <;> rfl

namespace Course

/-- A turn that recalls nothing adds the memories that it makes to those that wait. -/
theorem memories_eq (h : r.Course s t) :
    t.state.memories = s.memories ++ t.events.filterMap Event.memory? := by
  induction h with
  | answer reply => simp [Turn.answer]
  | untold numeral => simp [Turn.fail]
  | @tell s t event quiet rest ih =>
    simp [ih, Event.memory?_of_quiet quiet]
  | @recollect s t keyword words recollection made rest ih =>
    rw [Turn.state_after, ih, Turn.events_after, List.filterMap_append, List.filterMap_append,
      memory?_attempt]
    cases recollection <;> simp [State.keep, State.remember, Event.memory?]
  | recollectFault failed => simp [Turn.fail, memory?_attempt]
  | apply stored result told rest ih =>
    rw [Turn.state_after, ih, Turn.events_after, List.filterMap_append, List.filterMap_append,
      memory?_events]
    rcases told with rfl | rfl <;> simp [Event.memory?]
  | applyFault stored result => simp [Turn.fail, memory?_events]

theorem recalling_notMem (h : r.Course s t) : .recalling ∉ t.events := by
  induction h with
  | answer reply => simp [Turn.answer]
  | untold numeral => simp [Turn.fail]
  | @tell s t event quiet rest ih =>
    have hevent : event ≠ .recalling := by
      rintro rfl
      exact quiet
    simp [ih, hevent.symm]
  | recollect made rest ih => simp [ih, attempt]
  | recollectFault failed => simp [Turn.fail, attempt]
  | apply stored result told rest ih =>
    rcases told with rfl | rfl <;> simp [ih, Applied.events]
  | applyFault stored result => simp [Turn.fail, Applied.events]

end Course

end Repertoire

namespace Session

/-- A turn that recalls a memory answers with the oldest one, makes none and moves no pointer. -/
theorem say_of_recalls {s : Session} {text : List Char} (h : s.repertoire.Recalls s.state text) :
    ∃ oldest rest, s.state.memories = oldest :: rest ∧ (s.say text).reply = .ok oldest ∧
      (s.say text).recalled = [oldest] ∧ (s.say text).session.state.memories = rest ∧
      (s.say text).made = [] ∧ (s.say text).session.state.cycles = s.state.cycles := by
  obtain ⟨oldest, rest, hmemories, hturn⟩ := Repertoire.turn_of_recalls s.options h s.tracer
  refine ⟨oldest, rest, hmemories, ?_⟩
  simp [say, hturn, Spoken.recalled, Spoken.made, Event.memory?, State.advance, Except.toOption]

/-- Any other turn recalls none, and what it makes waits behind what has waited before. -/
theorem say_of_not_recalls {s : Session} {text : List Char}
    (h : ¬ s.repertoire.Recalls s.state text) :
    (s.say text).recalled = [] ∧
      (s.say text).session.state.memories = s.state.memories ++ (s.say text).made := by
  have hcourse := Repertoire.course_turn s.options h s.tracer
  refine ⟨if_neg ?_, hcourse.memories_eq⟩
  exact hcourse.recalling_notMem

/-- Each memory of a turn is made from a keyword that has been worked on and its sentence. -/
theorem leaves_of_recollected {s : Session} {text : List Char} {before after : List Event}
    {keyword memory : Word}
    (h : (s.say text).events = before ++ .recollected keyword (.text memory) :: after) :
    keyword = s.repertoire.memoryRule.keyword ∧ ∃ earlier words template,
      before = earlier ++ [.working keyword words, .reassembling template] ∧
      s.repertoire.memoryRule.Leaves s.repertoire.tags words template memory := by
  have hmem : .recollected keyword (.text memory) ∈ (s.say text).events :=
    h ▸ List.mem_append_right before List.mem_cons_self
  have hcourse :=
    Repertoire.course_turn s.options (Repertoire.not_recalls_of_mem hmem id nofun) s.tracer
  obtain ⟨earlier, words, rfl, hmade⟩ := hcourse.attempt_of_recollected h
  obtain ⟨hkeyword, template, htemplate, hleaves⟩ := MemoryRule.leaves_of_recollect hmade
  refine ⟨hkeyword, earlier, words, template, ?_, hleaves⟩
  rw [Repertoire.attempt, htemplate]
  rfl

end Session

/-! ### Whole runs -/

/-- What holds of a chronicle after every deed: the limit goes with the number of texts, and the
memories made are those recalled and those that wait. -/
structure Chronicle.Orderly (c : Chronicle) : Prop where
  limit : c.session.state.limit = c.said.length % State.limitCycle + 1
  made_eq : c.made = c.recalled ++ c.session.state.memories

namespace Chronicle

theorem orderly_start {script : Script} {options : Options} {tracer : Tracer} {session : Session}
    (h : Session.start script options tracer = .ok session) : (start session).Orderly := by
  obtain ⟨-, hstate⟩ := Session.start_eq_ok h
  constructor
  · simp [start, hstate, State.start]
  · simp [start, hstate, State.start]

theorem Orderly.say {c : Chronicle} (h : c.Orderly) (text : List Char) :
    (c.next (.say text)).Orderly := by
  constructor
  · have hclock := c.session.sameClock_say text
    have hlimit := h.limit
    have hsaid : (c.next (.say text)).said.length = c.said.length + 1 := List.length_append
    rw [hsaid]
    refine hclock.1.trans ?_
    simp only [State.advance, State.limitCycle] at hlimit ⊢
    omega
  · change c.made ++ (c.session.say text).made =
      c.recalled ++ (c.session.say text).recalled ++ (c.session.say text).session.state.memories
    rw [h.made_eq]
    by_cases hrecalls : c.session.repertoire.Recalls c.session.state text
    · obtain ⟨oldest, rest, hmemories, -, hrecalled, hrest, hmade, -⟩ :=
        Session.say_of_recalls hrecalls
      simp [hmemories, hrecalled, hrest, hmade]
    · obtain ⟨hrecalled, hmemories⟩ := Session.say_of_not_recalls hrecalls
      simp [hrecalled, hmemories]

theorem Orderly.next {c : Chronicle} (h : c.Orderly) (deed : Deed) : (c.next deed).Orderly := by
  cases deed with
  | say text => exact h.say text
  | remember memory =>
    refine ⟨h.limit, ?_⟩
    simp [Chronicle.next, Session.remember, State.remember, h.made_eq]
  | takeMemory =>
    simp only [Chronicle.next, Session.takeMemory, State.takeOldest?]
    cases hmemories : c.session.state.memories with
    | nil => exact ⟨h.limit, by simp [h.made_eq, hmemories]⟩
    | cons oldest rest => exact ⟨h.limit, by simp [h.made_eq, hmemories]⟩
  | resetCycles => exact ⟨h.limit, h.made_eq⟩
  | choose options => exact ⟨h.limit, h.made_eq⟩
  | trace tracer => exact ⟨h.limit, h.made_eq⟩

/-- Whether the next turn recalls a memory can be told from the number of texts so far. -/
theorem Orderly.recalls_iff {c : Chronicle} (h : c.Orderly) (text : List Char) :
    c.session.repertoire.Recalls c.session.state text ↔
      (c.said.length + 1) % 4 = 3 ∧ (c.session.scan (CardCode.normalize text)).keystack = [] ∧
        c.session.state.memories ≠ [] := by
  have hlimit : c.session.state.advance.limit = State.recallLimit ↔
      (c.said.length + 1) % 4 = 3 := by
    simp only [State.advance, h.limit, State.limitCycle, State.recallLimit]
    omega
  rw [Repertoire.Recalls, hlimit, and_left_comm]
  rfl

/-- In every conversation the memories made are, in order, those recalled and those that still wait.
A turn recalls one exactly when its number leaves three by four, its text holds no keyword and one
waits: then it answers with the oldest, makes none and moves no pointer. Every memory that a turn
makes is left by the sentence at hand when the keyword of the memory rule is worked on. -/
theorem memories_first_in_first_out {script : Script} {options : Options} {tracer : Tracer}
    {session : Session} (hstart : Session.start script options tracer = .ok session)
    (deeds : List Deed) :
    let past := (start session).after deeds
    past.made = past.recalled ++ past.session.state.memories ∧
      ∀ text,
        let spoken := past.session.say text
        let turn := past.said.length + 1
        let recalls := turn % 4 = 3 ∧
          (past.session.scan (CardCode.normalize text)).keystack = [] ∧
          past.session.state.memories ≠ []
        spoken.session.state.limit = turn % 4 + 1 ∧
        (recalls → ∃ oldest rest, past.session.state.memories = oldest :: rest ∧
          spoken.reply = .ok oldest ∧ spoken.recalled = [oldest] ∧
          spoken.session.state.memories = rest ∧ spoken.made = [] ∧
          spoken.session.state.cycles = past.session.state.cycles) ∧
        (¬ recalls → spoken.recalled = [] ∧
          spoken.session.state.memories = past.session.state.memories ++ spoken.made) ∧
        ∃ m, script.memoryRule? = some m ∧ ∀ before keyword memory after,
          spoken.events = before ++ .recollected keyword (.text memory) :: after →
          keyword = m.keyword ∧ ∃ earlier words template,
            before = earlier ++ [.working keyword words, .reassembling template] ∧
            m.Leaves script.tags words template memory := by
  intro past
  have horderly : past.Orderly :=
    after_induction (fun _ deed h => h.next deed) (orderly_start hstart) deeds
  have hscript : past.session.repertoire.script = script :=
    (congrArg _ (repertoire_after _ _)).trans (Session.start_eq_ok hstart).1
  refine ⟨horderly.made_eq, fun text => ?_⟩
  intro spoken turn recalls
  have hrecalls : past.session.repertoire.Recalls past.session.state text ↔ recalls :=
    horderly.recalls_iff text
  have hlimit := (horderly.say text).limit
  have hturn : (past.next (.say text)).said.length = turn := List.length_append
  rw [hturn] at hlimit
  refine ⟨hlimit, fun h => Session.say_of_recalls (hrecalls.mpr h),
    fun h => Session.say_of_not_recalls fun hr => h (hrecalls.mp hr), ?_⟩
  subst hscript
  refine ⟨_, past.session.repertoire.memoryRule_eq, fun before keyword memory after h => ?_⟩
  rw [← past.session.repertoire.tags_eq]
  exact Session.leaves_of_recollected h

theorem memories_of_three_texts :
    ∃ script session,
      Script.read "(HI) (NONE ((0) (OH))) (MY ((0) (OK)))
        (MEMORY MY (0 = A) (0 = B) (0 = C) (0 = D))".toList = .ok script ∧
      Session.start script ⟨true, defaultMaxHops⟩ .silent = .ok session ∧
      let past := (start session).after
        [.say "MY DOG".toList, .remember "THE SEA".toList, .say "HM".toList, .say "HM".toList]
      past.recalled = ["C".toList] ∧ past.session.state.memories = ["THE SEA".toList] := by
  let deeds : List Deed :=
    [.say "MY DOG".toList, .remember "THE SEA".toList, .say "HM".toList, .say "HM".toList]
  refine (Session.exists_start_of_any
    (p := fun session => ((start session).after deeds).made = ["C".toList, "THE SEA".toList] ∧
      ((start session).after deeds).recalled = ["C".toList]) ?_).imp fun script =>
    Exists.imp fun session h => ⟨h.1, h.2.1, ?_⟩
  · decide +kernel
  · obtain ⟨hmade, hrecalled⟩ := of_decide_eq_true h.2.2
    have hall := (memories_first_in_first_out h.2.1 deeds).1
    rw [hmade, hrecalled] at hall
    exact ⟨hrecalled, (List.cons.inj hall).2.symm⟩

end Chronicle

end Colloquy
