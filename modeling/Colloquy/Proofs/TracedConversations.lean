import Colloquy.Proofs.ConversationSafety

/-!
# Tracers in a conversation

A tracer watches a session and changes nothing of it as long as it can be told of all that happens: the
texts alone then determine the answers, the faults and the states, whichever tracer watches and
whatever becomes of tracers between two turns. A report cannot tell a rank of too many digits, so with one
a turn that meets such a rank fails, which it would not do otherwise. The report of a turn tells that turn
and nothing of the turns before.
-/

namespace Colloquy

open Numerals

inductive Watched where
  | say (text : List Char)
  | replace (tracer : Tracer)
  | clear

def Watched.text? : Watched → Option (List Char)
  | .say text => some text
  | .replace _ | .clear => none

/-- What a turn shows: the answer or the fault, and the state after it. -/
structure Shown where
  reply : Except Fault Word
  state : State

/-! ### Numerals that a turn reads -/

/-- If the turn fails for a numeral, the numeral was to be read. -/
def Turn.Reads (t : Turn) : Prop :=
  ∀ numeral, t.reply = .error (.oversized numeral) → numeral.wasRead = true

theorem Turn.reads_answer (reply : Word) (s : State) : (answer reply s).Reads :=
  fun _ h => nomatch h

theorem Turn.Reads.after {t : Turn} (h : t.Reads) (events : List Event) : (t.after events).Reads :=
  h

namespace Repertoire

variable {r : Repertoire} {o : Options} {s : State}

theorem reads_applying (rule : Rule) (words : List Word) (s : State)
    {next : Application → State → Turn} (hnext : ∀ application s, (next application s).Reads) :
    (r.applying rule words s next).Reads := by
  rw [applying_eq]
  apply Turn.Reads.after
  cases hresult : (rule.apply r.tags words s.cycles).result with
  | ok application => exact hnext application _
  | error fault =>
    rintro numeral ⟨⟩
    exact Rule.wasRead_of_apply hresult

theorem reads_fallBack (words : List Word) (s : State) : (r.fallBack words s).Reads := by
  rw [fallBack_eq_applying]
  refine reads_applying _ _ _ fun application s => Turn.Reads.after ?_ _
  split
  · exact Turn.reads_answer _ s
  · exact (Turn.reads_answer _ s).after _

theorem reads_giveUp (words : List Word) (s : State) : (r.giveUp o words s).Reads := by
  rw [giveUp_eq]
  split
  · exact Turn.reads_answer _ s
  · exact reads_fallBack words s

theorem reads_work (hops : Nat) (keystack words : List Word) (s : State) :
    (r.work o hops keystack words s).Reads := by
  induction hops generalizing keystack words s with
  | zero =>
    cases keystack with
    | nil => exact reads_fallBack words s
    | cons keyword keystack => exact (Turn.reads_answer _ s).after _
  | succ hops ih =>
    cases keystack with
    | nil => exact reads_fallBack words s
    | cons keyword keystack =>
      rw [work_succ_cons]
      apply Turn.Reads.after
      split
      · exact (reads_giveUp words s).after _
      · apply Turn.Reads.after
        split
        · rename_i fault hfault
          rintro numeral ⟨⟩
          exact MemoryRule.wasRead_of_recollect hfault
        · refine (reads_applying _ _ _ fun application s => Turn.Reads.after ?_ _).after _
          split
          · exact Turn.reads_answer _ s
          · exact (reads_giveUp words s).after _
          · exact ih _ _ s
          · exact ih _ _ s

/-- A turn that nobody watches writes no number, so it fails for no number that it cannot write. -/
theorem reads_turn (o : Options) (s : State) (text : List Char) : (r.turn o s text).Reads := by
  rw [turn_eq]
  apply Turn.Reads.after
  split
  · apply Turn.Reads.after
    split
    · exact (Turn.reads_answer _ _).after _
    · exact reads_fallBack _ _
  · exact reads_work _ _ _ _

/-! ### Turns that nobody watches -/

/-- What turns show that are taken one after the other from a state on. -/
def shown (r : Repertoire) (o : Options) (s : State) : List (List Char) → List Shown
  | [] => []
  | text :: texts =>
    let turn := r.turn o s text
    ⟨turn.reply, turn.state⟩ :: r.shown o turn.state texts

/-- A report can tell all of the turns that are taken one after the other from a state on. -/
def Reportable (r : Repertoire) (o : Options) (s : State) : List (List Char) → Prop
  | [] => True
  | text :: texts =>
    let turn := r.turn o s text
    (∀ event ∈ turn.events, event.Writable) ∧ r.Reportable o turn.state texts

/-- A report can tell everything that happens on a script whose ranks can be written. -/
theorem reportable_of_writable (hs : r.script.Writable) (o : Options) (s : State)
    (texts : List (List Char)) : r.Reportable o s texts := by
  induction texts generalizing s with
  | nil => trivial
  | cons text texts ih => exact ⟨r.writable_turn hs o s text, ih _⟩

/-- The rules that every conversation needs are those of the script, so a script has one repertoire. -/
theorem eq_of_script_eq {a b : Repertoire} (h : a.script = b.script) : a = b := by
  obtain ⟨script, tags, noneRule, memoryRule, htags, hnone, hmemory⟩ := a
  obtain ⟨_, tags', noneRule', memoryRule', htags', hnone', hmemory'⟩ := b
  cases h
  obtain rfl : tags = tags' := htags.trans htags'.symm
  obtain rfl : noneRule = noneRule' := Option.some.inj (hnone.symm.trans hnone')
  obtain rfl : memoryRule = memoryRule' := Option.some.inj (hmemory.symm.trans hmemory')
  rfl

end Repertoire

namespace Session

/-! ### Turns that are watched -/

/-- The session with its tracer cleared. A tracer that cannot be cleared stays as it is. -/
def clearTracer (s : Session) : Session :=
  s.watchedBy (s.tracer.cleared?.getD s.tracer)

def shown (s : Session) : List Watched → List Shown
  | [] => []
  | .say text :: deeds =>
    let spoken := s.say text
    ⟨spoken.reply, spoken.session.state⟩ :: spoken.session.shown deeds
  | .replace tracer :: deeds => (s.watchedBy tracer).shown deeds
  | .clear :: deeds => s.clearTracer.shown deeds

/-- What the turns show does not depend on the tracers if a report can tell them all. -/
theorem shown_eq {s : Session} {deeds : List Watched}
    (h : s.repertoire.Reportable s.options s.state (deeds.filterMap Watched.text?)) :
    s.shown deeds = s.repertoire.shown s.options s.state (deeds.filterMap Watched.text?) := by
  induction deeds generalizing s with
  | nil => rfl
  | cons deed deeds ih =>
    cases deed with
    | say text =>
      obtain ⟨hevents, hrest⟩ := h
      obtain ⟨tracer, hsay⟩ := s.exists_say_eq_turn fun _ => hevents
      rw [shown, hsay]
      exact congrArg (_ :: ·) (ih hrest)
    | replace tracer => exact ih h
    | clear => exact ih h

theorem shown_of_silent {s : Session} (h : s.tracer = .silent) (texts : List (List Char)) :
    s.shown (texts.map .say) = s.repertoire.shown s.options s.state texts := by
  induction texts generalizing s with
  | nil => rfl
  | cons text texts ih =>
    have hnext := tracer_say_of_silent h text
    obtain ⟨tracer, hsay⟩ := s.exists_say_eq (.inl h) text
    rw [hsay] at hnext
    rw [List.map_cons, shown, hsay]
    exact congrArg (_ :: ·) (ih hnext)

theorem isReport_say (s : Session) (text : List Char) :
    (s.say text).session.tracer.isReport = s.tracer.isReport :=
  (Watches.turn s.repertoire s.options s.state s.tracer text).sees.isReport.trans
    s.tracer.isReport_begun

/-- A turn leaves the report of what it has told, whatever has been reported before. -/
theorem exists_report_of_say {s : Session} {earlier : String} (h : s.tracer = .report earlier)
    (text : List Char) :
    ∃ lines, (s.say text).events.mapM TurnTrace.eventText = .ok lines ∧
      (s.say text).session.tracer = .report (String.join lines) := by
  have hsees := (Watches.turn s.repertoire s.options s.state s.tracer text).sees
  have hbegun : s.tracer.begun = .report "" := by
    rw [h]
    rfl
  rw [hbegun] at hsees
  obtain ⟨lines, hlines, hlast⟩ := hsees.report
  rw [String.empty_append] at hlast
  exact ⟨lines, hlines, hlast⟩

/-- If turns with a report show what they show when nobody watches them, the report can tell them. -/
theorem reportable_of_shown {s : Session} (hreport : s.tracer.isReport = true)
    {texts : List (List Char)}
    (h : s.shown (texts.map .say) = s.repertoire.shown s.options s.state texts) :
    s.repertoire.Reportable s.options s.state texts := by
  induction texts generalizing s with
  | nil => trivial
  | cons text texts ih =>
    obtain ⟨hhead, htail⟩ := List.cons.inj h
    have hreply := congrArg Shown.reply hhead
    by_cases hevents : ∀ event ∈ (s.repertoire.turn s.options s.state text).events, event.Writable
    · have hnext := (s.isReport_say text).trans hreport
      obtain ⟨tracer, hsay⟩ := s.exists_say_eq_turn fun _ => hevents
      rw [hsay] at htail hnext
      exact ⟨hevents, ih hnext htail⟩
    · obtain ⟨numeral, hfault, hunread⟩ := Repertoire.watchedTurn_of_not_writable hreport hevents
      have hread := s.repertoire.reads_turn s.options s.state text numeral
        (hreply.symm.trans hfault)
      rw [hunread] at hread
      cases hread

theorem start_of_start {script : Script} {options : Options} {tracer : Tracer} {s : Session}
    (h : start script options tracer = .ok s) (other : Tracer) :
    start script options other = .ok (s.watchedBy other) := by
  unfold start at h ⊢
  split at h
  · cases h
  · split at h <;> cases h
    rename_i hhops
    exact if_neg hhops

/-- Two sessions on one script with the same options that are told the same texts show the same answers,
faults and states, whatever tracers watch them and however these are replaced or cleared between two
turns, exactly if a report can tell all of their turns. It can if all ranks of the script can be written.
A turn that meets a rank which cannot be written fails with a report, and only with one. The report
that a turn leaves, also if it fails, is determined by the script, the options, the state before the turn
and its text: it tells the events of the turn up to its end. -/
theorem tracers_take_no_part_iff {script : Script} {options : Options} {tracer other : Tracer}
    {first second : Session} (hfirst : start script options tracer = .ok first)
    (hsecond : start script options other = .ok second) (texts : List (List Char)) :
    ((∀ deeds others, deeds.filterMap Watched.text? = texts →
        others.filterMap Watched.text? = texts → first.shown deeds = second.shown others) ↔
      first.repertoire.Reportable options State.start texts) ∧
    (script.Writable → first.repertoire.Reportable options State.start texts) ∧
    (∀ (now : Session) (text : List Char),
      let turn := now.repertoire.turn now.options now.state text
      let told := now.tracer.isReport = true → ∀ event ∈ turn.events, event.Writable
      (told → (now.say text).reply = turn.reply ∧ (now.say text).session.state = turn.state) ∧
      (¬ told → ∃ numeral, (now.say text).reply = .error (.oversized numeral) ∧
        numeral.wasRead = false)) ∧
    ∃ trace : State → List Char → String, ∀ now : Session,
      now.repertoire.script = script → now.options = options →
      ∀ earlier, now.tracer = .report earlier → ∀ text,
        (now.say text).session.tracer = .report (trace now.state text) ∧
          ∃ lines, (now.say text).events.mapM TurnTrace.eventText = .ok lines ∧
            trace now.state text = String.join lines := by
  obtain ⟨hscript, hoptions, hstate, -⟩ := parts_of_start hfirst
  obtain rfl : first.watchedBy other = second :=
    Except.ok.inj ((start_of_start hfirst other).symm.trans hsecond)
  have hsays : (texts.map Watched.say).filterMap Watched.text? = texts := by
    simp [List.filterMap_map, Watched.text?, Function.comp_def]
  refine ⟨⟨fun hsame => ?_, fun hreportable deeds others hdeeds hothers => ?_⟩, fun hs => ?_,
    fun now text => ?_, ?_⟩
  · -- One of the two is watched by a report from now on, and the other one by nobody.
    have hshown : (first.watchedBy (.report "")).shown (texts.map .say) =
        (first.watchedBy .silent).shown (texts.map .say) :=
      hsame (.replace (.report "") :: texts.map .say) (.replace .silent :: texts.map .say) hsays hsays
    rw [shown_of_silent (s := first.watchedBy .silent) rfl] at hshown
    rw [← hoptions, ← hstate]
    exact reportable_of_shown (s := first.watchedBy (.report "")) rfl hshown
  · rw [← hoptions, ← hstate] at hreportable
    subst hdeeds
    rw [shown_eq hreportable, shown_eq (hothers ▸ hreportable), hothers]
    rfl
  · exact Repertoire.reportable_of_writable (hscript ▸ hs) _ _ _
  · intro turn told
    constructor
    · intro htold
      obtain ⟨last, hsay⟩ := now.exists_say_eq_turn htold
      rw [hsay]
      exact ⟨rfl, rfl⟩
    · intro huntold
      obtain ⟨hreport, hevents⟩ := Classical.not_imp.mp huntold
      exact Repertoire.watchedTurn_of_not_writable hreport hevents
  · refine ⟨fun state text =>
      (first.repertoire.watchedTurn options state (.report "") text).tracer.text?.getD "", ?_⟩
    intro now hnow hnowOptions earlier htracer text
    have hsame : now.repertoire = first.repertoire :=
      Repertoire.eq_of_script_eq (hnow.trans hscript.symm)
    -- A turn begins with an empty report, whatever the report has been.
    have hbegun : (now.say text).session.tracer =
        (first.repertoire.watchedTurn options now.state (.report "") text).tracer := by
      rw [say, htracer, hsame, hnowOptions]
      rfl
    obtain ⟨lines, hlines, hreport⟩ := exists_report_of_say htracer text
    simp only [← hbegun, hreport]
    exact ⟨rfl, lines, hlines, rfl⟩

theorem answers_under_two_tracers :
    ∃ script first second,
      Script.read "(HI) (NONE ((0) (OH))) (MY ((0) (OK)))
        (MEMORY MY (0 = A) (0 = B) (0 = C) (0 = D))".toList = .ok script ∧
      start script ⟨true, defaultMaxHops⟩ (.report "") = .ok first ∧
      start script ⟨true, defaultMaxHops⟩ (.sentences "") = .ok second ∧
      first.shown [.say "MY DOG".toList, .clear, .say "HM".toList] =
        second.shown [.say "MY DOG".toList, .replace .silent, .say "HM".toList] := by
  have hbegins : ∃ script first,
      Script.read "(HI) (NONE ((0) (OH))) (MY ((0) (OK)))
        (MEMORY MY (0 = A) (0 = B) (0 = C) (0 = D))".toList = .ok script ∧
      start script ⟨true, defaultMaxHops⟩ (.report "") = .ok first :=
    exists_start_of_isSome (.report "") (by decide +kernel) (by decide)
  obtain ⟨script, first, hread, hfirst⟩ := hbegins
  have hsecond := start_of_start hfirst (.sentences "")
  have hall := tracers_take_no_part_iff hfirst hsecond ["MY DOG".toList, "HM".toList]
  have hreportable := hall.2.1 (Script.loaded_of_read hread).writable
  exact ⟨script, first, _, hread, hfirst, hsecond, hall.1.mpr hreportable _ _ rfl rfl⟩

end Session

def anyWords : Decomposition :=
  ⟨[['0']], [.wildcard 0], rfl⟩

/-- A script whose only keyword has a rank of too many digits. -/
def Script.highlyRanked : Script :=
  ⟨[], WordMap.ofList
    [(['K'], ⟨['K'], none, Nat.pow 10 digitLimit, [],
        .transform [⟨anyWords, [.template [['O', 'K']]]⟩] none⟩),
      (noneKey, ⟨noneKey, none, 0, [], .transform [⟨anyWords, [.template [['O', 'H']]]⟩] none⟩),
      (memoryKey, ⟨['K'], none, 0, [], .memory (List.replicate 4 ⟨anyWords, [['A']]⟩)⟩)]⟩

/-- A session on such a script fails at its keyword with a report, and answers without one. -/
theorem Session.report_of_high_rank_fails :
    ∃ first second, start Script.highlyRanked ⟨true, defaultMaxHops⟩ (.report "") = .ok first ∧
      start Script.highlyRanked ⟨true, defaultMaxHops⟩ .silent = .ok second ∧
      first.shown [.say ['K']] ≠ second.shown [.say ['K']] := by
  refine (exists_start_of_holds (p := fun first =>
    ∃ event ∈ (first.repertoire.turn first.options first.state ['K']).events,
      event = .keystack [(['K'], .ranked (Nat.pow 10 digitLimit))]) ?_).imp fun first h =>
    ⟨first.watchedBy .silent, h.1, start_of_start h.1 .silent, fun hsame => ?_⟩
  · decide +kernel
  · have hreport : first.tracer.isReport = true := by
      rw [(parts_of_start h.1).2.2.2]
      rfl
    have hunwatched : first.shown ([['K']].map .say) =
        first.repertoire.shown first.options first.state [['K']] :=
      hsame.trans (shown_of_silent (s := first.watchedBy .silent) rfl [['K']])
    obtain ⟨hevents, -⟩ := reportable_of_shown hreport hunwatched
    obtain ⟨_, hevent, rfl⟩ := of_decide_eq_true h.2
    have hrank : Writable (Nat.pow 10 digitLimit) := hevents _ hevent _ List.mem_cons_self
    have hlt := writable_iff.mp hrank
    rw [Int.natAbs_natCast] at hlt
    exact Nat.lt_irrefl _ hlt

end Colloquy
