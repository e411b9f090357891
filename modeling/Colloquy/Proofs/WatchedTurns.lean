import Colloquy.Proofs.UnwatchedTurns

/-!
# What a tracer makes of a turn

A turn with a tracer is the turn without one if the tracer can be told of every event. If it cannot, the
turn ends where it fails and has told what it would have told up to there. Only a report can fail, and
only at a keystack with a rank of too many digits, so a turn that tells no such rank is the same
whatever watches it.
-/

namespace Colloquy

open Numerals

/-! ### What can be written -/

/-- The text is written exactly under the condition; if it is not, some number was to be written. -/
inductive Numerals.Writes {α : Type} (condition : Prop) : Except Oversized α → Prop where
  | written (holds : condition) (a : α) : Writes condition (.ok a)
  | refused (fails : ¬ condition) (numeral : Oversized) (unread : numeral.wasRead = false) :
    Writes condition (.error numeral)

namespace Numerals.Writes

variable {α β : Type} {condition : Prop}

theorem map {x : Except Oversized α} (h : Writes condition x) (f : α → β) :
    Writes condition (x.map f) := by
  cases h with
  | written holds a => exact .written holds (f a)
  | refused fails numeral unread => exact .refused fails numeral unread

theorem mapM {p : α → Prop} {f : α → Except Oversized β} (h : ∀ a, Writes (p a) (f a))
    (list : List α) : Writes (∀ a ∈ list, p a) (list.mapM f) := by
  induction list with
  | nil => exact .written nofun []
  | cons a list ih =>
    rw [List.mapM_cons]
    simp only [List.forall_mem_cons]
    have ha := h a
    generalize f a = first at ha ⊢
    generalize list.mapM f = others at ih ⊢
    cases ha with
    | refused fails numeral unread => exact .refused (fun hall => fails hall.1) numeral unread
    | written holds b =>
      cases ih with
      | refused fails numeral unread => exact .refused (fun hall => fails hall.2) numeral unread
      | written rest bs => exact .written ⟨holds, rest⟩ (b :: bs)

end Numerals.Writes

theorem Numerals.writes_text (n : Int) : Writes (Writable n) (text n) := by
  unfold text
  split
  · exact .written ‹_› _
  · exact .refused ‹_› _ rfl

def Standing.Writable : Standing → Prop
  | .unknown | .inert => True
  | .ranked rank => Numerals.Writable rank

instance (standing : Standing) : Decidable standing.Writable :=
  match standing with
  | .unknown | .inert => isTrue trivial
  | .ranked rank => inferInstanceAs (Decidable (Numerals.Writable rank))

/-- A report can tell the event: all ranks in it can be written. -/
def Event.Writable : Event → Prop
  | .keystack entries => ∀ entry ∈ entries, entry.2.Writable
  | _ => True

theorem TurnTrace.writes_entryText (entry : Word × Standing) :
    Writes entry.2.Writable (entryText entry) := by
  refine Writes.map ?_ _
  cases entry.2 with
  | unknown => exact .written trivial _
  | inert => exact .written trivial _
  | ranked rank => exact writes_text rank

theorem TurnTrace.writes_eventText (event : Event) : Writes event.Writable (eventText event) := by
  cases event with
  | keystack entries =>
    cases entries with
    | nil => exact .written nofun _
    | cons entry entries => exact (Writes.mapM writes_entryText (entry :: entries)).map _
  | recollected keyword recollection => cases recollection <;> exact .written trivial _
  | _ => exact .written trivial _

namespace Tracer

def isReport : Tracer → Bool
  | .report _ => true
  | .silent | .sentences _ => false

/-- Only a report can fail to be told of an event. -/
theorem writes_see (event : Event) (tracer : Tracer) :
    Writes (tracer.isReport = true → event.Writable) (tracer.see event) := by
  cases tracer with
  | silent => exact .written nofun _
  | sentences text => exact .written nofun _
  | report text =>
    simp only [isReport, forall_const]
    exact (TurnTrace.writes_eventText event).map _

theorem isReport_of_see {event : Event} {tracer next : Tracer} (h : tracer.see event = .ok next) :
    next.isReport = tracer.isReport := by
  cases tracer with
  | silent =>
    cases h
    rfl
  | sentences text =>
    cases h
    rfl
  | report text =>
    rw [see] at h
    cases htext : TurnTrace.eventText event with
    | error numeral =>
      rw [htext] at h
      cases h
    | ok lines =>
      rw [htext] at h
      cases h
      rfl

theorem writable_of_see {event : Event} {tracer next : Tracer} (h : tracer.see event = .ok next)
    (hreport : tracer.isReport = true) : event.Writable := by
  have hwrites := tracer.writes_see event
  rw [h] at hwrites
  cases hwrites with
  | written holds => exact holds hreport

theorem unwritable_of_see {event : Event} {tracer : Tracer} {numeral : Oversized}
    (h : tracer.see event = .error numeral) :
    tracer.isReport = true ∧ ¬ event.Writable ∧ numeral.wasRead = false := by
  have hwrites := tracer.writes_see event
  rw [h] at hwrites
  cases hwrites with
  | refused fails _ unread =>
    obtain ⟨hreport, hevent⟩ := Classical.not_imp.mp fails
    exact ⟨hreport, hevent, unread⟩

/-- The tracer becomes the other one when it is told of the events. -/
inductive Sees : Tracer → List Event → Tracer → Prop where
  | nil (tracer : Tracer) : Sees tracer [] tracer
  | cons {tracer next last : Tracer} {event : Event} {events : List Event}
      (first : tracer.see event = .ok next) (rest : Sees next events last) :
      Sees tracer (event :: events) last

theorem Sees.isReport {tracer last : Tracer} {events : List Event} (h : tracer.Sees events last) :
    last.isReport = tracer.isReport := by
  induction h with
  | nil tracer => rfl
  | cons first rest ih => exact ih.trans (isReport_of_see first)

theorem Sees.writable {tracer last : Tracer} {events : List Event} (h : tracer.Sees events last)
    (hreport : tracer.isReport = true) : ∀ event ∈ events, event.Writable := by
  induction h with
  | nil tracer => exact fun _ hevent => nomatch hevent
  | cons first rest ih =>
    exact List.forall_mem_cons.mpr
      ⟨writable_of_see first hreport, ih ((isReport_of_see first).trans hreport)⟩

/-- A report grows by what each event adds to it. -/
theorem Sees.report {text : String} {last : Tracer} {events : List Event}
    (h : Sees (.report text) events last) :
    ∃ lines, events.mapM TurnTrace.eventText = .ok lines ∧
      last = .report (text ++ String.join lines) := by
  induction events generalizing text with
  | nil =>
    cases h
    exact ⟨[], rfl, by simp⟩
  | cons event events ih =>
    cases h with
    | cons first rest =>
      rw [see] at first
      cases hadded : TurnTrace.eventText event with
      | error numeral =>
        rw [hadded] at first
        cases first
      | ok added =>
        rw [hadded] at first
        cases first
        obtain ⟨lines, hlines, rfl⟩ := ih rest
        refine ⟨added :: lines, ?_, ?_⟩
        · rw [List.mapM_cons, hadded, hlines]
          rfl
        · rw [String.join_cons, String.append_assoc]

end Tracer

/-! ### Watched and unwatched turns -/

/-- The second turn is what the tracer makes of the first: it is told of everything and changes nothing, or
the turn ends at the event that it cannot be told of. -/
inductive Watches (tracer : Tracer) (t : Turn) : WatchedTurn → Prop where
  | through {last : Tracer} (seen : tracer.Sees t.events last) : Watches tracer t ⟨t, last⟩
  | cut {before after : List Event} {event : Event} {last : Tracer} {numeral : Oversized}
      (s : State) (split : t.events = before ++ event :: after) (seen : tracer.Sees before last)
      (failed : last.see event = .error numeral) :
      Watches tracer t ((WatchedTurn.fail (.oversized numeral) s last).after before)

namespace Watches

variable {tracer : Tracer} {t : Turn}

theorem see {next : Tracer} {event : Event} {w : WatchedTurn} (hsee : tracer.see event = .ok next)
    (h : Watches next t w) : Watches tracer (t.after [event]) (w.after [event]) := by
  cases h with
  | through seen => exact .through (.cons hsee seen)
  | cut s split seen failed =>
    rw [WatchedTurn.after_after]
    exact .cut s (congrArg (event :: ·) split) (.cons hsee seen) failed

theorem tell {next : Tracer → WatchedTurn} (h : ∀ tracer, Watches tracer t (next tracer))
    (events : List Event) (s : State) (tracer : Tracer) :
    Watches tracer (t.after events) (WatchedTurn.tell events s tracer next) := by
  induction events generalizing tracer with
  | nil => exact h tracer
  | cons event events ih =>
    rw [WatchedTurn.tell]
    cases hsee : tracer.see event with
    | error numeral => exact .cut s rfl (.nil tracer) hsee
    | ok told => exact see hsee (ih told)

theorem answer (reply : Word) (s : State) (tracer : Tracer) :
    Watches tracer (.answer reply s) (.answer reply s tracer) :=
  .through (.nil tracer)

theorem fail (fault : Fault) (s : State) (tracer : Tracer) :
    Watches tracer (.fail fault s) (.fail fault s tracer) :=
  .through (.nil tracer)

variable {r : Repertoire}

theorem applying (rule : Rule) (words : List Word) (s : State) {next : Application → State → Turn}
    {watched : Application → State → Tracer → WatchedTurn}
    (h : ∀ application s tracer, Watches tracer (next application s) (watched application s tracer))
    (tracer : Tracer) :
    Watches tracer (r.applying rule words s next)
      (r.watchedApplying rule words s tracer watched) := by
  rw [Repertoire.applying_eq]
  refine .tell (fun tracer => ?_) _ _ _
  cases (rule.apply r.tags words s.cycles).result with
  | error fault => exact .fail fault _ tracer
  | ok application => exact h application _ tracer

theorem fallBack (words : List Word) (s : State) (tracer : Tracer) :
    Watches tracer (r.fallBack words s) (r.watchedFallBack words s tracer) := by
  rw [Repertoire.fallBack_eq_applying]
  refine .applying _ _ _ (fun application s tracer => .tell (fun tracer => ?_) _ _ _) tracer
  cases application.outcome with
  | complete reply => exact .answer _ s tracer
  | _ => exact .tell (.answer _ s) _ _ _

theorem giveUp (o : Options) (words : List Word) (s : State) (tracer : Tracer) :
    Watches tracer (r.giveUp o words s) (r.watchedGiveUp o words s tracer) := by
  rw [Repertoire.giveUp_eq, Repertoire.watchedGiveUp]
  split
  · exact .answer _ s tracer
  · exact .fallBack words s tracer

theorem work (o : Options) (hops : Nat) (keystack words : List Word) (s : State) (tracer : Tracer) :
    Watches tracer (r.work o hops keystack words s)
      (r.watchedWork o hops keystack words s tracer) := by
  induction hops generalizing keystack words s tracer with
  | zero =>
    cases keystack with
    | nil => exact .fallBack words s tracer
    | cons keyword keystack => exact .tell (.answer _ s) _ _ _
  | succ hops ih =>
    cases keystack with
    | nil => exact .fallBack words s tracer
    | cons keyword keystack =>
      rw [Repertoire.work_succ_cons, Repertoire.watchedWork]
      refine .tell (fun tracer => ?_) _ _ _
      cases r.script.rules.get? keyword with
      | none => exact .tell (.giveUp o words s) _ _ _
      | some rule =>
        refine .tell (fun tracer => ?_) _ _ _
        cases r.memoryRule.recollect r.tags keyword words with
        | error fault => exact .fail fault s tracer
        | ok recollection =>
          refine .tell (.applying _ _ _ fun application s tracer => ?_) _ _ _
          refine .tell (fun tracer => ?_) _ _ _
          cases application.outcome with
          | complete reply => exact .answer _ s tracer
          | inapplicable => exact .tell (.giveUp o words s) _ _ _
          | newKey => exact ih keystack words s tracer
          | link target rewritten => exact ih _ _ s tracer

theorem turn (r : Repertoire) (o : Options) (s : State) (tracer : Tracer) (text : List Char) :
    Watches tracer.begun (r.turn o s text) (r.watchedTurn o s tracer text) := by
  rw [Repertoire.turn_eq, Repertoire.watchedTurn]
  refine .tell (fun tracer => ?_) _ _ _
  split
  · refine .tell (fun tracer => ?_) _ _ _
    cases Repertoire.recallable? s.advance with
    | none => exact .fallBack _ _ tracer
    | some recalled => exact .tell (.answer _ _) _ _ _
  · exact .work o _ _ _ _ tracer

end Watches

/-! ### Events that can be told -/

theorem Tracer.exists_see_of_writable {event : Event} (h : event.Writable) (tracer : Tracer) :
    ∃ told, tracer.see event = .ok told := by
  cases hsee : tracer.see event with
  | ok told => exact ⟨told, rfl⟩
  | error numeral => exact absurd h (unwritable_of_see hsee).2.1

theorem Applied.writable_events (rule : Rule) (words : List Word) (applied : Applied) :
    ∀ event ∈ applied.events rule words, event.Writable := by
  intro event h
  rcases List.mem_cons.mp h with rfl | h
  · trivial
  · rcases List.mem_append.mp h with h | h <;> obtain ⟨_, -, rfl⟩ := List.mem_map.mp h <;> trivial

/-- The tracer when it has been told of the events, if it can be told of them. -/
def Tracer.told (tracer : Tracer) (events : List Event) : Tracer :=
  events.foldl (fun now event => (now.see event).toOption.getD now) tracer

@[simp] theorem Tracer.told_append (tracer : Tracer) (events more : List Event) :
    tracer.told (events ++ more) = (tracer.told events).told more :=
  List.foldl_append

/-- Events with no rank of too many digits are told to every tracer, and the turn goes on. -/
theorem WatchedTurn.tell_of_writable {events : List Event} (h : ∀ event ∈ events, event.Writable)
    (s : State) (tracer : Tracer) (next : Tracer → WatchedTurn) :
    tell events s tracer next = (next (tracer.told events)).after events := by
  induction events generalizing tracer with
  | nil => exact (after_nil _).symm
  | cons event events ih =>
    obtain ⟨hevent, hevents⟩ := List.forall_mem_cons.mp h
    obtain ⟨told, hsee⟩ := tracer.exists_see_of_writable hevent
    have htold : tracer.told (event :: events) = told.told events := by
      rw [Tracer.told, List.foldl_cons, hsee]
      rfl
    rw [tell_of_see hsee, ih hevents, after_after, List.singleton_append, htold]

theorem WatchedTurn.tell_plain {event : Event} (h : ∀ entries, event ≠ .keystack entries)
    (s : State) (tracer : Tracer) (next : Tracer → WatchedTurn) :
    tell [event] s tracer next = (next (tracer.told [event])).after [event] := by
  refine tell_of_writable (List.forall_mem_singleton.mpr ?_) s tracer next
  cases event with
  | keystack entries => exact absurd rfl (h entries)
  | _ => trivial

/-- A rule is applied in the same way whatever watches, up to what follows on it. -/
theorem Repertoire.watchedApplying_eq (r : Repertoire) (rule : Rule) (words : List Word) (s : State)
    (tracer : Tracer) (next : Application → State → Tracer → WatchedTurn) :
    let applied := rule.apply r.tags words s.cycles
    let here := { s with cycles := applied.cycles }
    let told := tracer.told (applied.events rule words)
    r.watchedApplying rule words s tracer next =
      (match applied.result with
        | .error fault => WatchedTurn.fail fault here told
        | .ok application => next application here told).after (applied.events rule words) :=
  WatchedTurn.tell_of_writable (Applied.writable_events rule words _) _ _ _

/-- No tracer fails where the NONE rule answers. -/
theorem Repertoire.toTurn_watchedFallBack (r : Repertoire) (words : List Word) (s : State)
    (tracer : Tracer) : (r.watchedFallBack words s tracer).toTurn = r.fallBack words s := by
  rw [watchedFallBack, watchedApplying_eq, fallBack_eq_applying, applying_eq, WatchedTurn.toTurn_after]
  cases (r.noneRule.apply r.tags words s.cycles).result with
  | error fault => rfl
  | ok application =>
    simp only [WatchedTurn.tell_plain, ne_eq, reduceCtorEq, not_false_eq_true, implies_true,
      WatchedTurn.toTurn_after]
    cases application.outcome <;> rfl

/-- The trace that a turn leaves is that of the events which it has told. -/
theorem Watches.sees {tracer : Tracer} {t : Turn} {w : WatchedTurn} (h : Watches tracer t w) :
    tracer.Sees w.events w.tracer := by
  cases h with
  | through seen => exact seen
  | cut s split seen failed =>
    rw [WatchedTurn.toTurn_after, Turn.events_after]
    exact (List.append_nil _).symm ▸ seen

theorem Tracer.isReport_begun (tracer : Tracer) : tracer.begun.isReport = tracer.isReport := by
  cases tracer <;> rfl

theorem Tracer.Sees.silent {events : List Event} {last : Tracer} (h : Sees .silent events last) :
    last = .silent := by
  induction events with
  | nil =>
    cases h
    rfl
  | cons event events ih =>
    cases h with
    | cons first rest =>
      cases first
      exact ih rest

namespace Repertoire

variable {r : Repertoire} {o : Options} {s : State} {tracer : Tracer} {text : List Char}

/-- A turn is the same whatever watches it, unless a report would have to tell a rank of too many
digits. -/
theorem watchedTurn_of_writable
    (h : tracer.isReport = true → ∀ event ∈ (r.turn o s text).events, event.Writable) :
    (r.watchedTurn o s tracer text).toTurn = r.turn o s text := by
  have hwatches := Watches.turn r o s tracer text
  generalize r.watchedTurn o s tracer text = watched at hwatches ⊢
  cases hwatches with
  | through seen => rfl
  | cut here split seen failed =>
    obtain ⟨hreport, hevent, -⟩ := Tracer.unwritable_of_see failed
    rw [seen.isReport, tracer.isReport_begun] at hreport
    exact absurd (h hreport _ (split ▸ List.mem_append_right _ List.mem_cons_self)) hevent

/-- If a report would have to tell such a rank, the turn fails there. -/
theorem watchedTurn_of_not_writable (hreport : tracer.isReport = true)
    (h : ¬ ∀ event ∈ (r.turn o s text).events, event.Writable) :
    ∃ numeral, (r.watchedTurn o s tracer text).reply = .error (.oversized numeral) ∧
      numeral.wasRead = false := by
  have hwatches := Watches.turn r o s tracer text
  generalize r.watchedTurn o s tracer text = watched at hwatches ⊢
  rw [← tracer.isReport_begun] at hreport
  cases hwatches with
  | through seen => exact absurd (seen.writable hreport) h
  | cut here split seen failed => exact ⟨_, rfl, (Tracer.unwritable_of_see failed).2.2⟩

end Repertoire

theorem Session.tracer_say_of_silent {s : Session} (h : s.tracer = .silent) (text : List Char) :
    (s.say text).session.tracer = .silent := by
  have hsees := (Watches.turn s.repertoire s.options s.state s.tracer text).sees
  rw [h] at hsees
  rw [say, h]
  exact hsees.silent

/-- The answer and what becomes of a session are those of the turn that nobody watches, unless a report
would have to tell a rank of too many digits. -/
theorem Session.exists_say_eq_turn {s : Session} {text : List Char}
    (h : s.tracer.isReport = true →
      ∀ event ∈ (s.repertoire.turn s.options s.state text).events, event.Writable) :
    let turn := s.repertoire.turn s.options s.state text
    ∃ tracer,
      s.say text = ⟨turn.reply, { s with state := turn.state, tracer := tracer }, turn.events⟩ :=
  ⟨_, by rw [say, ← Repertoire.watchedTurn_of_writable h]⟩

end Colloquy
