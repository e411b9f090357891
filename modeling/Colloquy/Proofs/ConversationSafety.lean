import Colloquy.Proofs.RuleSafety
import Colloquy.Proofs.SessionHistory
import Colloquy.Proofs.TurnCourse

/-!
# Conversations on loaded scripts

Every turn of a conversation on a loaded script gives an answer, unless it fills a template in which
a numeral is too long. It makes no difference whether the conversation is watched: the ranks of a loaded
script have been read, so they can be written, too. Whatever comes of a turn, the limit agrees with the count of turns and the
pointers of all patterns stand at reassemblies, so the next turn meets the same conditions.
-/

namespace Colloquy

open Numerals ScriptGrammar

/-- A turn that leaves the pointers in range and that fails only for a numeral in a template that it
fills. -/
structure Turn.Safe (rules : WordMap Rule) (t : Turn) : Prop where
  pointers : PointersInRange rules t.state.cycles
  reply : ∀ fault, t.reply = .error fault → ∃ numeral template,
    fault = .oversized numeral ∧ .reassembling template ∈ t.events ∧ HoldsOversized template numeral

namespace Turn

variable {rules : WordMap Rule} {s : State} {t : Turn}

theorem Safe.after (h : t.Safe rules) (events : List Event) : (t.after events).Safe rules := by
  refine ⟨h.pointers, fun fault hfault => ?_⟩
  obtain ⟨numeral, template, rfl, hevent, hholds⟩ := h.reply fault hfault
  exact ⟨numeral, template, rfl, List.mem_append_right _ hevent, hholds⟩

theorem safe_answer (reply : Word) (h : PointersInRange rules s.cycles) :
    (answer reply s).Safe rules :=
  ⟨h, fun fault hfault => by cases hfault⟩

theorem safe_fail {numeral : Oversized} {template : List Word} {events : List Event}
    (h : PointersInRange rules s.cycles) (hevent : .reassembling template ∈ events)
    (hholds : HoldsOversized template numeral) :
    (Turn.after events (fail (.oversized numeral) s)).Safe rules := by
  refine ⟨h, fun fault hfault => ?_⟩
  cases hfault
  exact ⟨numeral, template, rfl, List.mem_append_left _ hevent, hholds⟩

end Turn

theorem State.cycles_keep (s : State) (recollection : Recollection) :
    (s.keep recollection).cycles = s.cycles := by
  cases recollection <;> rfl

namespace Repertoire

variable {r : Repertoire} (hr : r.script.Steady)
include hr

/-- A rule of the script is applied safely if what follows is safe. -/
theorem safe_applying {key : Word} {rule : Rule} (hrule : r.script.rules.get? key = some rule)
    {s : State} (hs : PointersInRange r.script.rules s.cycles) (words : List Word)
    {next : Application → State → Turn}
    (hnext : ∀ application following, PointersInRange r.script.rules following.cycles →
      (next application following).Safe r.script.rules) :
    (r.applying rule words s next).Safe r.script.rules := by
  obtain ⟨hpointers, hresult⟩ := hr.safe_apply hs hrule r.tags words
  rw [applying_eq]
  generalize rule.apply r.tags words s.cycles = applied at hpointers hresult
  obtain ⟨result, cycles, selection, template⟩ := applied
  cases result with
  | ok application => exact (hnext application _ hpointers).after _
  | error fault =>
    obtain ⟨numeral, filled, rfl, rfl, hholds⟩ := hresult fault rfl
    refine Turn.safe_fail hpointers ?_ hholds
    exact List.mem_cons_of_mem _ (List.mem_append_right _ List.mem_cons_self)

theorem safe_fallBack {s : State} (hs : PointersInRange r.script.rules s.cycles)
    (words : List Word) : (r.fallBack words s).Safe r.script.rules := by
  rw [fallBack_eq_applying]
  refine safe_applying hr r.noneRule_eq hs words fun application following hfollowing => ?_
  apply Turn.Safe.after
  split
  · exact Turn.safe_answer _ hfollowing
  · exact (Turn.safe_answer _ hfollowing).after _

theorem safe_giveUp (o : Options) {s : State} (hs : PointersInRange r.script.rules s.cycles)
    (words : List Word) : (r.giveUp o words s).Safe r.script.rules := by
  rw [giveUp_eq]
  split
  · exact Turn.safe_answer _ hs
  · exact safe_fallBack hr hs words

/-- Every keyword is worked on safely, whatever follows it on the keystack. -/
theorem safe_work (o : Options) (hops : Nat) (keystack words : List Word) {s : State}
    (hs : PointersInRange r.script.rules s.cycles) :
    (r.work o hops keystack words s).Safe r.script.rules := by
  induction hops generalizing keystack words s with
  | zero =>
    cases keystack with
    | nil => exact safe_fallBack hr hs words
    | cons keyword keystack => exact (Turn.safe_answer _ hs).after _
  | succ hops ih =>
    cases keystack with
    | nil => exact safe_fallBack hr hs words
    | cons keyword keystack =>
      rw [work_succ_cons]
      apply Turn.Safe.after
      split
      · exact (safe_giveUp hr o hs words).after _
      · rename_i rule hrule
        split
        · rename_i fault hfault
          obtain ⟨numeral, template, rfl, htemplate, hholds⟩ :=
            MemoryRule.recollect_eq_error (hr.pairs r.memoryRule_eq) hfault
          refine Turn.safe_fail hs ?_ hholds
          rw [htemplate]
          exact List.mem_cons_self
        · rename_i recollection hrecollection
          rw [← s.cycles_keep recollection] at hs
          refine Turn.Safe.after (Turn.Safe.after ?_ _) _
          refine safe_applying hr hrule hs words fun application following hfollowing => ?_
          apply Turn.Safe.after
          split
          · exact Turn.safe_answer _ hfollowing
          · exact (safe_giveUp hr o hfollowing words).after _
          · exact ih _ _ hfollowing
          · exact ih _ _ hfollowing

theorem safe_turn (o : Options) {s : State} (hs : PointersInRange r.script.rules s.cycles)
    (text : List Char) : (r.turn o s text).Safe r.script.rules := by
  have hadvance : PointersInRange r.script.rules s.advance.cycles := hs
  rw [turn_eq]
  apply Turn.Safe.after
  split
  · apply Turn.Safe.after
    split
    · rename_i memory next hrecall
      have hcycles : next.cycles = s.advance.cycles := by
        unfold recallable? State.takeOldest? at hrecall
        split at hrecall
        · split at hrecall
          · cases hrecall
          · cases hrecall
            rfl
        · cases hrecall
      rw [← hcycles] at hadvance
      exact (Turn.safe_answer memory hadvance).after _
    · exact safe_fallBack hr hadvance _
  · exact safe_work hr o _ _ _ hadvance

end Repertoire

/-! ### Sessions -/

/-- A rank that has been read from a text can be written. -/
theorem Script.Loaded.writable {s : Script} (hs : s.Loaded) : s.Writable := by
  intro key rule hrule
  have hloaded := hs.loadedRule hrule
  generalize key = stored at hloaded
  cases hloaded with
  | memory symbol lexical four values =>
    have hzero : Numerals.Writable 0 := by decide
    exact hzero
  | keyword symbol not_memory sound made =>
    obtain ⟨body, -, rfl⟩ := ruleOf_eq_ok.mp made
    exact sound.precedence

namespace Session

def after (session : Session) (said : List (List Char)) : Session :=
  said.foldl (fun now text => (now.say text).session) session

theorem turns_after (session : Session) (said : List (List Char)) :
    (session.after said).state.turns = session.state.turns + said.length := by
  induction said generalizing session with
  | nil => rfl
  | cons text said ih =>
    have hstep : session.after (text :: said) = (session.say text).session.after said := rfl
    have hturns : (session.say text).session.state.turns = session.state.turns + 1 :=
      (session.sameClock_say text).2
    rw [hstep, ih, hturns, List.length_cons]
    omega

/-- What holds of a session before the first turn and after every turn. Nobody watches it, or the tracer
can be told of all ranks. -/
structure Sound (script : Script) (session : Session) : Prop where
  script_eq : session.repertoire.script = script
  undisturbed : session.tracer = .silent ∨ script.Writable
  limit : session.state.limit = session.state.turns % State.limitCycle + 1
  pointers : PointersInRange script.rules session.state.cycles

theorem sound_start {script : Script} (hs : script.Steady) {options : Options} {tracer : Tracer}
    (htracer : tracer = .silent ∨ script.Writable) {session : Session}
    (h : Session.start script options tracer = .ok session) : session.Sound script := by
  obtain ⟨rfl, -, hstate, rfl⟩ := parts_of_start h
  refine ⟨rfl, htracer, ?_, ?_⟩
  · rw [hstate]
    rfl
  · rw [hstate]
    exact hs.pointersInRange_start

/-- A turn keeps a session sound, whether it gives an answer or not. -/
theorem Sound.say {script : Script} (hs : script.Steady) {session : Session}
    (h : session.Sound script) (text : List Char) : (session.say text).session.Sound script := by
  obtain ⟨rfl, hundisturbed, hlimit, hpointers⟩ := h
  obtain ⟨hclock, hturns⟩ := session.sameClock_say text
  refine ⟨rfl, hundisturbed.imp_left (tracer_say_of_silent · text), ?_, ?_⟩
  · have hnext : session.state.advance.limit =
        session.state.advance.turns % State.limitCycle + 1 := by
      simp only [State.advance, State.limitCycle] at hlimit ⊢
      omega
    rw [← hclock, ← hturns] at hnext
    exact hnext
  · obtain ⟨tracer, hsay⟩ := session.exists_say_eq hundisturbed text
    rw [hsay]
    exact (Repertoire.safe_turn hs session.options hpointers text).pointers

theorem Sound.after {script : Script} (hs : script.Steady) {session : Session}
    (h : session.Sound script) (said : List (List Char)) : (session.after said).Sound script := by
  induction said generalizing session with
  | nil => exact h
  | cons text said ih => exact ih (h.say hs text)

/-- Every turn of a conversation on a loaded script gives an answer or fails for a numeral of more
digits than may be read, in a template that it fills. After every turn, also one that has failed,
the limit agrees with the count of turns, and the pointers of all patterns stand at one of their
reassemblies. -/
theorem conversation_safe {text : List Char} {script : Script} {options : Options} {tracer : Tracer}
    {session : Session} (hread : Script.read text = .ok script)
    (hstart : Session.start script options tracer = .ok session) (said : List (List Char)) :
    (session.after said).state.turns = said.length ∧
      (session.after said).state.limit = said.length % 4 + 1 ∧
      (∀ key rule ts link, script.rules.get? key = some rule → rule.body = .transform ts link →
        ∀ (index : Nat) (t : Transformation), ts[index]? = some t →
          0 ≤ (session.after said).state.cycles.peek (rule.keyword, index) ∧
            (session.after said).state.cycles.peek (rule.keyword, index) <
              t.reassemblies.length) ∧
      ∀ next, (∃ reply, ((session.after said).say next).reply = .ok reply) ∨
        ∃ numeral template, ((session.after said).say next).reply = .error (.oversized numeral) ∧
          .reassembling template ∈ ((session.after said).say next).events ∧
          ∃ term ∈ template, isNumeral term = true ∧ digitLimit < term.length ∧
            term.length = numeral.digits := by
  have hloaded := Script.loaded_of_read hread
  have hsound := sound_start hloaded.steady (.inr hloaded.writable) hstart
  obtain ⟨hscript, -, hlimit, hpointers⟩ := hsound.after hloaded.steady said
  have hturns := session.turns_after said
  rw [(start_eq_ok hstart).2, State.start, Nat.zero_add] at hturns
  rw [hturns] at hlimit
  refine ⟨hturns, hlimit, hpointers, fun next => ?_⟩
  generalize session.after said = now at hscript hpointers
  subst hscript
  have hreply := (Repertoire.safe_turn hloaded.steady now.options hpointers next).reply
  obtain ⟨_, hsay⟩ := now.exists_say_eq (.inr hloaded.writable) next
  rw [hsay]
  cases hanswer : (now.repertoire.turn now.options now.state next).reply with
  | ok reply => exact .inl ⟨reply, rfl⟩
  | error fault =>
    obtain ⟨numeral, template, rfl, hevent, -, term, hterm, hnumeral, hlength⟩ :=
      hreply fault hanswer
    have hexceeds := numeral.exceeds
    exact .inr ⟨numeral, template, rfl, hevent, term, hterm, hnumeral, by omega, hlength⟩

theorem limit_after_two_texts :
    ∃ script session,
      Script.read "(HI) (NONE ((0) (OH))) (MY) (MEMORY MY (0 = A) (0 = B) (0 = C) (0 = D))".toList
        = .ok script ∧
      Session.start script ⟨true, defaultMaxHops⟩ .silent = .ok session ∧
      (session.after ["MY DOG".toList, "HM".toList]).state.limit = 3 := by
  refine (Session.exists_start_of_isSome .silent ?_ (by decide)).imp fun script => Exists.imp
    fun session h => ⟨h.1, h.2, (conversation_safe h.1 h.2 _).2.1⟩
  decide +kernel

end Session

end Colloquy
