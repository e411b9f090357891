import Colloquy.Proofs.ConversationSafety
import Colloquy.Proofs.SessionHistory
import Colloquy.Proofs.TurnCourse

/-!
# The rotation of reassemblies

Each pattern of a rule uses its reassemblies in the order in which they are declared, round and round:
the number of times that the pattern has been selected since the pointers last stood at zero tells
which one comes next, whatever has been done in between. Only a selection of the pattern moves its
pointer, also in a turn that fails.
-/

namespace Colloquy

/-- The place of the first pattern of a rule that matches a sentence. -/
def Rule.patternFor? (tags : Tags) (words : List Word) (rule : Rule) : Option Nat :=
  match rule.body with
  | .transform ts _ => (firstMatch tags words 0 ts).map (·.1)
  | _ => none

/-- The event applies the rule to a sentence of which the pattern at the index is the first that
matches. -/
def Event.selects (tags : Tags) (rule : Rule) (index : Nat) : Event → Bool
  | .applying other words => other = rule ∧ other.patternFor? tags words = some index
  | _ => false

/-- What a turn tells of a sentence after a reassembly has been taken for it: what the reassembly has
come to, or nothing more if it fails. -/
inductive UseTold (rule : Rule) (words : List Word) (used : Decomposition × Reassembly) :
    Except Numerals.Oversized Outcome → Except Fault Word → List Event → Prop where
  | applied {outcome : Outcome} {reply : Except Fault Word} (rest : List Event) :
      UseTold rule words used (.ok outcome) reply (.applied rule words ⟨outcome, some used⟩ :: rest)
  | fellBack {outcome : Outcome} {reply : Except Fault Word} (rest : List Event) :
      UseTold rule words used (.ok outcome) reply (.fellBack ⟨outcome, some used⟩ :: rest)
  | failed (numeral : Numerals.Oversized) :
      UseTold rule words used (.error numeral) (.error (.oversized numeral)) []

/-! ### One application -/

theorem natCast_succ_fmod (n size : Nat) :
    (((n % size : Nat) : Int) + 1).fmod size = (((n + 1) % size : Nat) : Int) := by
  rw [← Int.natCast_one, ← Int.natCast_add, ← Int.ofNat_fmod, Nat.mod_add_mod]

namespace Rule

variable {tags : Tags} {words : List Word} {rule : Rule} {cycles : Cycles}

/-- Applying a rule moves no pointer but that of the pattern that it selects. -/
theorem peek_apply_of_ne {key : CycleKey}
    (h : ∀ index : Nat, rule.patternFor? tags words = some index → (rule.keyword, (index : Int)) ≠ key) :
    (rule.apply tags words cycles).cycles.peek key = cycles.peek key := by
  unfold Rule.apply
  split
  · rfl
  · rfl
  · rfl
  · rfl
  · split
    · rfl
    · split <;> rfl
  · rename_i ts link hbody
    split
    · rename_i index t parts hmatch
      have hne := h index (by simp [patternFor?, hbody, hmatch])
      rw [applyTransformation]
      split
      · rfl
      · rename_i moved hmoved
        rw [Cycles.peek_advance? hmoved, if_neg hne.symm]
    · split <;> rfl

variable {ts : List Transformation} {link : Option Word} {index : Nat} {t : Transformation}

theorem exists_parts_of_patternFor? (hbody : rule.body = .transform ts link)
    (ht : ts[index]? = some t) (h : rule.patternFor? tags words = some index) :
    ∃ parts, firstMatch tags words 0 ts = some (index, t, parts) := by
  rw [patternFor?, hbody] at h
  obtain ⟨⟨place, u, parts⟩, hmatch, rfl⟩ := Option.map_eq_some_iff.mp h
  obtain ⟨other, hplace, hu⟩ := firstMatch_eq_some hmatch
  rw [Nat.zero_add] at hplace
  subst hplace
  cases ht.symm.trans hu
  exact ⟨parts, hmatch⟩

/-- A rule that selects a pattern for the `n`-th time takes the reassembly of number `n` modulo their
count, carries it out and moves the pointer on by one. -/
theorem apply_of_patternFor? (hbody : rule.body = .transform ts link) (ht : ts[index]? = some t)
    (hne : t.reassemblies ≠ []) (h : rule.patternFor? tags words = some index) {n : Nat}
    (hpeek : cycles.peek (rule.keyword, (index : Int)) = ((n % t.reassemblies.length : Nat) : Int)) :
    ∃ parts reassembly, t.decomposition.apply tags words = some parts ∧
      t.reassemblies[n % t.reassemblies.length]? = some reassembly ∧
      (rule.apply tags words cycles).selection =
        some ⟨(rule.keyword, index), ((n % t.reassemblies.length : Nat) : Int)⟩ ∧
      (rule.apply tags words cycles).template = reassembly.template? ∧
      (rule.apply tags words cycles).result =
        (match reassembly.resolve parts with
          | .error e => .error (.oversized e)
          | .ok outcome => .ok ⟨outcome, some (t.decomposition, reassembly)⟩) ∧
      (rule.apply tags words cycles).cycles.peek (rule.keyword, (index : Int)) =
        (((n + 1) % t.reassemblies.length : Nat) : Int) := by
  obtain ⟨parts, hmatch⟩ := exists_parts_of_patternFor? hbody ht h
  have hpos := List.length_pos_iff.mpr hne
  have hlt : n % t.reassemblies.length < t.reassemblies.length := Nat.mod_lt _ hpos
  have hsize : (t.reassemblies.length : Int) ≠ 0 := by omega
  obtain ⟨moved, hmoved⟩ := cycles.advance?_isSome (rule.keyword, (index : Int)) hsize
  have hget := List.getElem?_eq_getElem hlt
  have hitem : itemAt? t.reassemblies ((n % t.reassemblies.length : Nat) : Int) =
      some t.reassemblies[n % t.reassemblies.length] := by
    rw [itemAt?, if_pos (Int.natCast_nonneg _), Int.toNat_natCast, hget]
  have happly : rule.apply tags words cycles =
      applyTransformation (rule.keyword, (index : Int)) t parts cycles := by
    simp only [Rule.apply, hbody, hmatch]
  have hnext : moved.peek (rule.keyword, (index : Int)) =
      (((n + 1) % t.reassemblies.length : Nat) : Int) := by
    rw [Cycles.peek_advance? hmoved, if_pos rfl, hpeek, natCast_succ_fmod]
  refine ⟨parts, _, apply_of_firstMatch hmatch, hget, ?_⟩
  rw [happly, applyTransformation, hmoved, hpeek]
  dsimp only
  rw [hitem]
  exact ⟨rfl, rfl, rfl, hnext⟩

end Rule

/-! ### One turn -/

namespace Repertoire.Course

variable {r : Repertoire} {s : State} {turn : Turn} {key : Word} {rule : Rule}
  {ts : List Transformation} {link : Option Word} {index : Nat} {t : Transformation}

theorem countP_attempt (keyword : Word) (words : List Word) :
    (r.attempt keyword words).countP (Event.selects r.tags rule index) = 0 := by
  rw [List.countP_eq_zero]
  simp only [attempt, List.mem_cons, List.mem_map]
  rintro event (rfl | ⟨template, -, rfl⟩) <;> exact Bool.false_ne_true

theorem countP_events (other : Rule) (words : List Word) (applied : Applied) :
    (applied.events other words).countP (Event.selects r.tags rule index) =
      if other = rule ∧ other.patternFor? r.tags words = some index then 1 else 0 := by
  have hrest : ((applied.selection.toList.map Event.selected ++
      applied.template.toList.map Event.reassembling).countP
        (Event.selects r.tags rule index)) = 0 := by
    rw [List.countP_eq_zero]
    simp only [List.mem_append, List.mem_map]
    rintro event (⟨selection, -, rfl⟩ | ⟨template, -, rfl⟩) <;> exact Bool.false_ne_true
  rw [Applied.events, List.countP_cons, hrest, Nat.zero_add]
  simp [Event.selects]

/-- Applying a rule moves the pointer of a pattern on if it selects that pattern, and only then. -/
theorem peek_apply (hr : r.script.Loaded) (hrule : r.script.rules.get? key = some rule)
    (hbody : rule.body = .transform ts link) (ht : ts[index]? = some t) {otherKey : Word}
    {other : Rule} (hother : r.script.rules.get? otherKey = some other) (words : List Word)
    {cycles : Cycles} {n : Nat}
    (hpeek : cycles.peek (rule.keyword, (index : Int)) = ((n % t.reassemblies.length : Nat) : Int)) :
    (other.apply r.tags words cycles).cycles.peek (rule.keyword, (index : Int)) =
      (((n + ((other.apply r.tags words cycles).events other words).countP
        (Event.selects r.tags rule index)) % t.reassemblies.length : Nat) : Int) := by
  rw [countP_events]
  split
  · rename_i hselects
    obtain ⟨rfl, hselects⟩ := hselects
    have hne := (hr.loadedRule hrule).reassemblies_ne_nil hbody t (List.mem_of_getElem? ht)
    obtain ⟨parts, reassembly, -, -, -, -, -, hmoved⟩ :=
      Rule.apply_of_patternFor? hbody ht hne hselects hpeek
    exact hmoved
  · rename_i hselects
    rw [Nat.add_zero, ← hpeek]
    refine Rule.peek_apply_of_ne fun place hplace hkeys => hselects ?_
    -- A keyword has one rule only, so a rule that moves this pointer is the rule itself.
    obtain ⟨hkeyword, hindex⟩ := Prod.mk.inj hkeys
    obtain rfl : place = index := by omega
    obtain ⟨others, otherLink, hotherBody⟩ : ∃ others otherLink,
        other.body = .transform others otherLink := by
      unfold Rule.patternFor? at hplace
      split at hplace
      · exact ⟨_, _, ‹_›⟩
      · cases hplace
    rw [hr.keyword_eq hother hotherBody, hr.keyword_eq hrule hbody] at hkeyword
    rw [hkeyword, hrule] at hother
    cases hother
    exact ⟨rfl, hplace⟩

/-- Over the course of a turn the pointer of a pattern moves on by one for each selection of the
pattern. -/
theorem peek_eq (h : r.Course s turn) (hr : r.script.Loaded)
    (hrule : r.script.rules.get? key = some rule) (hbody : rule.body = .transform ts link)
    (ht : ts[index]? = some t) {n : Nat}
    (hpeek : s.cycles.peek (rule.keyword, (index : Int)) = ((n % t.reassemblies.length : Nat) : Int)) :
    turn.state.cycles.peek (rule.keyword, (index : Int)) =
      (((n + turn.events.countP (Event.selects r.tags rule index)) % t.reassemblies.length : Nat) :
        Int) := by
  induction h generalizing n with
  | answer reply => exact hpeek
  | untold numeral => exact hpeek
  | @tell s turn event quiet rest ih =>
    have hevent : Event.selects r.tags rule index event = false := by
      cases event with
      | applying other words => exact quiet.elim
      | _ => rfl
    rw [Turn.events_after, List.countP_append, List.countP_singleton, hevent]
    simpa using ih hpeek
  | @recollect s turn keyword words recollection made rest ih =>
    rw [← State.cycles_keep s recollection] at hpeek
    rw [Turn.events_after, List.countP_append, List.countP_append, countP_attempt,
      List.countP_singleton]
    simpa [Event.selects] using ih hpeek
  | recollectFault failed =>
    rw [Turn.events_after, List.countP_append, countP_attempt]
    exact hpeek
  | @apply s turn otherKey other words application event stored result told rest ih =>
    have hevent : Event.selects r.tags rule index event = false := by
      rcases told with rfl | rfl <;> rfl
    have hnext := ih (peek_apply hr hrule hbody ht stored words hpeek)
    rw [Turn.events_after, List.countP_append, List.countP_append, List.countP_singleton, hevent]
    simpa [Nat.add_assoc] using hnext
  | applyFault stored result =>
    rw [Turn.events_after, List.countP_append]
    exact peek_apply hr hrule hbody ht stored _ hpeek

end Repertoire.Course

/-! ### Whole runs -/

section

variable {script : Script} {key : Word} {rule : Rule} {ts : List Transformation}
  {link : Option Word} {index : Nat} {t : Transformation}

/-- Where a turn applies the rule and the pattern is selected for the `n`-th time, the reassembly of
number `n` modulo their count is used. -/
theorem Session.used_of_applying {s : Session} (hscript : s.repertoire.script = script)
    (hs : script.Loaded) (hrule : script.rules.get? key = some rule)
    (hbody : rule.body = .transform ts link) (ht : ts[index]? = some t) {n : Nat}
    (hpeek : s.state.cycles.peek (rule.keyword, (index : Int)) =
      ((n % t.reassemblies.length : Nat) : Int))
    {text : List Char} {before after : List Event} {words : List Word}
    (hsplit : (s.say text).events = before ++ .applying rule words :: after)
    (hselects : rule.patternFor? script.tags words = some index) :
    let place := (n + before.countP (Event.selects script.tags rule index)) % t.reassemblies.length
    ∃ parts reassembly rest, t.decomposition.apply script.tags words = some parts ∧
      t.reassemblies[place]? = some reassembly ∧
      after = .selected ⟨(rule.keyword, index), (place : Int)⟩ ::
        (reassembly.template?.toList.map .reassembling ++ rest) ∧
      UseTold rule words (t.decomposition, reassembly) (reassembly.resolve parts)
        (s.say text).reply rest := by
  intro place
  subst hscript
  have hne := (hs.loadedRule hrule).reassemblies_ne_nil hbody t (List.mem_of_getElem? ht)
  have hmem : .applying rule words ∈ (s.say text).events :=
    hsplit ▸ List.mem_append_right before List.mem_cons_self
  have hcourse :=
    Repertoire.course_turn s.options (Repertoire.not_recalls_of_mem hmem id nofun) s.tracer
  obtain ⟨otherKey, here, rest, -, hhere, hafter, hrest⟩ := hcourse.course_to_applying hsplit
  rw [← s.repertoire.tags_eq] at hselects ⊢
  have hplace : here.cycles.peek (rule.keyword, (index : Int)) = (place : Int) := by
    have hat := hhere.peek_eq hs hrule hbody ht hpeek
    rw [Turn.events_after, List.countP_append, s.repertoire.tags_eq] at hat
    exact hat
  obtain ⟨parts, reassembly, hparts, hget, hselection, htemplate, hresult, -⟩ :=
    Rule.apply_of_patternFor? hbody ht hne hselects hplace
  refine ⟨parts, reassembly, rest, hparts, hget, ?_, ?_⟩
  · rw [Applied.events, hselection, htemplate] at hafter
    exact (List.cons.inj hafter).2
  · rw [hresult] at hrest
    cases hresolve : reassembly.resolve parts with
    | error numeral =>
      simp only [hresolve] at hrest
      obtain ⟨rfl, hreply⟩ := hrest
      rw [show (s.say text).reply = _ from hreply]
      exact .failed numeral
    | ok outcome =>
      simp only [hresolve] at hrest
      obtain ⟨event, later, rfl, rfl | rfl⟩ := hrest
      · exact .applied later
      · exact .fellBack later

theorem Session.peek_say {s : Session} (hscript : s.repertoire.script = script)
    (hs : script.Loaded) (hrule : script.rules.get? key = some rule)
    (hbody : rule.body = .transform ts link) (ht : ts[index]? = some t) {n : Nat}
    (hpeek : s.state.cycles.peek (rule.keyword, (index : Int)) =
      ((n % t.reassemblies.length : Nat) : Int)) (text : List Char) :
    (s.say text).session.state.cycles.peek (rule.keyword, (index : Int)) =
      (((n + (s.say text).events.countP (Event.selects script.tags rule index)) %
        t.reassemblies.length : Nat) : Int) := by
  subst hscript
  by_cases hrecalls : s.repertoire.Recalls s.state text
  · obtain ⟨oldest, waiting, -, hturn⟩ := Repertoire.turn_of_recalls s.options hrecalls s.tracer
    simp only [say, hturn]
    exact hpeek
  · rw [← s.repertoire.tags_eq]
    exact (Repertoire.course_turn s.options hrecalls s.tracer).peek_eq hs hrule hbody ht hpeek

namespace Chronicle

/-- The pointer of a pattern stands at the number of its selections that are told, modulo the number of
its reassemblies. -/
structure CountsSelections (script : Script) (rule : Rule) (index size : Nat) (c : Chronicle) :
    Prop where
  script_eq : c.session.repertoire.script = script
  peek_eq : c.session.state.cycles.peek (rule.keyword, (index : Int)) =
    ((c.told.countP (Event.selects script.tags rule index) % size : Nat) : Int)

theorem countsSelections_start {session : Session} {options : Options} {tracer : Tracer}
    (hstart : Session.start script options tracer = .ok session) (rule : Rule) (index size : Nat) :
    CountsSelections script rule index size (start session) := by
  obtain ⟨hscript, hstate⟩ := Session.start_eq_ok hstart
  refine ⟨hscript, ?_⟩
  simp [start, hstate, State.start, Cycles.start, Cycles.peek]

theorem CountsSelections.next {c : Chronicle} (hs : script.Loaded)
    (hrule : script.rules.get? key = some rule) (hbody : rule.body = .transform ts link)
    (ht : ts[index]? = some t) (h : CountsSelections script rule index t.reassemblies.length c)
    (deed : Deed) :
    CountsSelections script rule index t.reassemblies.length (c.next deed) := by
  obtain ⟨hscript, hpeek⟩ := h
  refine ⟨(congrArg _ (c.repertoire_next deed)).trans hscript, ?_⟩
  cases deed with
  | say text =>
    have hsay := Session.peek_say hscript hs hrule hbody ht hpeek text
    rw [← List.countP_append] at hsay
    exact hsay
  | takeMemory =>
    simp only [Chronicle.next, Session.takeMemory, State.takeOldest?]
    cases c.session.state.memories <;> exact hpeek
  | resetCycles => rfl
  | remember memory => exact hpeek
  | choose options => exact hpeek
  | trace tracer => exact hpeek

/-- The pattern of a rule that is selected for the `j`-th time since the pointers last stood at zero,
counted from nought, uses its reassembly of number `j` modulo their count, in whatever turns it has been
selected before. A turn that does not select it leaves its pointer where it is. -/
theorem reassemblies_used_in_rotation {text : List Char} {options : Options} {tracer : Tracer}
    {session : Session} (hread : Script.read text = .ok script)
    (hstart : Session.start script options tracer = .ok session) (deeds : List Deed)
    (hrule : script.rules.get? key = some rule) (hbody : rule.body = .transform ts link)
    (ht : ts[index]? = some t) (next : List Char) :
    let past := (start session).after deeds
    let spoken := past.session.say next
    let selects := Event.selects script.tags rule index
    (∀ before words after, spoken.events = before ++ .applying rule words :: after →
      selects (.applying rule words) = true →
      let place := (past.told ++ before).countP selects % t.reassemblies.length
      ∃ parts reassembly rest, t.decomposition.apply script.tags words = some parts ∧
        t.reassemblies[place]? = some reassembly ∧
        after = .selected ⟨(key, index), place⟩ ::
          (reassembly.template?.toList.map .reassembling ++ rest) ∧
        UseTold rule words (t.decomposition, reassembly) (reassembly.resolve parts)
          spoken.reply rest) ∧
    ((∀ event ∈ spoken.events, selects event = false) →
      spoken.session.state.cycles.peek (key, index) =
        past.session.state.cycles.peek (key, index)) := by
  intro past spoken selects
  have hs := Script.loaded_of_read hread
  obtain ⟨hscript, hpeek⟩ : CountsSelections script rule index t.reassemblies.length past :=
    after_induction (fun _ deed h => h.next hs hrule hbody ht deed)
      (countsSelections_start hstart rule index _) deeds
  rw [← hs.keyword_eq hrule hbody]
  refine ⟨fun before words after hsplit hselects => ?_, fun hnone => ?_⟩
  · rw [List.countP_append]
    exact Session.used_of_applying hscript hs hrule hbody ht hpeek hsplit
      (of_decide_eq_true hselects).2
  · have hzero : spoken.events.countP selects = 0 :=
      List.countP_eq_zero.mpr fun event hevent => by simp [hnone event hevent]
    have hsay := Session.peek_say hscript hs hrule hbody ht hpeek next
    rw [hzero] at hsay
    exact hsay.trans hpeek.symm

theorem third_use_of_two_reassemblies :
    ∃ script session,
      Script.read "(HI) (NONE ((0) (OH) (AH))) (MY) (MEMORY MY (0 = A) (0 = B) (0 = C) (0 = D))".toList
        = .ok script ∧
      Session.start script ⟨true, defaultMaxHops⟩ .silent = .ok session ∧
      ∃ before words rest,
        (((start session).after [.say "A".toList, .say "B".toList]).session.say "C".toList).events =
          before ++ .applying session.repertoire.noneRule words ::
            .selected ⟨(noneKey, 0), 0⟩ :: rest := by
  let past (session : Session) := (start session).after [.say "A".toList, .say "B".toList]
  let events (session : Session) := ((past session).session.say "C".toList).events
  let selects (session : Session) :=
    Event.selects session.repertoire.tags session.repertoire.noneRule 0
  refine (Session.exists_start_of_any
    (p := fun session =>
      events session = (events session).take 3 ++
        .applying session.repertoire.noneRule ["C".toList] :: (events session).drop 4 ∧
      selects session (.applying session.repertoire.noneRule ["C".toList]) = true ∧
      ((past session).told ++ (events session).take 3).countP (selects session) = 2 ∧
      session.repertoire.noneRule.first?.map (·.reassemblies.length) = some 2) ?_).imp fun script =>
    Exists.imp fun session h => ⟨h.1, h.2.1, ?_⟩
  · decide +kernel
  · obtain ⟨hsplit, hselects, hcount, htwo⟩ := of_decide_eq_true h.2.2
    obtain ⟨t, hfirst, hlength⟩ := Option.map_eq_some_iff.mp htwo
    obtain ⟨ts, link, hnone⟩ := Rule.exists_body_of_first? hfirst
    obtain ⟨hscript, -⟩ := Session.start_eq_ok h.2.1
    have htags : session.repertoire.tags = script.tags := by
      rw [session.repertoire.tags_eq, hscript]
    simp only [selects, htags, past] at hselects hcount
    obtain ⟨parts, reassembly, rest, -, -, hafter, -⟩ :=
      (reassemblies_used_in_rotation h.1 h.2.1 _ (hscript ▸ session.repertoire.noneRule_eq) hnone
        List.getElem?_cons_zero "C".toList).1 _ _ _ hsplit hselects
    rw [hcount, hlength] at hafter
    rw [hafter] at hsplit
    exact ⟨_, _, _, hsplit⟩

end Chronicle

end

end Colloquy
