import Colloquy.Proofs.CodedSentences
import Colloquy.Proofs.LinkRanks

/-!
# Scripts on which no turn goes astray

Some properties that can be read off a script keep every turn on it regular: it gives an answer, it comes
to no keyword without a rule and not to the greatest number of keywords, every attempt to make a
memory has a word to choose a pair by, the NONE rule gives an answer, and every template that is
filled asks for parts that there are.
-/

namespace Colloquy

open Numerals

/-! ### Numerals of templates -/

/-- The numerals of the template count to one of so many parts. -/
def WithinParts (count : Nat) (template : List Word) : Prop :=
  ∀ term ∈ template, ∀ n, read term = .ok (some n) → n ≠ 0 ∧ n ≤ count

instance (count : Nat) (template : List Word) : Decidable (WithinParts count template) :=
  decidable_of_iff
    (∀ term ∈ template, ∀ n ∈ (read term).toOption.join, n ≠ 0 ∧ n ≤ count) <| by
      have hread (term : Word) (n : Nat) :
          n ∈ (read term).toOption.join ↔ read term = .ok (some n) := by
        cases read term with
        | error numeral => exact iff_of_false nofun nofun
        | ok index => exact Except.ok.injEq index (some n) ▸ Iff.rfl
      simp only [hread, WithinParts]

/-- Every template of the script counts to parts that its pattern makes. -/
def Script.FillsWithin (s : Script) : Prop :=
  ∀ filling ∈ s.fillings, WithinParts filling.1.elements.length filling.2

instance (s : Script) : Decidable s.FillsWithin := by
  unfold Script.FillsWithin
  infer_instance

/-- A template that a turn fills asks for parts that the sentence has been cut into. -/
theorem Repertoire.withinParts_of_fills {r : Repertoire} (h : r.script.FillsWithin) {o : Options}
    {s : State} {text : List Char} {parts template : List Word}
    (hfills : r.Fills (r.turn o s text).events parts template) :
    WithinParts parts.length template := by
  obtain ⟨words, decomposition, hfilling, hparts⟩ := filledFrom_of_fills hfills
  rw [Decomposition.length_of_apply hparts]
  exact h _ hfilling

/-! ### The NONE rule -/

def Reassembly.Answers : Reassembly → Prop
  | .template _ => True
  | .newKey | .link _ | .pre .. => False

instance : DecidablePred Reassembly.Answers
  | .template _ => .isTrue trivial
  | .newKey => .isFalse id
  | .link _ => .isFalse id
  | .pre .. => .isFalse id

theorem Reassembly.Answers.exists_complete {reassembly : Reassembly} (h : reassembly.Answers)
    {parts : List Word} {outcome : Outcome} (hresolve : reassembly.resolve parts = .ok outcome) :
    ∃ reply, outcome = .complete reply := by
  cases reassembly with
  | template terms =>
    rw [resolve] at hresolve
    cases hterms : reassemble parts terms with
    | error numeral =>
      rw [hterms] at hresolve
      cases hresolve
    | ok reply =>
      rw [hterms] at hresolve
      cases hresolve
      exact ⟨reply, rfl⟩
  | newKey => exact h.elim
  | link target => exact h.elim
  | pre terms target => exact h.elim

namespace Rule

/-- The pattern that is tried first takes every sentence, and its reassemblies are all answers. -/
def Answers (r : Rule) : Prop :=
  ∃ t ∈ r.first?, t.decomposition.elements = [.wildcard 0] ∧
    ∀ reassembly ∈ t.reassemblies, reassembly.Answers

instance (r : Rule) : Decidable r.Answers := by
  unfold Answers
  infer_instance

end Rule

theorem spans_zero (tags : Tags) (words : List Word) :
    spans tags [.wildcard 0] words = some [words] := by
  have hshortest : shortest (spans tags []) words = some (words, []) := by
    induction words with
    | nil => rfl
    | cons w words ih =>
      rw [shortest, spans, ih]
      rfl
  rw [spans, hshortest]
  rfl

theorem Rule.Answers.exists_complete {rule : Rule} (h : rule.Answers) {tags : Tags}
    {words : List Word} {cycles : Cycles} {application : Application}
    (hresult : (rule.apply tags words cycles).result = .ok application) :
    ∃ reply, application.outcome = .complete reply := by
  obtain ⟨t, hfirst, helements, hanswers⟩ := h
  obtain ⟨ts, link, hbody⟩ := exists_body_of_first? hfirst
  have hmatch : firstMatch tags words 0 (t :: ts) = some (0, t, [Words.join words]) := by
    rw [firstMatch, Decomposition.apply, components, helements, spans_zero]
    rfl
  rw [Rule.apply, hbody] at hresult
  simp only [hmatch] at hresult
  obtain ⟨reassembly, hreassembly, hresolve⟩ := exists_reassembly_of_result hresult
  exact (hanswers reassembly hreassembly).exists_complete hresolve

/-- A turn that falls back on such a NONE rule is not left without an answer. -/
theorem Repertoire.noneSilent_notMem {r : Repertoire} (h : r.noneRule.Answers) (o : Options)
    (s : State) (text : List Char) (limit : Nat) :
    .noneSilent limit ∉ (r.turn o s text).events := by
  intro hmem
  obtain ⟨n, left, clause, -, -, htells⟩ := exists_reaches_of_mem_turn hmem nofun
  cases htells with
  | noneSilent result silent =>
    obtain ⟨reply, hreply⟩ := h.exists_complete result
    exact silent reply hreply

/-! ### Ranks by the length of links -/

/-- The greatest number of links that follow each other from a keyword on, up to a bound. -/
def Script.linkDepth (s : Script) : Nat → Word → Nat
  | 0, _ => 0
  | bound + 1, keyword =>
    match s.rules.get? keyword with
    | none => 0
    | some rule => (rule.targets.map fun target => s.linkDepth bound target + 1).foldr max 0

theorem Script.linkDepth_le (s : Script) (bound : Nat) (keyword : Word) :
    s.linkDepth bound keyword ≤ bound := by
  induction bound generalizing keyword with
  | zero => exact Nat.le_refl 0
  | succ bound ih =>
    rw [linkDepth]
    split
    · exact Nat.zero_le _
    · rename_i rule hrule
      induction rule.targets with
      | nil => exact Nat.zero_le _
      | cons target targets iht => exact Nat.max_le.mpr ⟨Nat.succ_le_succ (ih target), iht⟩

/-! ### Regular turns -/

/-- What can be read off a script to know that turns on it are regular, if no more than so many links
follow each other. -/
structure Script.Regular (s : Script) (depth : Nat) : Prop where
  fillable : s.Fillable
  within : s.FillsWithin
  closed : s.Closed
  ranked : s.Ranked (s.linkDepth depth)
  coded : s.Coded
  answers : ∀ rule ∈ s.rules.get? noneKey, rule.Answers

instance (s : Script) (depth : Nat) : Decidable (s.Regular depth) :=
  decidable_of_iff (s.Fillable ∧ s.FillsWithin ∧ s.Closed ∧ s.Ranked (s.linkDepth depth) ∧
      s.Coded ∧ ∀ rule ∈ s.rules.get? noneKey, rule.Answers)
    ⟨fun ⟨a, b, c, d, e, f⟩ => ⟨a, b, c, d, e, f⟩, fun ⟨a, b, c, d, e, f⟩ => ⟨a, b, c, d, e, f⟩⟩

/-- The turn gives an answer and comes to none of the ends that are there for faulty scripts. -/
structure Spoken.Regular (r : Repertoire) (spoken : Spoken) : Prop where
  answered : ∃ reply, spoken.reply = .ok reply
  known : ∀ keyword, .unknownKeyword keyword ∉ spoken.events
  unstopped : ∀ maxHops limit, .hopLimit maxHops limit ∉ spoken.events
  coded : ∀ keyword, .recollected keyword .uncoded ∉ spoken.events
  noneReplies : ∀ limit, .noneSilent limit ∉ spoken.events
  within : ∀ parts template, r.Fills spoken.events parts template →
    WithinParts parts.length template

theorem Session.constant_after (session : Session) (said : List (List Char)) :
    (session.after said).repertoire = session.repertoire ∧
      (session.after said).options = session.options := by
  induction said generalizing session with
  | nil => exact ⟨rfl, rfl⟩
  | cons text said ih => exact ih (session.say text).session

/-- On a regular script every turn on a text that is not too long is regular. -/
theorem Session.Sound.regular {script : Script} (hs : script.Steady) {depth : Nat}
    (hregular : script.Regular depth) {session : Session} (h : session.Sound script)
    {text : List Char} (hlength : text.length * (depth + 1) ≤ session.options.maxHops.toNat) :
    (session.say text).Regular session.repertoire := by
  have hanswered := h.exists_reply hs hregular.fillable text
  obtain ⟨rfl, hundisturbed, -, -⟩ := h
  obtain ⟨_, hsay⟩ := session.exists_say_eq hundisturbed text
  rw [hsay] at hanswered ⊢
  exact
    { answered := hanswered
      known := Repertoire.unknownKeyword_notMem hregular.closed _ _ _
      unstopped := Repertoire.hopLimit_notMem hregular.ranked (Script.linkDepth_le _ depth) hlength
      coded := Repertoire.uncoded_notMem hregular.coded _ _ _
      noneReplies := Repertoire.noneSilent_notMem
        (hregular.answers _ (Option.mem_def.mpr session.repertoire.noneRule_eq)) _ _ _
      within := fun parts template => Repertoire.withinParts_of_fills hregular.within }

end Colloquy
