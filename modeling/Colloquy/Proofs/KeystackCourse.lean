import Colloquy.Proofs.FilledTemplates

/-!
# The course of a keystack

A turn works keyword after keyword off. A rule that gives way leads on to the next keyword, a rule with a
link to another keyword in its place, perhaps with the sentence rewritten. What the turn tells, it
tells at a keystack and a sentence that it has come to in this way.
-/

namespace Colloquy

/-! ### What a rule may do -/

/-- The keyword that a reassembly sends a sentence on to, if it sends it on. -/
def Reassembly.target? : Reassembly → Option Word
  | .link target | .pre _ target => some target
  | .template _ | .newKey => none

/-- A sentence is sent on as it is, or rewritten by a template. -/
theorem Reassembly.resolve_eq_link {reassembly : Reassembly} {parts : List Word} {target : Word}
    {rewritten : Option (List Word)} (h : reassembly.resolve parts = .ok (.link target rewritten)) :
    (reassembly = .link target ∧ rewritten = none) ∨
      ∃ terms words, reassembly = .pre terms target ∧ rewritten = some words ∧
        reassemble parts terms = .ok words := by
  cases reassembly with
  | template terms =>
    rw [resolve] at h
    cases hterms : reassemble parts terms <;> rw [hterms] at h <;> cases h
  | newKey => cases h
  | link other =>
    cases h
    exact .inl ⟨rfl, rfl⟩
  | pre terms other =>
    rw [resolve] at h
    cases hterms : reassemble parts terms with
    | error numeral =>
      rw [hterms] at h
      cases h
    | ok words =>
      rw [hterms] at h
      cases h
      exact .inr ⟨terms, words, rfl, rfl, hterms⟩

namespace Rule

def reassemblies (r : Rule) : List (Decomposition × Reassembly) :=
  match r.body with
  | .substitution | .tag | .link _ | .memory _ => []
  | .pre decomposition terms target => [(decomposition, .pre terms target)]
  | .transform ts _ => ts.flatMap fun t => t.reassemblies.map (t.decomposition, ·)

/-- The keywords to which a rule sends a sentence on as it is, whatever the sentence is or if no pattern
matches. -/
def links (r : Rule) : List Word :=
  match r.body with
  | .substitution | .tag | .pre .. | .memory _ => []
  | .link target => [target]
  | .transform _ link => (written link).toList

def targets (r : Rule) : List Word :=
  r.links ++ r.reassemblies.filterMap fun used => used.2.target?

/-- The outcome of a transformation is that of one of its reassemblies. -/
theorem exists_reassembly_of_result {key : CycleKey} {t : Transformation} {parts : List Word}
    {cycles : Cycles} {application : Application}
    (h : (applyTransformation key t parts cycles).result = .ok application) :
    ∃ reassembly ∈ t.reassemblies, reassembly.resolve parts = .ok application.outcome := by
  unfold applyTransformation at h
  split at h
  · cases h
  · simp only at h
    split at h
    · cases h
    · rename_i reassembly hchosen
      split at h
      · cases h
      · rename_i outcome hresolve
        cases h
        exact ⟨reassembly, mem_of_itemAt? hchosen, hresolve⟩

/-- A rule that is applied does not apply, follows a link of its own or carries out one of its
reassemblies on the parts of the sentence. -/
theorem outcome_of_apply {rule : Rule} {tags : Tags} {words : List Word} {cycles : Cycles}
    {application : Application}
    (h : (rule.apply tags words cycles).result = .ok application) :
    application.outcome = .inapplicable ∨
      (∃ target ∈ rule.links, application.outcome = .link target none) ∨
      ∃ decomposition reassembly parts, (decomposition, reassembly) ∈ rule.reassemblies ∧
        decomposition.apply tags words = some parts ∧
        reassembly.resolve parts = .ok application.outcome := by
  unfold Rule.apply at h
  split at h
  · cases h
    exact .inl rfl
  · cases h
    exact .inl rfl
  · cases h
    exact .inl rfl
  · rename_i target hbody
    cases h
    exact .inr (.inl ⟨target, by simp [links, hbody], rfl⟩)
  · rename_i decomposition terms target hbody
    split at h
    · cases h
      exact .inl rfl
    · rename_i parts hparts
      split at h
      · cases h
      · rename_i outcome hresolve
        cases h
        refine .inr (.inr ⟨decomposition, .pre terms target, parts, ?_, hparts, hresolve⟩)
        simp [reassemblies, hbody]
  · rename_i ts link hbody
    split at h
    · rename_i index t parts hmatch
      obtain ⟨reassembly, hreassembly, hresolve⟩ := exists_reassembly_of_result h
      obtain ⟨place, -, ht⟩ := firstMatch_eq_some hmatch
      refine .inr (.inr ⟨t.decomposition, reassembly, parts, ?_, apply_of_firstMatch hmatch, hresolve⟩)
      rw [reassemblies, hbody]
      exact List.mem_flatMap.mpr
        ⟨t, List.mem_of_getElem? ht, List.mem_map_of_mem hreassembly⟩
    · split at h
      · rename_i target hlink
        cases h
        exact .inr (.inl ⟨target, by simp [links, hbody, hlink], rfl⟩)
      · cases h
        exact .inl rfl

theorem mem_targets_of_apply {rule : Rule} {tags : Tags} {words : List Word} {cycles : Cycles}
    {application : Application} {target : Word} {rewritten : Option (List Word)}
    (h : (rule.apply tags words cycles).result = .ok application)
    (houtcome : application.outcome = .link target rewritten) : target ∈ rule.targets := by
  rcases outcome_of_apply h with hnone | ⟨other, hlink, hother⟩ |
    ⟨decomposition, reassembly, parts, hmem, -, hresolve⟩
  · rw [houtcome] at hnone
    cases hnone
  · rw [houtcome] at hother
    cases hother
    exact List.mem_append_left _ hlink
  · refine List.mem_append_right _ (List.mem_filterMap.mpr ⟨_, hmem, ?_⟩)
    rw [houtcome] at hresolve
    rcases Reassembly.resolve_eq_link hresolve with ⟨rfl, -⟩ | ⟨terms, rewriting, rfl, -, -⟩ <;> rfl

end Rule

/-- The event opens a turn or tells that a memory is recalled. -/
def Event.Opens : Event → Prop
  | .started _ | .memories _ | .keystack [] | .recalling => True
  | _ => False

/-! ### From clause to clause -/

namespace Repertoire

/-- The first keyword of a keystack is worked off: the next one is tried, or another one in its place. -/
inductive Leads (r : Repertoire) : Clause → Clause → Prop where
  | newKey {keyword : Word} {keystack words : List Word} {rule : Rule} {cycles : Cycles}
      {application : Application} (stored : r.script.rules.get? keyword = some rule)
      (result : (rule.apply r.tags words cycles).result = .ok application)
      (outcome : application.outcome = .newKey) :
      Leads r ⟨keyword :: keystack, words⟩ ⟨keystack, words⟩
  | link {keyword : Word} {keystack words : List Word} {rule : Rule} {cycles : Cycles}
      {application : Application} {target : Word} {rewritten : Option (List Word)}
      (stored : r.script.rules.get? keyword = some rule)
      (result : (rule.apply r.tags words cycles).result = .ok application)
      (outcome : application.outcome = .link target rewritten) :
      Leads r ⟨keyword :: keystack, words⟩ ⟨target :: keystack, rewritten.getD words⟩

/-- So many keywords are worked off between the two clauses. -/
inductive Reaches (r : Repertoire) : Nat → Clause → Clause → Prop where
  | here (clause : Clause) : Reaches r 0 clause clause
  | step {n : Nat} {clause next last : Clause} (first : r.Leads clause next)
      (rest : Reaches r n next last) : Reaches r (n + 1) clause last

/-- What a turn may tell at a clause when so many more keywords may be worked on. A rule is applied to
the words of the clause if its keyword is the first one, or if it is the NONE rule. -/
inductive Tells (r : Repertoire) : Nat → Clause → Event → Prop where
  | keystack {left : Nat} {clause : Clause} :
      Tells r left clause
        (.keystack (clause.keystack.map fun k => (k, standing r.script.rules k)))
  | working {left : Nat} {keyword : Word} {keystack words : List Word} :
      Tells r (left + 1) ⟨keyword :: keystack, words⟩ (.working keyword words)
  | unknown {left : Nat} {keyword : Word} {keystack words : List Word}
      (gone : r.script.rules.get? keyword = none) :
      Tells r (left + 1) ⟨keyword :: keystack, words⟩ (.unknownKeyword keyword)
  | remembering {left : Nat} {keyword : Word} {keystack words template : List Word}
      (filled : r.memoryRule.template? r.tags keyword words = some template) :
      Tells r (left + 1) ⟨keyword :: keystack, words⟩ (.reassembling template)
  | recollected {left : Nat} {keyword : Word} {keystack words : List Word}
      {recollection : Recollection}
      (made : r.memoryRule.recollect r.tags keyword words = .ok recollection) :
      Tells r (left + 1) ⟨keyword :: keystack, words⟩ (.recollected keyword recollection)
  | applying {left : Nat} {clause : Clause} {key : Word} {rule : Rule}
      (stored : r.script.rules.get? key = some rule)
      (due : clause.keystack.head? = some key ∨ key = noneKey) :
      Tells r left clause (.applying rule clause.words)
  | selected {left : Nat} {clause : Clause} {key : Word} {rule : Rule} {cycles : Cycles}
      {selection : Selection} (stored : r.script.rules.get? key = some rule)
      (due : clause.keystack.head? = some key ∨ key = noneKey)
      (taken : (rule.apply r.tags clause.words cycles).selection = some selection) :
      Tells r left clause (.selected selection)
  | reassembling {left : Nat} {clause : Clause} {key : Word} {rule : Rule} {cycles : Cycles}
      {template : List Word} (stored : r.script.rules.get? key = some rule)
      (due : clause.keystack.head? = some key ∨ key = noneKey)
      (filled : (rule.apply r.tags clause.words cycles).template = some template) :
      Tells r left clause (.reassembling template)
  | applied {left : Nat} {keyword : Word} {keystack words : List Word} {rule : Rule}
      {cycles : Cycles} {application : Application}
      (stored : r.script.rules.get? keyword = some rule)
      (result : (rule.apply r.tags words cycles).result = .ok application) :
      Tells r (left + 1) ⟨keyword :: keystack, words⟩ (.applied rule words application)
  | noMatch {left : Nat} {keyword : Word} {keystack words : List Word} :
      Tells r (left + 1) ⟨keyword :: keystack, words⟩ (.noMatch keyword)
  | fellBack {left : Nat} {clause : Clause} {cycles : Cycles} {application : Application}
      (result : (r.noneRule.apply r.tags clause.words cycles).result = .ok application) :
      Tells r left clause (.fellBack application)
  | noneSilent {left : Nat} {clause : Clause} {cycles : Cycles} {application : Application}
      {limit : Nat} (result : (r.noneRule.apply r.tags clause.words cycles).result = .ok application)
      (silent : ∀ reply, application.outcome ≠ .complete reply) :
      Tells r left clause (.noneSilent limit)
  | hopLimit {keyword : Word} {keystack words : List Word} {maxHops : Int} {limit : Nat} :
      Tells r 0 ⟨keyword :: keystack, words⟩ (.hopLimit maxHops limit)

variable {r : Repertoire}

theorem mem_events_applying {rule : Rule} {words : List Word} {s : State}
    {next : Application → State → Turn} {event : Event}
    (h : event ∈ (r.applying rule words s next).events) :
    event ∈ (rule.apply r.tags words s.cycles).events rule words ∨
      ∃ application following, (rule.apply r.tags words s.cycles).result = .ok application ∧
        event ∈ (next application following).events := by
  rw [applying_eq] at h
  rcases List.mem_append.mp h with h | h
  · exact .inl h
  · split at h
    · cases h
    · rename_i application hresult
      exact .inr ⟨application, _, hresult, h⟩

theorem tells_of_mem_events {left : Nat} {clause : Clause} {key : Word} {rule : Rule}
    {cycles : Cycles} {event : Event} (hrule : r.script.rules.get? key = some rule)
    (hdue : clause.keystack.head? = some key ∨ key = noneKey)
    (h : event ∈ (rule.apply r.tags clause.words cycles).events rule clause.words) :
    r.Tells left clause event := by
  rcases List.mem_cons.mp h with rfl | h
  · exact .applying hrule hdue
  · rcases List.mem_append.mp h with h | h
    · obtain ⟨selection, hselection, rfl⟩ := List.mem_map.mp h
      exact .selected hrule hdue (Option.mem_toList.mp hselection)
    · obtain ⟨template, htemplate, rfl⟩ := List.mem_map.mp h
      exact .reassembling hrule hdue (Option.mem_toList.mp htemplate)

theorem tells_of_mem_fallBack {left : Nat} {clause : Clause} {s : State} {event : Event}
    (h : event ∈ (r.fallBack clause.words s).events) : r.Tells left clause event := by
  rw [fallBack_eq_applying] at h
  rcases mem_events_applying h with h | ⟨application, following, hresult, h⟩
  · exact tells_of_mem_events r.noneRule_eq (.inr rfl) h
  · rcases List.mem_append.mp h with h | h
    · cases List.mem_singleton.mp h
      exact .fellBack hresult
    · split at h
      · cases h
      · rename_i hsilent
        rcases List.mem_append.mp h with h | h
        · cases List.mem_singleton.mp h
          exact .noneSilent hresult hsilent
        · cases h

theorem tells_of_mem_giveUp {o : Options} {left : Nat} {clause : Clause} {s : State} {event : Event}
    (h : event ∈ (r.giveUp o clause.words s).events) : r.Tells left clause event := by
  rw [giveUp_eq] at h
  split at h
  · cases h
  · exact tells_of_mem_fallBack h

/-- While a keyword is worked on, its clause is told of, or the turn goes on with a clause that this one
leads to. -/
theorem tells_or_leads {o : Options} {hops : Nat} {keyword : Word} {keystack words : List Word}
    {s : State} {event : Event}
    (h : event ∈ (r.work o (hops + 1) (keyword :: keystack) words s).events) :
    r.Tells (hops + 1) ⟨keyword :: keystack, words⟩ event ∨
      ∃ next following, r.Leads ⟨keyword :: keystack, words⟩ next ∧
        event ∈ (r.work o hops next.keystack next.words following).events := by
  rw [work_succ_cons] at h
  rcases List.mem_append.mp h with h | h
  · rcases List.mem_cons.mp h with rfl | h
    · exact .inl .keystack
    · cases List.mem_singleton.mp h
      exact .inl .working
  · cases hrule : r.script.rules.get? keyword with
    | none =>
      simp only [hrule] at h
      rcases List.mem_append.mp h with h | h
      · cases List.mem_singleton.mp h
        exact .inl (.unknown hrule)
      · exact .inl (tells_of_mem_giveUp h)
    | some rule =>
      simp only [hrule] at h
      rcases List.mem_append.mp h with h | h
      · obtain ⟨template, htemplate, rfl⟩ := List.mem_map.mp h
        exact .inl (.remembering (Option.mem_toList.mp htemplate))
      · split at h
        · cases h
        · rename_i recollection hmade
          rcases List.mem_append.mp h with h | h
          · cases List.mem_singleton.mp h
            exact .inl (.recollected hmade)
          · rcases mem_events_applying h with h | ⟨application, following, hresult, h⟩
            · exact .inl (tells_of_mem_events hrule (.inl rfl) h)
            · rcases List.mem_append.mp h with h | h
              · cases List.mem_singleton.mp h
                exact .inl (.applied hrule hresult)
              · split at h
                · cases h
                · rcases List.mem_append.mp h with h | h
                  · cases List.mem_singleton.mp h
                    exact .inl .noMatch
                  · exact .inl (tells_of_mem_giveUp h)
                · rename_i houtcome
                  exact .inr ⟨_, following, .newKey hrule hresult houtcome, h⟩
                · rename_i target rewritten houtcome
                  exact .inr ⟨_, following, .link hrule hresult houtcome, h⟩

/-- What a turn tells while it works, it tells at a clause that it has come to. -/
theorem exists_reaches_of_mem_work {o : Options} {hops : Nat} {keystack words : List Word}
    {s : State} {event : Event} (h : event ∈ (r.work o hops keystack words s).events) :
    ∃ n left clause, n + left = hops ∧ r.Reaches n ⟨keystack, words⟩ clause ∧
      r.Tells left clause event := by
  have hhere {left : Nat} {clause : Clause} (htells : r.Tells left clause event) :
      ∃ n more last, n + more = left ∧ r.Reaches n clause last ∧ r.Tells more last event :=
    ⟨0, left, clause, Nat.zero_add left, .here clause, htells⟩
  -- Working on a keyword leads to a turn with one keyword less to work on, so the induction is on those.
  induction hops generalizing keystack words s with
  | zero =>
    cases keystack with
    | nil => exact hhere (tells_of_mem_fallBack h)
    | cons keyword keystack =>
      cases List.mem_singleton.mp h
      exact hhere .hopLimit
  | succ hops ih =>
    cases keystack with
    | nil => exact hhere (tells_of_mem_fallBack h)
    | cons keyword keystack =>
      rcases tells_or_leads h with htells | ⟨next, following, hleads, hmem⟩
      · exact hhere htells
      · obtain ⟨n, left, clause, hsum, hreaches, htells⟩ := ih hmem
        exact ⟨n + 1, left, clause, by omega, .step hleads hreaches, htells⟩

/-- What a turn tells after it has been opened, it tells at a clause that it has come to from that of its
text. -/
theorem exists_reaches_of_mem_turn {o : Options} {s : State} {text : List Char} {event : Event}
    (h : event ∈ (r.turn o s text).events) (hopened : ¬ event.Opens) :
    ∃ n left clause, n + left = o.maxHops.toNat ∧
      r.Reaches n (scan r.script.rules (CardCode.normalize text)) clause ∧
      r.Tells left clause event := by
  rw [turn_eq] at h
  rcases List.mem_append.mp h with h | h
  · rcases List.mem_cons.mp h with rfl | h
    · exact absurd trivial hopened
    · cases List.mem_singleton.mp h
      exact absurd trivial hopened
  · split at h
    · rcases List.mem_append.mp h with h | h
      · cases List.mem_singleton.mp h
        exact absurd trivial hopened
      · split at h
        · rcases List.mem_append.mp h with h | h
          · cases List.mem_singleton.mp h
            exact absurd trivial hopened
          · cases h
        · exact ⟨0, _, _, Nat.zero_add _, .here _, tells_of_mem_fallBack h⟩
    · exact exists_reaches_of_mem_work h

/-- What each clause hands on to those it leads to holds of all clauses that are reached. -/
theorem Reaches.preserves {holds : Clause → Prop}
    (hleads : ∀ {clause next : Clause}, r.Leads clause next → holds clause → holds next) {n : Nat}
    {clause last : Clause} (h : r.Reaches n clause last) (hclause : holds clause) : holds last := by
  induction h with
  | here clause => exact hclause
  | step first rest ih => exact ih (hleads first hclause)

/-- If the clause of a text has such a property, what a turn on the text tells after it has been opened,
it tells at a clause with the property. -/
theorem exists_tells_of_mem_turn {holds : Clause → Prop}
    (hleads : ∀ {clause next : Clause}, r.Leads clause next → holds clause → holds next)
    {o : Options} {s : State} {text : List Char} {event : Event}
    (hscan : holds (scan r.script.rules (CardCode.normalize text)))
    (h : event ∈ (r.turn o s text).events) (hopened : ¬ event.Opens) :
    ∃ left clause, holds clause ∧ r.Tells left clause event := by
  obtain ⟨n, left, clause, -, hreaches, htells⟩ := exists_reaches_of_mem_turn h hopened
  exact ⟨left, clause, hreaches.preserves hleads hscan, htells⟩

end Repertoire

/-! ### The clause of a text -/

section

variable {rules : WordMap Rule} {keystack passed words : List Word} {rank : Int} {w : Word}

/-- A keyword that a scan finds is a word with a rule that can be applied. -/
theorem mem_keystack_scanFrom (h : w ∈ (scanFrom rules keystack rank passed words).keystack) :
    w ∈ keystack ∨ ∃ rule, rules.get? w = some rule ∧ rule.hasTransformation = true := by
  fun_induction scanFrom rules keystack rank passed words with
  | case1 => exact .inl h
  | case2 keystack rank passed v rest delimiter empty ih =>
    exact (ih h).elim (fun hnil => nomatch hnil) .inr
  | case3 => exact .inl h
  | case4 keystack rank passed v rest word unruled ih => exact ih h
  | case5 keystack rank passed v rest word rule hrule now transforms higher ih =>
    rcases ih h with hmem | hfound
    · rcases List.mem_cons.mp hmem with rfl | hmem
      · exact .inr ⟨rule, hrule, transforms⟩
      · exact .inl hmem
    · exact .inr hfound
  | case6 keystack rank passed v rest word rule hrule now transforms lower ih =>
    rcases ih h with hmem | hfound
    · rcases List.mem_append.mp hmem with hmem | hmem
      · exact .inl hmem
      · cases List.mem_singleton.mp hmem
        exact .inr ⟨rule, hrule, transforms⟩
    · exact .inr hfound
  | case7 keystack rank passed v rest word rule hrule now inert ih => exact ih h

theorem length_keystack_scanFrom_le (rules : WordMap Rule) (keystack : List Word) (rank : Int)
    (passed words : List Word) :
    (scanFrom rules keystack rank passed words).keystack.length ≤
      keystack.length + words.length := by
  fun_induction scanFrom rules keystack rank passed words <;>
    simp only [List.length_cons, List.length_append, List.length_nil] at * <;> omega

/-- A word of the clause is a word of the sentence or what a rule puts in place of one. -/
theorem mem_words_scanFrom (h : w ∈ (scanFrom rules keystack rank passed words).words) :
    w ∈ passed ∨ ∃ v ∈ words, w = v ∨
      ∃ rule, rules.get? v = some rule ∧ rule.substituteFor v = some w := by
  -- What is found behind the first word is found in the whole sentence.
  have hbehind {v : Word} {rest : List Word} (hmem : ∃ u ∈ rest, w = u ∨
      ∃ rule, rules.get? u = some rule ∧ rule.substituteFor u = some w) :
      ∃ u ∈ v :: rest, w = u ∨
        ∃ rule, rules.get? u = some rule ∧ rule.substituteFor u = some w := by
    obtain ⟨u, hu, hw⟩ := hmem
    exact ⟨u, List.mem_cons_of_mem _ hu, hw⟩
  have hpassed {v : Word} {rest passed : List Word} {rule : Rule} (hrule : rules.get? v = some rule)
      (hmem : w ∈ (rule.substituteFor v).getD v :: passed) :
      w ∈ passed ∨ ∃ u ∈ v :: rest, w = u ∨
        ∃ rule, rules.get? u = some rule ∧ rule.substituteFor u = some w := by
    rcases List.mem_cons.mp hmem with rfl | hmem
    · refine .inr ⟨v, List.mem_cons_self, ?_⟩
      cases hsubstitute : rule.substituteFor v with
      | none => exact .inl rfl
      | some other => exact .inr ⟨rule, hrule, hsubstitute⟩
    · exact .inl hmem
  fun_induction scanFrom rules keystack rank passed words with
  | case1 keystack rank passed => exact .inl (List.mem_reverse.mp h)
  | case2 keystack rank passed v rest delimiter empty ih =>
    exact .inr (hbehind ((ih h).resolve_left fun hnil => nomatch hnil))
  | case3 keystack rank passed => exact .inl (List.mem_reverse.mp h)
  | case4 keystack rank passed v rest word unruled ih =>
    rcases ih h with hmem | hmem
    · rcases List.mem_cons.mp hmem with rfl | hmem
      · exact .inr ⟨w, List.mem_cons_self, .inl rfl⟩
      · exact .inl hmem
    · exact .inr (hbehind hmem)
  | case5 keystack rank passed v rest word rule hrule now transforms higher ih =>
    exact (ih h).elim (hpassed hrule) fun hmem => .inr (hbehind hmem)
  | case6 keystack rank passed v rest word rule hrule now transforms lower ih =>
    exact (ih h).elim (hpassed hrule) fun hmem => .inr (hbehind hmem)
  | case7 keystack rank passed v rest word rule hrule now inert ih =>
    exact (ih h).elim (hpassed hrule) fun hmem => .inr (hbehind hmem)

theorem contains_of_mem_keystack_scan (rules : WordMap Rule) (words : List Word) :
    ∀ keyword ∈ (scan rules words).keystack, rules.contains keyword = true := by
  intro keyword h
  rcases mem_keystack_scanFrom h with hnil | ⟨rule, hrule, -⟩
  · cases hnil
  · rw [WordMap.contains, hrule]
    rfl

theorem length_keystack_scan_le (rules : WordMap Rule) (words : List Word) :
    (scan rules words).keystack.length ≤ words.length := by
  have h := length_keystack_scanFrom_le rules [] 0 [] words
  rwa [List.length_nil, Nat.zero_add] at h

end

end Colloquy
