import Colloquy.Proofs.ConversationSafety
import Colloquy.Proofs.TurnCourse

/-!
# The templates that a turn fills

A turn fills templates of its script only, each with the parts into which the pattern that goes with it
cuts a sentence of the turn. So on a script without numerals that are too long every turn gives an
answer.
-/

namespace Colloquy

open Numerals

/-- The templates of a rule, each with the pattern whose parts it is filled with. -/
def Rule.fillings (r : Rule) : List (Decomposition × List Word) :=
  match r.body with
  | .substitution | .tag | .link _ => []
  | .pre decomposition terms _ => [(decomposition, terms)]
  | .transform ts _ =>
    ts.flatMap fun t => (t.reassemblies.filterMap Reassembly.template?).map (t.decomposition, ·)
  | .memory pairs => pairs.map fun pair => (pair.decomposition, pair.template)

def Script.fillings (s : Script) : List (Decomposition × List Word) :=
  s.rules.entries.flatMap fun entry => entry.2.fillings

/-- No numeral in a template of the script has too many digits. -/
def Script.Fillable (s : Script) : Prop :=
  ∀ filling ∈ s.fillings, ∀ term ∈ filling.2, isNumeral term = true → term.length ≤ digitLimit

instance (s : Script) : Decidable s.Fillable := by
  unfold Script.Fillable
  infer_instance

theorem Script.mem_fillings {s : Script} {key : Word} {rule : Rule}
    (hrule : s.rules.get? key = some rule) {filling : Decomposition × List Word}
    (h : filling ∈ rule.fillings) : filling ∈ s.fillings :=
  List.mem_flatMap.mpr ⟨(key, rule), WordMap.mem_entries.mpr hrule, h⟩

/-- The sentence is cut by the pattern into the parts that the template is filled with. -/
def FilledFrom (tags : Tags) (words : List Word) (fillings : List (Decomposition × List Word))
    (parts template : List Word) : Prop :=
  ∃ decomposition, (decomposition, template) ∈ fillings ∧
    decomposition.apply tags words = some parts

/-! ### Rules -/

theorem mem_of_itemAt? {α : Type} {items : List α} {place : Int} {item : α}
    (h : itemAt? items place = some item) : item ∈ items := by
  unfold itemAt? at h
  split at h
  · exact List.mem_of_getElem? h
  · split at h
    · exact List.mem_of_getElem? h
    · cases h

theorem Rule.exists_reassembly_of_template {key : CycleKey} {t : Transformation}
    {parts template : List Word} {cycles : Cycles}
    (h : (applyTransformation key t parts cycles).template = some template) :
    ∃ reassembly ∈ t.reassemblies, reassembly.template? = some template := by
  unfold applyTransformation at h
  split at h
  · cases h
  · obtain ⟨reassembly, hchosen, htemplate⟩ := Option.bind_eq_some_iff.mp h
    exact ⟨reassembly, mem_of_itemAt? hchosen, htemplate⟩

/-- A rule that is applied to a sentence fills no templates but its own. -/
theorem Rule.filledFrom_of_apply {rule : Rule} {tags : Tags} {words template : List Word}
    {cycles : Cycles} (h : (rule.apply tags words cycles).template = some template) :
    ∃ parts, FilledFrom tags words rule.fillings parts template := by
  unfold Rule.apply at h
  split at h
  · cases h
  · cases h
  · cases h
  · cases h
  · rename_i decomposition terms target hbody
    have hfilling : (decomposition, terms) ∈ rule.fillings := by simp [fillings, hbody]
    split at h
    · cases h
    · rename_i parts hparts
      split at h <;> cases h
      · exact ⟨parts, decomposition, hfilling, hparts⟩
      · exact ⟨parts, decomposition, hfilling, hparts⟩
  · rename_i ts link hbody
    split at h
    · rename_i index t parts hmatch
      obtain ⟨reassembly, hreassembly, htemplate⟩ := exists_reassembly_of_template h
      obtain ⟨place, -, ht⟩ := firstMatch_eq_some hmatch
      refine ⟨parts, t.decomposition, ?_, apply_of_firstMatch hmatch⟩
      rw [fillings, hbody]
      refine List.mem_flatMap.mpr ⟨t, List.mem_of_getElem? ht, List.mem_map.mpr ⟨template, ?_, rfl⟩⟩
      exact List.mem_filterMap.mpr ⟨reassembly, hreassembly, htemplate⟩
    · split at h <;> cases h

def MemoryRule.fillings (m : MemoryRule) : List (Decomposition × List Word) :=
  m.pairs.map fun pair => (pair.decomposition, pair.template)

theorem MemoryRule.filledFrom_of_template? {m : MemoryRule} {tags : Tags} {keyword : Word}
    {words template : List Word} (h : m.template? tags keyword words = some template) :
    ∃ parts, FilledFrom tags words m.fillings parts template := by
  unfold template? at h
  split at h
  · split at h
    · cases h
    · rename_i place hplace
      obtain ⟨parts, hparts, rfl⟩ := Option.map_eq_some_iff.mp h
      exact ⟨parts, _, List.mem_map_of_mem (List.getElem_mem place.isLt), hparts⟩
  · cases h

theorem Script.mem_fillings_of_memoryRule? {s : Script} {m : MemoryRule}
    (hm : s.memoryRule? = some m) {filling : Decomposition × List Word}
    (h : filling ∈ m.fillings) : filling ∈ s.fillings := by
  obtain ⟨rule, hrule, hrest⟩ := Option.bind_eq_some_iff.mp hm
  refine Script.mem_fillings hrule ?_
  unfold Rule.memory? at hrest
  split at hrest
  · rename_i pairs hbody
    cases hrest
    rw [Rule.fillings, hbody]
    exact h
  · cases hrest

/-! ### Turns -/

/-- Among the events of a turn, the template is filled with the parts of the sentence to which a rule is
applied, or of that from which a memory is made. -/
inductive Repertoire.Fills (r : Repertoire) (events : List Event) (parts template : List Word) :
    Prop where
  | rule {rule : Rule} {words : List Word} (applied : .applying rule words ∈ events)
      (filled : FilledFrom r.tags words rule.fillings parts template)
  | memory {keyword : Word} {words : List Word} (worked : .working keyword words ∈ events)
      (filled : FilledFrom r.tags words r.memoryRule.fillings parts template)

namespace Repertoire

variable {r : Repertoire} {s : State} {t : Turn} {parts template : List Word}

theorem Fills.mono {events more : List Event} (h : r.Fills events parts template)
    (hsubset : events ⊆ more) : r.Fills more parts template := by
  cases h with
  | rule applied filled => exact .rule (hsubset applied) filled
  | memory worked filled => exact .memory (hsubset worked) filled

theorem fills_of_attempt {keyword : Word} {words : List Word}
    (h : .reassembling template ∈ r.attempt keyword words) :
    ∃ parts, r.Fills (r.attempt keyword words) parts template := by
  rcases List.mem_cons.mp h with h | h
  · cases h
  · obtain ⟨filled, hfilled, heq⟩ := List.mem_map.mp h
    cases heq
    obtain ⟨parts, hparts⟩ :=
      MemoryRule.filledFrom_of_template? (Option.mem_toList.mp hfilled)
    exact ⟨parts, .memory List.mem_cons_self hparts⟩

theorem fills_of_applied {rule : Rule} {words : List Word} {cycles : Cycles}
    (h : .reassembling template ∈ (rule.apply r.tags words cycles).events rule words) :
    ∃ parts, r.Fills ((rule.apply r.tags words cycles).events rule words) parts template := by
  rcases List.mem_cons.mp h with h | h
  · cases h
  · rcases List.mem_append.mp h with h | h
    · obtain ⟨selection, -, heq⟩ := List.mem_map.mp h
      cases heq
    · obtain ⟨filled, hfilled, heq⟩ := List.mem_map.mp h
      cases heq
      obtain ⟨parts, hparts⟩ := Rule.filledFrom_of_apply (Option.mem_toList.mp hfilled)
      exact ⟨parts, .rule List.mem_cons_self hparts⟩

/-- Every template that is filled on a course is filled with parts of a sentence of that course. -/
theorem Course.exists_fills (h : r.Course s t) (hmem : .reassembling template ∈ t.events) :
    ∃ parts, r.Fills t.events parts template := by
  -- What is filled in one part of the events is filled in all of them.
  have hpart {events more : List Event}
      (hfills : ∃ parts, r.Fills events parts template) (hsubset : events ⊆ more) :
      ∃ parts, r.Fills more parts template :=
    hfills.imp fun parts hfills => hfills.mono hsubset
  induction h with
  | answer reply => cases hmem
  | untold numeral => cases hmem
  | @tell s t event quiet rest ih =>
    rcases List.mem_append.mp hmem with hmem | hmem
    · cases List.mem_singleton.mp hmem
      exact quiet.elim
    · exact hpart (ih hmem) (List.subset_append_right _ _)
  | recollect made rest ih =>
    rw [Turn.events_after, List.append_assoc] at hmem ⊢
    rcases List.mem_append.mp hmem with hmem | hmem
    · exact hpart (fills_of_attempt hmem) (List.subset_append_left _ _)
    · rcases List.mem_append.mp hmem with hmem | hmem
      · cases List.mem_singleton.mp hmem
      · refine hpart (ih hmem) ?_
        exact List.subset_append_of_subset_right _ (List.subset_append_right _ _)
  | recollectFault failed =>
    simp only [Turn.events_after, Turn.fail, List.append_nil] at hmem ⊢
    exact fills_of_attempt hmem
  | @apply s t key rule words application event stored result told rest ih =>
    rw [Turn.events_after, List.append_assoc] at hmem ⊢
    rcases List.mem_append.mp hmem with hmem | hmem
    · exact hpart (fills_of_applied hmem) (List.subset_append_left _ _)
    · rcases List.mem_append.mp hmem with hmem | hmem
      · rcases told with rfl | rfl <;> cases List.mem_singleton.mp hmem
      · refine hpart (ih hmem) ?_
        exact List.subset_append_of_subset_right _ (List.subset_append_right _ _)
  | applyFault stored result =>
    simp only [Turn.events_after, Turn.fail, List.append_nil] at hmem ⊢
    exact fills_of_applied hmem

theorem exists_fills_of_reassembling {o : Options} {text : List Char}
    (h : .reassembling template ∈ (r.turn o s text).events) :
    ∃ parts, r.Fills (r.turn o s text).events parts template :=
  (course_turn o (not_recalls_of_mem h id nofun) .silent).exists_fills h

theorem exists_key_of_applying {o : Options} {text : List Char} {rule : Rule} {words : List Word}
    (h : .applying rule words ∈ (r.turn o s text).events) :
    ∃ key, r.script.rules.get? key = some rule := by
  obtain ⟨before, after, hsplit⟩ := List.append_of_mem h
  have hcourse := course_turn o (not_recalls_of_mem h id nofun) .silent
  obtain ⟨key, -, -, hrule, -⟩ := hcourse.course_to_applying hsplit
  exact ⟨key, hrule⟩

/-- What a turn fills is a template of the script, with the parts of the pattern that goes with it. -/
theorem filledFrom_of_fills {o : Options} {text : List Char}
    (h : r.Fills (r.turn o s text).events parts template) :
    ∃ words, FilledFrom r.tags words r.script.fillings parts template := by
  cases h with
  | rule applied filled =>
    obtain ⟨key, hrule⟩ := exists_key_of_applying applied
    obtain ⟨decomposition, hfilling, hparts⟩ := filled
    exact ⟨_, decomposition, Script.mem_fillings hrule hfilling, hparts⟩
  | memory worked filled =>
    obtain ⟨decomposition, hfilling, hparts⟩ := filled
    exact ⟨_, decomposition, Script.mem_fillings_of_memoryRule? r.memoryRule_eq hfilling, hparts⟩

end Repertoire

/-- Every turn of a conversation gives an answer if no numeral in a template is too long. -/
theorem Session.Sound.exists_reply {script : Script} (hs : script.Steady)
    (hfillable : script.Fillable) {session : Session} (h : session.Sound script)
    (text : List Char) : ∃ reply, (session.say text).reply = .ok reply := by
  obtain ⟨rfl, hundisturbed, -, hpointers⟩ := h
  have hreply := (Repertoire.safe_turn hs session.options hpointers text).reply
  obtain ⟨_, hsay⟩ := session.exists_say_eq hundisturbed text
  rw [hsay]
  cases hanswer : (session.repertoire.turn session.options session.state text).reply with
  | ok reply => exact ⟨reply, rfl⟩
  | error fault =>
    obtain ⟨numeral, template, -, hevent, -, term, hterm, hnumeral, hlength⟩ :=
      hreply fault hanswer
    obtain ⟨parts, hfills⟩ := Repertoire.exists_fills_of_reassembling hevent
    obtain ⟨words, decomposition, hfilling, -⟩ := Repertoire.filledFrom_of_fills hfills
    have hshort := hfillable _ hfilling term hterm hnumeral
    have hlong := numeral.exceeds
    omega

end Colloquy
