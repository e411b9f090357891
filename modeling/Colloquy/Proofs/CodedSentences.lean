import Colloquy.Proofs.KeystackCourse
import Colloquy.Proofs.PackedCells
import Colloquy.Proofs.SentenceCuts
import Colloquy.Proofs.WordLaws

/-!
# Sentences of coded characters

The words of an input are made of coded characters. If this holds of all substitutions of a script and
of all templates that rewrite a sentence too, it holds of every sentence that a turn works on, so
the last word of such a sentence can be packed and chooses a pair of the memory rule.
-/

namespace Colloquy

namespace CardCode

def IsCoded (w : Word) : Prop :=
  ∀ c ∈ w, isDefined c = true

instance (w : Word) : Decidable (IsCoded w) :=
  decidable_of_iff (w.all isDefined = true) List.all_eq_true

theorem exists_pack {w : Word} (h : IsCoded w) : ∃ datum, pack w = .ok datum := by
  cases hpack : pack w with
  | ok datum => exact ⟨datum, rfl⟩
  | error c =>
    obtain ⟨d, hd, hundefined⟩ := exists_pack_eq_error_iff.mp ⟨c, hpack⟩
    have hdefined := h d (List.mem_of_mem_drop hd)
    simp [hundefined] at hdefined

end CardCode

open CardCode

/-! ### Templates -/

theorem coded_join {words : List Word} (h : ∀ w ∈ words, IsCoded w) : IsCoded (Words.join words) := by
  intro c hc
  rcases Words.mem_join hc with rfl | ⟨w, hw, hc⟩
  · decide
  · exact h w hw c hc

theorem coded_of_apply {d : Decomposition} {tags : Tags} {words parts : List Word}
    (hwords : ∀ w ∈ words, IsCoded w) (h : d.apply tags words = some parts) :
    ∀ part ∈ parts, IsCoded part := by
  obtain ⟨spans, hcut, rfl⟩ := d.apply_eq_some h
  refine List.forall_mem_map.mpr fun span hspan => coded_join fun w hw => hwords w ?_
  rw [← hcut.flatten]
  exact List.mem_flatten_of_mem hspan hw

theorem coded_partWords {parts : List Word} (h : ∀ part ∈ parts, IsCoded part) (n : Nat) :
    ∀ w ∈ partWords parts n, IsCoded w := by
  have hmissing : ∀ w ∈ [missingPart], IsCoded w := by decide
  unfold partWords
  split
  · exact hmissing
  · split
    · rename_i part hpart
      intro w hw c hc
      exact h part (List.mem_of_getElem? hpart) c (Words.mem_of_mem_split hw hc)
    · exact hmissing

theorem coded_of_expandTerm {parts words : List Word} {term : Word}
    (hparts : ∀ part ∈ parts, IsCoded part) (hterm : IsCoded term)
    (h : expandTerm parts term = .ok words) : ∀ w ∈ words, IsCoded w := by
  unfold expandTerm at h
  split at h
  · cases h
  · cases h
    exact List.forall_mem_singleton.mpr hterm
  · cases h
    exact coded_partWords hparts _

/-- What a template of coded terms makes of coded parts is coded. -/
theorem coded_of_reassemble {parts terms words : List Word} (hparts : ∀ part ∈ parts, IsCoded part)
    (hterms : ∀ term ∈ terms, IsCoded term) (h : reassemble parts terms = .ok words) :
    ∀ w ∈ words, IsCoded w := by
  induction terms generalizing words with
  | nil =>
    cases h
    exact fun w hw => nomatch hw
  | cons term terms ih =>
    obtain ⟨hterm, hrest⟩ := List.forall_mem_cons.mp hterms
    rw [reassemble] at h
    split at h
    · cases h
    · rename_i front hfront
      cases hmore : reassemble parts terms with
      | error numeral =>
        rw [hmore] at h
        cases h
      | ok more =>
        rw [hmore] at h
        cases h
        exact List.forall_mem_append.mpr
          ⟨coded_of_expandTerm hparts hterm hfront, ih hrest hmore⟩

/-! ### Sentences of a turn -/

/-- The template with which a reassembly rewrites a sentence, if it rewrites one. -/
def Reassembly.rewriting? : Reassembly → Option (List Word)
  | .pre terms _ => some terms
  | .template _ | .newKey | .link _ => none

/-- The words that a rule may put into a sentence: its substitution and the terms of the templates with
which it rewrites one. -/
def Rule.insertions (r : Rule) : List Word :=
  r.substitution.toList ++
    (r.reassemblies.filterMap fun used => used.2.rewriting?).flatten

/-- All words that the rules may put into a sentence are coded. -/
def Script.Coded (s : Script) : Prop :=
  ∀ entry ∈ s.rules.entries, ∀ w ∈ entry.2.insertions, IsCoded w

instance (s : Script) : Decidable s.Coded := by
  unfold Script.Coded
  infer_instance

theorem Script.Coded.of_get? {s : Script} (h : s.Coded) {key : Word} {rule : Rule}
    (hrule : s.rules.get? key = some rule) : ∀ w ∈ rule.insertions, IsCoded w :=
  h _ (WordMap.mem_entries.mpr hrule)

theorem Rule.mem_insertions_of_substituteFor {rule : Rule} {v w : Word}
    (h : rule.substituteFor v = some w) : w ∈ rule.insertions := by
  unfold substituteFor at h
  split at h
  · exact List.mem_append_left _ (Option.mem_toList.mpr (Option.eq_some_of_filter_eq_some h))
  · cases h

/-- A rewritten sentence is what a template of the rule makes of the parts of the sentence. -/
theorem Rule.coded_of_apply {rule : Rule} {tags : Tags} {words rewritten : List Word}
    {cycles : Cycles} {application : Application} {target : Word}
    (hrule : ∀ w ∈ rule.insertions, IsCoded w) (hwords : ∀ w ∈ words, IsCoded w)
    (h : (rule.apply tags words cycles).result = .ok application)
    (houtcome : application.outcome = .link target (some rewritten)) :
    ∀ w ∈ rewritten, IsCoded w := by
  rcases outcome_of_apply h with hnone | ⟨other, -, hother⟩ |
    ⟨decomposition, reassembly, parts, hmem, hparts, hresolve⟩
  · rw [houtcome] at hnone
    cases hnone
  · rw [houtcome] at hother
    cases hother
  · rw [houtcome] at hresolve
    rcases Reassembly.resolve_eq_link hresolve with ⟨-, hnone⟩ | ⟨terms, rewriting, rfl, hsome, hterms⟩
    · cases hnone
    · cases hsome
      refine coded_of_reassemble (Colloquy.coded_of_apply hwords hparts) (fun term hterm => ?_) hterms
      refine hrule term (List.mem_append_right _ (List.mem_flatten.mpr ⟨terms, ?_, hterm⟩))
      exact List.mem_filterMap.mpr ⟨_, hmem, rfl⟩

theorem coded_last {words : List Word} (h : ∀ w ∈ words, IsCoded w) :
    IsCoded (words.getLast?.getD []) := by
  cases hlast : words.getLast? with
  | none => exact fun c hc => nomatch hc
  | some w => exact h w (List.mem_of_getLast? hlast)

/-- A coded sentence has a last word by which a pair can be chosen. -/
theorem MemoryRule.recollect_ne_uncoded (m : MemoryRule) (tags : Tags) (keyword : Word)
    {words : List Word} (hwords : ∀ w ∈ words, IsCoded w) :
    m.recollect tags keyword words ≠ .ok .uncoded := by
  obtain ⟨datum, hdatum⟩ := exists_pack (coded_last hwords)
  intro h
  unfold recollect at h
  split at h
  · split at h
    · rename_i c hchoose
      rw [choose, hdatum] at hchoose
      simp only at hchoose
      split at hchoose <;> cases hchoose
    · cases h
    · split at h
      · cases h
      · split at h <;> cases h
  · cases h

namespace Repertoire

variable {r : Repertoire} (hcoded : r.script.Coded) {clause next : Clause}
include hcoded

theorem Leads.coded (h : r.Leads clause next) (hclause : ∀ w ∈ clause.words, IsCoded w) :
    ∀ w ∈ next.words, IsCoded w := by
  cases h with
  | newKey stored result outcome => exact hclause
  | @link keyword keystack words rule cycles application target rewritten stored result outcome =>
    cases rewritten with
    | none => exact hclause
    | some rewritten => exact Rule.coded_of_apply (hcoded.of_get? stored) hclause result outcome

theorem coded_scan (text : List Char) :
    ∀ w ∈ (scan r.script.rules (CardCode.normalize text)).words, IsCoded w := by
  have hinput : ∀ w ∈ CardCode.normalize text, IsCoded w :=
    fun w hw c hc => isDefined_of_mem_normalize hw hc
  intro w hw
  rcases mem_words_scanFrom hw with hnil | ⟨v, hv, rfl | ⟨rule, hrule, hsubstitute⟩⟩
  · cases hnil
  · exact hinput w hv
  · exact hcoded.of_get? hrule w (Rule.mem_insertions_of_substituteFor hsubstitute)

/-- What a turn tells after it has been opened, it tells at a coded sentence. -/
theorem exists_coded_of_mem_turn {o : Options} {s : State} {text : List Char} {event : Event}
    (h : event ∈ (r.turn o s text).events) (hopened : ¬ event.Opens) :
    ∃ left clause, (∀ w ∈ clause.words, IsCoded w) ∧ r.Tells left clause event :=
  exists_tells_of_mem_turn (fun hleads => hleads.coded hcoded) (coded_scan hcoded text) h hopened

/-- Every sentence that a turn works on is coded. -/
theorem coded_of_working {o : Options} {s : State} {text : List Char} {keyword : Word}
    {words : List Word} (h : .working keyword words ∈ (r.turn o s text).events) :
    ∀ w ∈ words, IsCoded w := by
  obtain ⟨left, clause, hwords, htells⟩ := exists_coded_of_mem_turn hcoded h nofun
  cases htells
  exact hwords

/-- No attempt to make a memory fails for want of a code. -/
theorem uncoded_notMem (o : Options) (s : State) (text : List Char) (keyword : Word) :
    .recollected keyword .uncoded ∉ (r.turn o s text).events := by
  intro h
  obtain ⟨left, clause, hwords, htells⟩ := exists_coded_of_mem_turn hcoded h nofun
  cases htells with
  | recollected made => exact MemoryRule.recollect_ne_uncoded _ _ _ hwords made

end Repertoire

end Colloquy
