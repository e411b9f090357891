import Colloquy.KeywordRule
import Colloquy.Proofs.JoinedWords

/-!
# Normalized words

The words of inputs are exactly the plain words of coded characters: such words, joined to a text,
are the words of that text again. The keys that a script keeps for rules of its own hold a character
without a code, so no input has them for words.
-/

namespace Colloquy

namespace Words

/-- Words come back from the text that they are joined to exactly if they are plain. -/
theorem split_join_iff {words : List Word} :
    split (join words) = words ↔ ∀ w ∈ words, Plain w := by
  constructor
  · intro h w hw
    rw [← h] at hw
    exact plain_of_mem_split hw
  · exact split_join

end Words

namespace CardCode

/-! ### Coded characters -/

theorem mem_characters_iff {c : Char} : c ∈ characters ↔ isDefined c = true := by
  simp [characters, isDefined]

theorem reduced_of_isDefined {c : Char} (h : isDefined c = true) : reduced c = c := by
  have hall : characters.all (fun d => reduced d == d) = true := by decide
  exact beq_iff_eq.mp (List.all_eq_true.mp hall c (mem_characters_iff.mpr h))

theorem map_reduced_of_isDefined {text : List Char} (h : ∀ c ∈ text, isDefined c = true) :
    text.map reduced = text := by
  induction text with
  | nil => rfl
  | cons c text ih =>
    obtain ⟨hc, htext⟩ := List.forall_mem_cons.mp h
    rw [List.map_cons, reduced_of_isDefined hc, ih htext]

/-! ### The words of inputs -/

/-- A word as inputs have them: plain and made of coded characters. -/
structure Normal (w : Word) : Prop where
  plain : Words.Plain w
  coded : ∀ c ∈ w, isDefined c = true

theorem normal_of_mem_normalize {text : List Char} {w : Word} (h : w ∈ normalize text) :
    Normal w where
  plain := plain_of_mem_normalize h
  coded _ hc := isDefined_of_mem_normalize h hc

theorem normalize_join {words : List Word} (h : ∀ w ∈ words, Normal w) :
    normalize (Words.join words) = words := by
  have hdefined : ∀ c ∈ Words.join words, isDefined c = true := by
    intro c hc
    rcases Words.mem_join hc with rfl | ⟨w, hw, hcw⟩
    · decide
    · exact (h w hw).coded c hcw
  rw [normalize_eq, map_reduced_of_isDefined hdefined]
  exact Words.split_join fun w hw => (h w hw).plain

theorem exists_normalize_iff {words : List Word} :
    (∃ text, normalize text = words) ↔ ∀ w ∈ words, Normal w := by
  constructor
  · rintro ⟨text, rfl⟩ w hw
    exact normal_of_mem_normalize hw
  · intro h
    exact ⟨Words.join words, normalize_join h⟩

theorem Normal.ne_of_mem {w v : Word} (h : Normal w) {c : Char} (hc : c ∈ v)
    (hundefined : isDefined c = false) : w ≠ v := by
  rintro rfl
  have hdefined := h.coded c hc
  simp [hundefined] at hdefined

/-- Every word of an input is plain, is made of coded characters other than the space, and is no key
that a script keeps for a rule of its own; the words joined to a text are the words of that text as
an input. Any list of words comes back from the text that it is joined to exactly if its words are
plain. -/
theorem words_of_inputs_rejoin :
    (∀ text, (∀ w ∈ normalize text, Words.Plain w ∧ (∀ c ∈ w, isDefined c = true ∧ c ≠ ' ') ∧
          w ≠ noneKey ∧ w ≠ memoryKey) ∧
        normalize (Words.join (normalize text)) = normalize text) ∧
      ∀ words, Words.split (Words.join words) = words ↔ ∀ w ∈ words, Words.Plain w := by
  refine ⟨fun text => ⟨fun w hw => ?_, ?_⟩, fun words => Words.split_join_iff⟩
  · have hnormal := normal_of_mem_normalize hw
    have hz : isDefined 'z' = false := by decide
    refine ⟨hnormal.plain, fun c hc => ⟨hnormal.coded c hc, ?_⟩, ?_, ?_⟩
    · rintro rfl
      exact hnormal.plain.space_notMem hc
    · exact hnormal.ne_of_mem (by decide) hz
    · exact hnormal.ne_of_mem (by decide) hz
  · apply normalize_join
    intro w hw
    exact normal_of_mem_normalize hw

theorem words_of_a_greeting_rejoin :
    "DEAR".toList ∈ normalize "Hello, dear?".toList ∧ Words.Plain "DEAR".toList ∧
      "DEAR".toList ≠ noneKey ∧
      normalize (Words.join (normalize "Hello, dear?".toList)) = normalize "Hello, dear?".toList ∧
      Words.split "HELLO , DEAR .".toList = normalize "Hello, dear?".toList := by
  obtain ⟨hinputs, hlists⟩ := words_of_inputs_rejoin
  obtain ⟨hwords, hagain⟩ := hinputs "Hello, dear?".toList
  have hmem : "DEAR".toList ∈ normalize "Hello, dear?".toList := by decide
  have hjoined : Words.join (normalize "Hello, dear?".toList) = "HELLO , DEAR .".toList := by
    decide
  have hsplit := (hlists (normalize "Hello, dear?".toList)).mpr fun w hw => (hwords w hw).1
  obtain ⟨hplain, -, hkey, -⟩ := hwords _ hmem
  exact ⟨hmem, hplain, hkey, hagain, hjoined ▸ hsplit⟩

end CardCode

end Colloquy
