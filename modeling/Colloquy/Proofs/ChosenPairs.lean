import Colloquy.Proofs.MemoryHistory
import Colloquy.Proofs.RegularScripts

/-!
# The pairs that coded sentences choose

The last word of a coded sentence can be packed, and the hash of it is the place of a pair of the
memory rule. So a keyword leaves no memory only if it is not that of the memory rule or if the
pattern of the pair does not match.
-/

namespace Colloquy

open CardCode

namespace MemoryRule

/-- The last word of the sentence is packed as the datum, whose hash is the place of the pair. -/
structure Chooses (m : MemoryRule) (words : List Word) (datum : Nat) (pair : MemoryPair) :
    Prop where
  packed : pack (words.getLast?.getD []) = .ok datum
  place_lt : MiddleSquare.hash datum hashBits < m.pairs.length
  pair_eq : m.pairs[MiddleSquare.hash datum hashBits]? = some pair

variable {m : MemoryRule} {words : List Word} {datum : Nat} {pair : MemoryPair}

theorem exists_chooses (hm : m.pairs.length = pairCount) (hwords : ∀ w ∈ words, IsCoded w) :
    ∃ datum pair, m.Chooses words datum pair := by
  obtain ⟨datum, hdatum⟩ := exists_pack (coded_last hwords)
  have hlt : MiddleSquare.hash datum hashBits < m.pairs.length := by
    rw [hm]
    exact MiddleSquare.hash_lt datum hashBits
  exact ⟨datum, _, hdatum, hlt, List.getElem?_eq_getElem hlt⟩

theorem Chooses.exists_place (h : m.Chooses words datum pair) :
    ∃ place : Fin m.pairs.length, m.choose words = .ok place ∧ m.pairs.get place = pair := by
  obtain ⟨hpacked, hlt, hpair⟩ := h
  refine ⟨⟨_, hlt⟩, ?_, ?_⟩
  · rw [choose, hpacked]
    exact dif_pos hlt
  · rw [List.getElem?_eq_getElem hlt] at hpair
    exact Option.some.inj hpair

/-- An attempt leaves no memory just when the keyword is another one or the pattern of the pair
chosen does not match. -/
theorem Chooses.leaves_nothing_iff (h : m.Chooses words datum pair) {tags : Tags} {keyword : Word}
    {recollection : Recollection} (hmade : m.recollect tags keyword words = .ok recollection) :
    (∀ memory, recollection ≠ .text memory) ↔
      keyword ≠ m.keyword ∨ pair.decomposition.apply tags words = none := by
  obtain ⟨place, hplace, hpair⟩ := h.exists_place
  rw [List.get_eq_getElem] at hpair
  unfold recollect at hmade
  split at hmade
  · rename_i hkeyword
    simp only [hplace, Fin.getElem_fin, hpair] at hmade
    cases hparts : pair.decomposition.apply tags words with
    | none =>
      simp only [hparts] at hmade
      cases hmade
      simp
    | some parts =>
      simp only [hparts] at hmade
      split at hmade
      · cases hmade
      · cases hmade
        simp [hkeyword]
  · rename_i hkeyword
    cases hmade
    simp [hkeyword]

end MemoryRule

/-- On a script that puts only coded words into a sentence, every sentence that a conversation works
on is coded and chooses a pair. An attempt to make a memory, which is made with the sentence at
hand, leaves none just when the keyword is not that of the memory rule or the pattern of that
pair does not match. -/
theorem Session.coded_sentences_choose_pairs {text : List Char} {script : Script}
    {options : Options} {tracer : Tracer} {session : Session}
    (hread : Script.read text = .ok script) (hcoded : script.Coded)
    (hstart : Session.start script options tracer = .ok session) :
    ∃ m, script.memoryRule? = some m ∧ ∀ (said : List (List Char)) (next : List Char),
      (∀ keyword words, .working keyword words ∈ ((session.after said).say next).events →
        (∀ w ∈ words, IsCoded w) ∧ ∃ datum pair, m.Chooses words datum pair ∧
          ∀ recollection, m.recollect script.tags keyword words = .ok recollection →
            ((∀ memory, recollection ≠ .text memory) ↔
              keyword ≠ m.keyword ∨ pair.decomposition.apply script.tags words = none)) ∧
      ∀ before after keyword recollection,
        ((session.after said).say next).events =
            before ++ .recollected keyword recollection :: after →
          ∃ earlier words, before = earlier ++ session.repertoire.attempt keyword words ∧
            m.recollect script.tags keyword words = .ok recollection := by
  have hloaded := Script.loaded_of_read hread
  obtain ⟨rfl, -⟩ := start_eq_ok hstart
  have hm := session.repertoire.memoryRule_eq
  refine ⟨session.repertoire.memoryRule, hm, fun said next => ?_⟩
  obtain ⟨hrepertoire, -⟩ := session.constant_after said
  generalize session.after said = now at hrepertoire ⊢
  have hevents : (now.say next).events =
      (session.repertoire.turn now.options now.state next).events := by
    obtain ⟨_, hsay⟩ := now.exists_say_eq (.inr (hrepertoire ▸ hloaded.writable)) next
    rw [hsay, hrepertoire]
  rw [hevents]
  constructor
  · intro keyword words hworking
    have hwords := Repertoire.coded_of_working hcoded hworking
    obtain ⟨datum, pair, hchooses⟩ := MemoryRule.exists_chooses (hloaded.length_pairs hm) hwords
    exact ⟨hwords, datum, pair, hchooses, fun _ hmade => hchooses.leaves_nothing_iff hmade⟩
  · intro before after keyword recollection hsplit
    have hmem : .recollected keyword recollection ∈
        (session.repertoire.turn now.options now.state next).events :=
      hsplit ▸ List.mem_append_right before List.mem_cons_self
    have hcourse :=
      Repertoire.course_turn now.options (Repertoire.not_recalls_of_mem hmem id (by simp)) .silent
    rw [← session.repertoire.tags_eq]
    exact hcourse.attempt_of_recollected hsplit

theorem Session.rewritten_sentence_chooses_pair :
    ∃ script session,
      Script.read
        ("(HI) (NONE ((0) (OH))) (MY = YOUR ((0 YOUR 0) (PRE (AND YOUR 3) (= IT)))) ".toList ++
          "(IT ((0) (SO 1))) (MEMORY MY (0 = A) (0 = B) (0 = C) (0 = D))".toList) = .ok script ∧
      Session.start script ⟨true, defaultMaxHops⟩ .silent = .ok session ∧
      ∃ m, script.memoryRule? = some m ∧
        ∃ datum pair, m.Chooses ["AND".toList, "YOUR".toList, "DOG".toList] datum pair := by
  refine (Session.exists_start_of_any
    (p := fun session => session.repertoire.script.Coded ∧
      .working "IT".toList ["AND".toList, "YOUR".toList, "DOG".toList] ∈
        ((session.after ["HM".toList]).say "MY DOG".toList).events) ?_).imp fun script =>
    Exists.imp fun session h => ⟨h.1, h.2.1, ?_⟩
  · decide +kernel
  · obtain ⟨hcoded, hworking⟩ := of_decide_eq_true h.2.2
    obtain ⟨rfl, -⟩ := start_eq_ok h.2.1
    obtain ⟨m, hm, hturns⟩ := coded_sentences_choose_pairs h.1 hcoded h.2.1
    obtain ⟨-, datum, pair, hchooses, -⟩ := (hturns _ _).1 _ _ hworking
    exact ⟨m, hm, datum, pair, hchooses⟩

end Colloquy
