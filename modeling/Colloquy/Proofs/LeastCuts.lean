import Mathlib.Data.List.Lex
import Colloquy.Proofs.JoinedWords
import Colloquy.Proofs.SentenceCuts

/-!
# Least cuts

A sentence can often be cut by a pattern in several ways. Of all cuts the one is taken whose list of span
lengths comes first in lexicographic order, and a pattern does not match exactly when there is no cut
at all.
-/

namespace Colloquy

/-- What an element makes of its span: the words that a wildcard takes as a text, and the word itself
that any other element takes. -/
def Element.part : Element → List Word → Word
  | .wildcard _, span => Words.join span
  | _, span => span.headD []

/-- No other cut of the sentence has span lengths that come before those of this one. -/
structure LeastCut (tags : Tags) (elements : List Element) (words : List Word)
    (result : List (List Word)) : Prop extends Cut tags elements words result where
  least : ∀ other, Cut tags elements words other →
    result.map List.length ≤ other.map List.length

variable {tags : Tags} {elements : List Element} {words : List Word}

/-! ### Cuts and their parts -/

/-- An element that is no wildcard takes one word. -/
theorem Element.exists_of_takes {element : Element} (h : ∀ n, element ≠ .wildcard n)
    {span : List Word} (htakes : element.Takes tags span) :
    ∃ w, span = [w] ∧ element.accepts tags w = true := by
  cases element with
  | wildcard n => exact absurd rfl (h n)
  | literal word => exact htakes
  | anyOf list => exact htakes
  | tagged tag => exact htakes

/-- The part that an element makes is the text of its span. -/
theorem Element.part_eq_join {element : Element} {span : List Word}
    (h : element.Takes tags span) : element.part span = Words.join span := by
  by_cases hwildcard : ∀ n, element ≠ .wildcard n
  · obtain ⟨w, rfl, -⟩ := Element.exists_of_takes hwildcard h
    rw [Words.join_singleton]
    cases element with
    | wildcard n => exact absurd rfl (hwildcard n)
    | literal word => rfl
    | anyOf list => rfl
    | tagged tag => rfl
  · obtain ⟨n, rfl⟩ := not_forall_not.mp hwildcard
    rfl

theorem Cut.zipWith_part {result : List (List Word)} (h : Cut tags elements words result) :
    List.zipWith Element.part elements result = result.map Words.join := by
  have htakes := h.takes
  clear h
  induction htakes with
  | nil => rfl
  | cons hhead htail ih =>
    rw [List.zipWith_cons_cons, List.map_cons, Element.part_eq_join hhead, ih]

/-- A cut begins with a span that the first element takes, and goes on with a cut of what is left. -/
theorem Cut.exists_of_cons {element : Element} {result : List (List Word)}
    (h : Cut tags (element :: elements) words result) :
    ∃ span others rest, result = span :: others ∧ words = span ++ rest ∧
      element.Takes tags span ∧ Cut tags elements rest others := by
  obtain ⟨rfl, htakes⟩ := h
  obtain ⟨span, others, hspan, hothers, rfl⟩ := List.forall₂_cons_left_iff.mp htakes
  exact ⟨span, others, others.flatten, rfl, rfl, hspan, rfl, hothers⟩

theorem Cut.eq_of_lengths {result other : List (List Word)} (h : Cut tags elements words result)
    (hother : Cut tags elements words other)
    (hlengths : result.map List.length = other.map List.length) : result = other :=
  List.eq_iff_flatten_eq.mpr ⟨h.flatten.trans hother.flatten.symm, hlengths⟩

/-! ### The search -/

/-- If what is left behind some span fits, a span is found that is shorter or is that one. -/
theorem exists_shortest {α : Type} {fit : List Word → Option α} {rest : List Word} {fitted : α}
    (h : fit rest = some fitted) (span : List Word) :
    ∃ front found, shortest fit (span ++ rest) = some (front, found) ∧
      (front.length < span.length ∨ front = span ∧ found = fitted) := by
  induction span with
  | nil =>
    refine ⟨[], fitted, ?_, .inr ⟨rfl, rfl⟩⟩
    cases rest <;> simp [shortest, h]
  | cons w span ih =>
    rw [List.cons_append, shortest]
    split
    · rename_i found hfound
      exact ⟨[], found, rfl, .inl (Nat.succ_pos _)⟩
    · obtain ⟨front, found, hshortest, hfront⟩ := ih
      refine ⟨w :: front, found, by rw [hshortest]; rfl, ?_⟩
      rcases hfront with hshorter | ⟨rfl, rfl⟩
      · exact .inl (Nat.succ_lt_succ hshorter)
      · exact .inr ⟨rfl, rfl⟩

/-- A sentence that can be cut is matched, by a cut that does not come behind the given one. -/
theorem exists_spans_of_cut {other : List (List Word)} (h : Cut tags elements words other) :
    ∃ result, spans tags elements words = some result ∧
      result.map List.length ≤ other.map List.length := by
  induction elements generalizing words other with
  | nil =>
    obtain ⟨rfl, htakes⟩ := h
    cases htakes
    exact ⟨[], rfl, le_refl _⟩
  | cons element elements ih =>
    obtain ⟨span, others, rest, rfl, rfl, htakes, hrest⟩ := h.exists_of_cons
    obtain ⟨result, hresult, hle⟩ := ih hrest
    by_cases hwildcard : ∀ n, element ≠ .wildcard n
    · obtain ⟨w, rfl, haccepts⟩ := Element.exists_of_takes hwildcard htakes
      refine ⟨[w] :: result, ?_, List.cons_le_cons _ hle⟩
      rw [spans_cons_of_ne hwildcard]
      simp [haccepts, hresult]
    · obtain ⟨n, rfl⟩ := not_forall_not.mp hwildcard
      cases n with
      | zero =>
        obtain ⟨front, found, hshortest, hfront⟩ := exists_shortest hresult span
        refine ⟨front :: found, by rw [spans, hshortest]; rfl, ?_⟩
        rcases hfront with hshorter | ⟨rfl, rfl⟩
        · exact le_of_lt (.rel hshorter)
        · exact List.cons_le_cons _ hle
      | succ n =>
        have hlength : span.length = n + 1 := htakes
        refine ⟨span :: result, ?_, List.cons_le_cons _ hle⟩
        rw [spans, ← hlength, List.take_left, List.drop_left, hresult]
        simp

/-- A pattern cuts a sentence by the least of its cuts. -/
theorem spans_eq_some_iff {result : List (List Word)} :
    spans tags elements words = some result ↔ LeastCut tags elements words result := by
  constructor
  · intro h
    refine ⟨cut_of_spans h, fun other hother => ?_⟩
    obtain ⟨found, hfound, hle⟩ := exists_spans_of_cut hother
    cases h.symm.trans hfound
    exact hle
  · intro h
    obtain ⟨found, hfound, hle⟩ := exists_spans_of_cut h.toCut
    have hcut := cut_of_spans hfound
    have hlengths := le_antisymm hle (h.least found hcut)
    rw [hfound, hcut.eq_of_lengths h.toCut hlengths]

theorem spans_eq_none_iff :
    spans tags elements words = none ↔ ¬ ∃ result, Cut tags elements words result := by
  constructor
  · rintro h ⟨result, hcut⟩
    obtain ⟨found, hfound, -⟩ := exists_spans_of_cut hcut
    cases h.symm.trans hfound
  · intro h
    exact Option.eq_none_iff_forall_ne_some.mpr fun result hresult => h ⟨result, cut_of_spans hresult⟩

/-- A pattern fails on a sentence exactly if there is no cut. Otherwise it gives the parts of the cut whose
list of span lengths is least: for each element the text of the words that a wildcard takes, or the
word that another element takes. -/
theorem Decomposition.apply_takes_least_cut (d : Decomposition) (tags : Tags) (words : List Word) :
    (d.apply tags words = none ↔ ¬ ∃ cut, Cut tags d.elements words cut) ∧
      ∀ parts, d.apply tags words = some parts ↔
        ∃ cut, LeastCut tags d.elements words cut ∧
          parts = List.zipWith Element.part d.elements cut := by
  refine ⟨Option.map_eq_none_iff.trans spans_eq_none_iff, fun parts => ?_⟩
  constructor
  · intro h
    obtain ⟨cut, hcut, rfl⟩ := Option.map_eq_some_iff.mp h
    have hleast := spans_eq_some_iff.mp hcut
    exact ⟨cut, hleast, hleast.zipWith_part.symm⟩
  · rintro ⟨cut, hleast, rfl⟩
    exact Option.map_eq_some_iff.mpr
      ⟨cut, spans_eq_some_iff.mpr hleast, hleast.zipWith_part.symm⟩

end Colloquy
