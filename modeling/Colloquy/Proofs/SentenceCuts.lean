import Mathlib.Data.List.Forall2
import Colloquy.Decomposition

/-!
# Cuts of a sentence

A pattern cuts a sentence into consecutive spans, one for each of its elements: any number of words for
a zero, the given number for another numeral, and one word that it accepts for any other element.
The parts of the sentence are the spans as texts.
-/

namespace Colloquy

/-- The element takes the span of words. -/
def Element.Takes (tags : Tags) : Element → List Word → Prop
  | .wildcard 0, _ => True
  | .wildcard (n + 1), span => span.length = n + 1
  | element, span => ∃ w, span = [w] ∧ element.accepts tags w = true

/-- The spans are the sentence cut into one span for each element. -/
structure Cut (tags : Tags) (elements : List Element) (words : List Word)
    (result : List (List Word)) : Prop where
  flatten : result.flatten = words
  takes : List.Forall₂ (Element.Takes tags) elements result

variable {tags : Tags} {elements : List Element} {words parts : List Word}

theorem Cut.cons {element : Element} {span : List Word} {result : List (List Word)}
    (h : Cut tags elements words result) (htakes : element.Takes tags span) :
    Cut tags (element :: elements) (span ++ words) (span :: result) :=
  ⟨congrArg (span ++ ·) h.flatten, .cons htakes h.takes⟩

theorem shortest_eq_some {α : Type} {fit : List Word → Option α} {span : List Word} {fitted : α}
    (h : shortest fit words = some (span, fitted)) :
    ∃ rest, words = span ++ rest ∧ fit rest = some fitted := by
  induction words generalizing span with
  | nil =>
    obtain ⟨other, hfit, hpair⟩ := Option.map_eq_some_iff.mp h
    cases hpair
    exact ⟨[], rfl, hfit⟩
  | cons w words ih =>
    rw [shortest] at h
    split at h
    · rename_i hfit
      cases h
      exact ⟨w :: words, rfl, hfit⟩
    · obtain ⟨⟨more, other⟩, hmore, hpair⟩ := Option.map_eq_some_iff.mp h
      cases hpair
      obtain ⟨rest, rfl, hfit⟩ := ih hmore
      exact ⟨rest, rfl, hfit⟩

/-- Where the first element takes one word the rest of the pattern takes the words behind it. -/
theorem spans_cons_of_ne {element : Element} (h : ∀ n, element ≠ .wildcard n) :
    spans tags (element :: elements) words =
      match words with
      | [] => none
      | w :: rest =>
        if element.accepts tags w then (spans tags elements rest).map ([w] :: ·) else none := by
  cases element with
  | wildcard n => exact absurd rfl (h n)
  | literal word => cases words <;> rfl
  | anyOf list => cases words <;> rfl
  | tagged tag => cases words <;> rfl

theorem Element.takes_singleton {element : Element} (h : ∀ n, element ≠ .wildcard n) {w : Word}
    (haccepts : element.accepts tags w = true) : element.Takes tags [w] := by
  cases element with
  | wildcard n => exact absurd rfl (h n)
  | literal word => exact ⟨w, rfl, haccepts⟩
  | anyOf list => exact ⟨w, rfl, haccepts⟩
  | tagged tag => exact ⟨w, rfl, haccepts⟩

/-- A pattern that matches a sentence cuts it. -/
theorem cut_of_spans {result : List (List Word)} (h : spans tags elements words = some result) :
    Cut tags elements words result := by
  induction elements generalizing words result with
  | nil =>
    rw [spans] at h
    split at h
    · rename_i hempty
      cases h
      exact ⟨(List.isEmpty_iff.mp hempty).symm, .nil⟩
    · cases h
  | cons element elements ih =>
    by_cases hwildcard : ∀ n, element ≠ .wildcard n
    · rw [spans_cons_of_ne hwildcard] at h
      split at h
      · cases h
      · split at h
        · rename_i w rest haccepts
          obtain ⟨result, hresult, rfl⟩ := Option.map_eq_some_iff.mp h
          exact (ih hresult).cons (Element.takes_singleton hwildcard haccepts)
        · cases h
    · obtain ⟨n, rfl⟩ := not_forall_not.mp hwildcard
      cases n with
      | zero =>
        obtain ⟨⟨span, result⟩, hshortest, rfl⟩ := Option.map_eq_some_iff.mp h
        obtain ⟨rest, rfl, hresult⟩ := shortest_eq_some hshortest
        exact (ih hresult).cons trivial
      | succ n =>
        rw [spans] at h
        split at h
        · rename_i hlength
          obtain ⟨result, hresult, rfl⟩ := Option.map_eq_some_iff.mp h
          have htakes : Element.Takes tags (.wildcard (n + 1)) (words.take (n + 1)) :=
            List.length_take_of_le hlength
          have hcut := (ih hresult).cons htakes
          rwa [List.take_append_drop] at hcut
        · cases h

theorem Decomposition.apply_eq_some {d : Decomposition} (h : d.apply tags words = some parts) :
    ∃ result, Cut tags d.elements words result ∧ parts = result.map Words.join := by
  obtain ⟨result, hspans, rfl⟩ := Option.map_eq_some_iff.mp h
  exact ⟨result, cut_of_spans hspans, rfl⟩

theorem Decomposition.length_of_apply {d : Decomposition} (h : d.apply tags words = some parts) :
    parts.length = d.elements.length := by
  obtain ⟨result, hcut, rfl⟩ := d.apply_eq_some h
  rw [List.length_map]
  exact hcut.takes.length_eq.symm

end Colloquy
