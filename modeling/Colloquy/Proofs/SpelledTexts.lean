import Colloquy.ScriptWriter
import Colloquy.Proofs.ScriptGrammar
import Colloquy.Proofs.NumeralLaws

/-!
# Texts that spell tokens

A text spells tokens if these are read from it wherever something follows that ends a symbol. Such
texts may be put one after the other, so what is written piece by piece is read piece by piece.
-/

namespace Colloquy

open Lexemes

/-- The tokens are read from the text, whatever follows that does not belong to its last symbol. -/
def Spells (text : List Char) (spelled : List Token) : Prop :=
  ∀ rest, Breaks rest → tokens (text ++ rest) = spelled ++ tokens rest

theorem breaks_nil : Breaks [] := by
  simp [Breaks]

theorem Lexemes.Breaks.append {text rest : List Char} (h : Breaks text) (hrest : Breaks rest) :
    Breaks (text ++ rest) := by
  cases text with
  | nil => exact hrest
  | cons c text => exact h

theorem breaks_flatMap {α : Type} {f : α → List Char} {l : List α} (h : ∀ a ∈ l, Breaks (f a)) :
    Breaks (l.flatMap f) := by
  induction l with
  | nil => exact breaks_nil
  | cons a l ih =>
    obtain ⟨ha, hl⟩ := List.forall_mem_cons.mp h
    exact ha.append (ih hl)

namespace Spells

variable {text more : List Char} {spelled others : List Token}

theorem tokens_eq (h : Spells text spelled) : tokens text = spelled := by
  simpa using h [] breaks_nil

theorem nil : Spells [] [] := by
  intro rest _
  rfl

theorem append (h : Spells text spelled) (hmore : Spells more others) (hbreaks : Breaks more) :
    Spells (text ++ more) (spelled ++ others) := by
  intro rest hrest
  rw [List.append_assoc, h _ (hbreaks.append hrest), hmore rest hrest, List.append_assoc]

theorem opening (h : Spells text spelled) : Spells ('(' :: text) (.opening :: spelled) := by
  intro rest hrest
  rw [List.cons_append, tokens_opening, h rest hrest, List.cons_append]

theorem space (h : Spells text spelled) : Spells (' ' :: text) spelled := by
  intro rest hrest
  rw [List.cons_append, tokens_space, h rest hrest]

theorem newline (h : Spells text spelled) : Spells ('\n' :: text) spelled := by
  intro rest hrest
  rw [List.cons_append, tokens_newline, h rest hrest]

theorem closing : Spells [')'] [.closing] := by
  intro rest _
  exact tokens_closing rest

theorem symbol {w : Word} (h : IsSymbol w) : Spells w [.symbol w] := by
  intro rest hrest
  exact tokens_symbol h hrest

theorem closingLine : Spells [')', '\n'] [.closing] :=
  closing.append nil.newline (breaks_cons _ rfl)

theorem equals : Spells ScriptReader.equalsWord [.symbol ScriptReader.equalsWord] :=
  symbol (isSymbol_of_all (by decide) (by decide))

theorem number {w : Word} (h : IsNumber w) : Spells w [.number w] := by
  intro rest hrest
  exact tokens_number h fun c hc => isDigit_of_endsSymbol (hrest c hc)

theorem spaces (h : Spells text spelled) (n : Nat) :
    Spells (List.replicate n ' ' ++ text) spelled := by
  induction n with
  | zero => exact h
  | succ n ih => exact ih.space

theorem newLine (h : Spells text spelled) (n : Nat) :
    Spells (ScriptWriter.newLine n ++ text) spelled :=
  (h.spaces n).newline

variable {α : Type} (word : α → Word) (spelling : α → List Token)

theorem intercalate {l : List α} (h : ∀ a ∈ l, Spells (word a) (spelling a)) :
    Spells ([' '].intercalate (l.map word)) (l.flatMap spelling) := by
  induction l with
  | nil => exact nil
  | cons a l ih =>
    obtain ⟨ha, hl⟩ := List.forall_mem_cons.mp h
    cases l with
    | nil => simpa using ha
    | cons b l =>
      have hrest := (ih hl).space
      rw [List.map_cons, List.map_cons, List.intercalate_cons_cons, List.append_assoc]
      exact ha.append hrest (breaks_cons _ rfl)

/-- A text of words, none of them empty. -/
theorem join {l : List α} (h : ∀ a ∈ l, word a ≠ [] ∧ Spells (word a) (spelling a)) :
    Spells (Words.join (l.map word)) (l.flatMap spelling) := by
  have hwords : (l.map word).filter (fun w => !w.isEmpty) = l.map word := by
    rw [List.filter_eq_self, List.forall_mem_map]
    intro a ha
    simpa using (h a ha).1
  rw [Words.join, hwords]
  exact intercalate word spelling fun a ha => (h a ha).2

end Spells

/-! ### Members of lists -/

namespace ScriptGrammar

open ScriptReader ScriptWriter

theorem spells_member {m : Member} (h : m.form.Lexical) :
    m.word ≠ [] ∧ Spells m.word m.form.tokens := by
  cases m with
  | symbol name =>
    have hname := Form.lexical_symbol.mp h
    exact ⟨hname.ne_nil, Spells.symbol hname⟩
  | number digits =>
    have hdigits := Form.lexical_number.mp h
    exact ⟨hdigits.ne_nil, Spells.number hdigits⟩
  | group names =>
    refine ⟨List.cons_ne_nil _ _, ?_⟩
    have hnames := Member.lexical_group.mp h
    have hinner := Spells.intercalate id (fun name => [Token.symbol name])
      fun name hname => Spells.symbol (hnames name hname)
    rw [List.map_id] at hinner
    rw [Member.form, Form.tokens, Form.tokensAll_eq_flatMap, List.flatMap_map]
    exact (hinner.append Spells.closing (breaks_cons _ rfl)).opening

theorem spells_members {members : List Member} (h : ∀ m ∈ members, m.form.Lexical) :
    Spells (Words.join (listWords members)) (Form.tokensAll (members.map Member.form)) := by
  rw [Form.tokensAll_eq_flatMap, List.flatMap_map]
  exact Spells.join Member.word _ fun m hm => spells_member (h m hm)

theorem spells_bracketed {members : List Member} (h : (listForm members).Lexical) :
    Spells (bracketed (listWords members)) (listForm members).tokens := by
  have hmembers := spells_members (lexical_listForm.mp h)
  exact (hmembers.append Spells.closing (breaks_cons _ rfl)).opening

end ScriptGrammar

end Colloquy
