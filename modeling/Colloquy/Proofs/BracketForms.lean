import Colloquy.BracketLevels
import Colloquy.Proofs.ScriptTokens

/-!
# Bracketed forms

A form is a number, a symbol or a list whose bracket is closed, without any lines. Grouping the
lexemes of a text by their brackets gives a row of forms that ends with the text exactly when the
tokens of the text are those of the row, so brackets are paired in one way only.
-/

namespace Colloquy

/-- A number, a symbol or a bracketed list of such forms. -/
inductive Form where
  | number (digits : Word)
  | symbol (name : Word)
  | list (forms : List Form)

namespace Form

mutual

def tokens : Form → List Token
  | .number digits => [.number digits]
  | .symbol name => [.symbol name]
  | .list forms => .opening :: (tokensAll forms ++ [.closing])

def tokensAll : List Form → List Token
  | [] => []
  | form :: forms => form.tokens ++ tokensAll forms

end

theorem tokensAll_eq_flatMap (forms : List Form) : tokensAll forms = forms.flatMap tokens := by
  induction forms with
  | nil => rfl
  | cons form forms ih => rw [tokensAll, List.flatMap_cons, ih]

@[simp] theorem tokensAll_append (forms more : List Form) :
    tokensAll (forms ++ more) = tokensAll forms ++ tokensAll more := by
  simp only [tokensAll_eq_flatMap, List.flatMap_append]

def Lexical (form : Form) : Prop :=
  ∀ t ∈ form.tokens, t.Lexical

theorem lexical_number {digits : Word} :
    (number digits).Lexical ↔ Lexemes.IsNumber digits := by
  simp [Lexical, tokens, Token.Lexical]

theorem lexical_symbol {name : Word} : (symbol name).Lexical ↔ Lexemes.IsSymbol name := by
  simp [Lexical, tokens, Token.Lexical]

theorem forall_mem_tokensAll_iff {forms : List Form} :
    (∀ t ∈ tokensAll forms, t.Lexical) ↔ ∀ form ∈ forms, form.Lexical := by
  induction forms with
  | nil => simp [tokensAll]
  | cons form forms ih =>
    rw [List.forall_mem_cons, ← ih, tokensAll]
    simp only [List.mem_append, Lexical]
    grind

theorem lexical_list {forms : List Form} :
    (list forms).Lexical ↔ ∀ form ∈ forms, form.Lexical := by
  rw [← forall_mem_tokensAll_iff, Lexical, tokens]
  simp only [List.forall_mem_cons, List.forall_mem_append, List.not_mem_nil, false_implies,
    implies_true, Token.Lexical, true_and, and_true]

end Form

namespace Ending

def IsBracket (ending : Ending) : Prop :=
  ∃ line, ending = .bracket line

def IsText (ending : Ending) : Prop :=
  ∃ line, ending = .text line

theorem isBracket_bracket (line : Nat) : (Ending.bracket line).IsBracket :=
  ⟨line, rfl⟩

theorem not_isBracket_text (line : Nat) : ¬ (Ending.text line).IsBracket := by
  rintro ⟨_, h⟩
  cases h

def tokens : Ending → List Token
  | .bracket _ => [.closing]
  | .text _ => []

end Ending

namespace Item

mutual

/-- The form of an item, unless a bracket in it is not closed. -/
def form? : Item → Option Form
  | .number digits _ => some (.number digits)
  | .symbol name _ => some (.symbol name)
  | .list items (.bracket _) _ => (forms? items).map .list
  | .list _ (.text _) _ => none

def forms? : List Item → Option (List Form)
  | [] => some []
  | item :: items => do return (← form? item) :: (← forms? items)

end

@[simp] theorem form?_number (digits : Word) (line : Nat) :
    form? (.number digits line) = some (.number digits) := by
  rw [form?]

@[simp] theorem form?_symbol (name : Word) (line : Nat) :
    form? (.symbol name line) = some (.symbol name) := by
  rw [form?]

theorem form?_eq_number {item : Item} {digits : Word} :
    item.form? = some (.number digits) ↔ ∃ line, item = .number digits line := by
  cases item with
  | number _ line => simp [form?]
  | symbol name line => simp [form?]
  | list items ending line => cases ending <;> simp [form?]

theorem form?_eq_symbol {item : Item} {name : Word} :
    item.form? = some (.symbol name) ↔ ∃ line, item = .symbol name line := by
  cases item with
  | number digits line => simp [form?]
  | symbol _ line => simp [form?]
  | list items ending line => cases ending <;> simp [form?]

theorem form?_list {items : List Item} {ending : Ending} {line : Nat} {form : Form} :
    form? (.list items ending line) = some form ↔
      ending.IsBracket ∧ ∃ forms, forms? items = some forms ∧ .list forms = form := by
  cases ending with
  | bracket last => simp [form?, Ending.isBracket_bracket]
  | text last => simp [form?, Ending.not_isBracket_text]

theorem form?_list_eq_list {items : List Item} {ending : Ending} {line : Nat}
    {forms : List Form} :
    form? (.list items ending line) = some (.list forms) ↔
      ending.IsBracket ∧ forms? items = some forms := by
  rw [form?_list]
  constructor
  · rintro ⟨hending, _, hforms, hform⟩
    cases hform
    exact ⟨hending, hforms⟩
  · rintro ⟨hending, hforms⟩
    exact ⟨hending, forms, hforms, rfl⟩

theorem form?_eq_list {item : Item} {forms : List Form} :
    item.form? = some (.list forms) ↔
      ∃ items ending line, item = .list items ending line ∧ ending.IsBracket ∧
        forms? items = some forms := by
  cases item with
  | number digits line => simp [form?]
  | symbol name line => simp [form?]
  | list items ending line =>
    rw [form?_list_eq_list]
    constructor
    · intro h
      exact ⟨items, ending, line, rfl, h⟩
    · rintro ⟨_, _, _, hitem, h⟩
      cases hitem
      exact h

theorem exists_eq_list {item : Item} {form : Form} (h : item.form? = some form)
    (hlist : ∃ forms, form = .list forms) :
    ∃ items ending line, item = .list items ending line := by
  obtain ⟨forms, rfl⟩ := hlist
  obtain ⟨items, ending, line, hitem, -⟩ := form?_eq_list.mp h
  exact ⟨items, ending, line, hitem⟩

@[simp] theorem forms?_nil_eq_some (forms : List Form) : forms? [] = some forms ↔ forms = [] := by
  simp [forms?, eq_comm]

theorem forms?_cons_eq_some {item : Item} {items : List Item} {forms : List Form} :
    forms? (item :: items) = some forms ↔
      ∃ form rest, form? item = some form ∧ forms? items = some rest ∧ forms = form :: rest := by
  simp only [forms?, bind, Option.bind_eq_some_iff, pure, Option.some.injEq]
  grind

theorem forms?_eq_some_nil {items : List Item} : forms? items = some [] ↔ items = [] := by
  cases items with
  | nil => simp
  | cons item items => simp [forms?_cons_eq_some]

theorem forms?_eq_some_cons {items : List Item} {form : Form} {rest : List Form} :
    forms? items = some (form :: rest) ↔
      ∃ item others, items = item :: others ∧ form? item = some form ∧
        forms? others = some rest := by
  cases items with
  | nil => simp
  | cons item items =>
    rw [forms?_cons_eq_some]
    grind

theorem forms?_eq_some_symbol_cons {items : List Item} {name : Word} {forms : List Form} :
    forms? items = some (.symbol name :: forms) ↔
      ∃ line rest, items = .symbol name line :: rest ∧ forms? rest = some forms := by
  rw [forms?_eq_some_cons]
  constructor
  · rintro ⟨item, rest, hitems, hitem, hrest⟩
    obtain ⟨line, rfl⟩ := form?_eq_symbol.mp hitem
    exact ⟨line, rest, hitems, hrest⟩
  · rintro ⟨line, rest, hitems, hrest⟩
    exact ⟨_, rest, hitems, form?_symbol name line, hrest⟩

theorem forms?_append_eq_some {items more : List Item} {forms : List Form} :
    forms? (items ++ more) = some forms ↔
      ∃ front back, forms? items = some front ∧ forms? more = some back ∧
        forms = front ++ back := by
  induction items generalizing forms with
  | nil => simp
  | cons item items ih =>
    simp only [List.cons_append, forms?_cons_eq_some, ih]
    grind

theorem forms?_eq_some_append {items : List Item} {front back : List Form}
    (h : forms? items = some (front ++ back)) :
    ∃ first rest, items = first ++ rest ∧ forms? first = some front ∧ forms? rest = some back := by
  induction front generalizing items with
  | nil => exact ⟨[], items, rfl, rfl, h⟩
  | cons form front ih =>
    rw [List.cons_append, forms?_eq_some_cons] at h
    obtain ⟨item, others, rfl, hitem, hothers⟩ := h
    obtain ⟨first, rest, rfl, hfirst, hrest⟩ := ih hothers
    exact ⟨item :: first, rest, rfl, forms?_cons_eq_some.mpr ⟨_, _, hitem, hfirst, rfl⟩, hrest⟩

mutual

/-- The tokens of an item, without the bracket that is not there. -/
def tokens : Item → List Token
  | .number digits _ => [.number digits]
  | .symbol name _ => [.symbol name]
  | .list items (.bracket _) _ => .opening :: (tokensAll items ++ [.closing])
  | .list items (.text _) _ => .opening :: tokensAll items

def tokensAll : List Item → List Token
  | [] => []
  | item :: items => item.tokens ++ tokensAll items

end

mutual

theorem tokens_of_form? {item : Item} {form : Form} (h : item.form? = some form) :
    item.tokens = form.tokens := by
  match item with
  | .number digits _ => cases h; rfl
  | .symbol name _ => cases h; rfl
  | .list items (.bracket _) _ =>
    obtain ⟨forms, hforms, rfl⟩ := Option.map_eq_some_iff.mp h
    rw [tokens, Form.tokens, tokensAll_of_forms? hforms]
  | .list _ (.text _) _ => cases h

theorem tokensAll_of_forms? {items : List Item} {forms : List Form}
    (h : forms? items = some forms) : tokensAll items = Form.tokensAll forms := by
  match items with
  | [] => cases h; rfl
  | item :: items =>
    obtain ⟨form, rest, hform, hrest, rfl⟩ := forms?_cons_eq_some.mp h
    rw [tokensAll, Form.tokensAll, tokens_of_form? hform, tokensAll_of_forms? hrest]

end

end Item

namespace Level

def tokens (level : Level) : List Token :=
  Item.tokensAll level.items ++ level.ending.tokens

/-- Of the levels from the inside out only the outermost ends with the text. -/
def OutermostEndsWithText : Level → List Level → Prop
  | level, [] => level.ending.IsText
  | level, around :: outer => level.ending.IsBracket ∧ OutermostEndsWithText around outer

variable (lastLine : Nat)

theorem tokens_readAll (lexemes : List Lexeme) :
    let (level, outer) := readAll lastLine lexemes
    level.tokens ++ outer.flatMap tokens = lexemes.map (·.token) := by
  induction lexemes with
  | nil => rfl
  | cons lexeme rest ih =>
    obtain ⟨token, place⟩ := lexeme
    rw [readAll, List.map_cons, ← ih]
    generalize readAll lastLine rest = levels
    obtain ⟨level, outer⟩ := levels
    cases token with
    | number digits => rfl
    | symbol name => rfl
    | closing => rfl
    | opening =>
      obtain ⟨items, ending⟩ := level
      cases ending <;> cases outer <;>
        simp [tokens, cons, Item.tokensAll, Item.tokens, Ending.tokens]

theorem outermostEndsWithText_readAll (lexemes : List Lexeme) :
    OutermostEndsWithText (readAll lastLine lexemes).1 (readAll lastLine lexemes).2 := by
  induction lexemes with
  | nil => exact ⟨lastLine, rfl⟩
  | cons lexeme rest ih =>
    obtain ⟨token, place⟩ := lexeme
    rw [readAll]
    generalize readAll lastLine rest = levels at ih
    obtain ⟨level, outer⟩ := levels
    cases token with
    | number digits => cases outer <;> exact ih
    | symbol name => cases outer <;> exact ih
    | closing => exact ⟨⟨_, rfl⟩, ih⟩
    | opening =>
      cases outer with
      | nil => exact ⟨lastLine, rfl⟩
      | cons around outer => cases outer <;> exact ih.2

def prepend (items : List Item) (level : Level) : Level :=
  ⟨items ++ level.items, level.ending⟩

mutual

/-- The lexemes of a form are read as one item in front of what follows. -/
theorem readAll_form (form : Form) {front : List Lexeme} (back : List Lexeme)
    (h : front.map (·.token) = form.tokens) :
    ∃ item : Item, item.form? = some form ∧
      readAll lastLine (front ++ back) =
        ((readAll lastLine back).1.cons item, (readAll lastLine back).2) := by
  match form with
  | .number digits =>
    obtain ⟨lexeme, rfl, ht⟩ := List.map_eq_singleton_iff.mp h
    exact ⟨.number digits lexeme.place.line, rfl, by rw [List.singleton_append, readAll, ht]⟩
  | .symbol name =>
    obtain ⟨lexeme, rfl, ht⟩ := List.map_eq_singleton_iff.mp h
    exact ⟨.symbol name lexeme.place.line, rfl, by rw [List.singleton_append, readAll, ht]⟩
  | .list forms =>
    obtain ⟨opening, inner, rfl, hopening, hinner⟩ := List.map_eq_cons_iff.mp h
    obtain ⟨inner, last, rfl, hforms, hlast⟩ := List.map_eq_append_iff.mp hinner
    obtain ⟨closing, rfl, hclosing⟩ := List.map_eq_singleton_iff.mp hlast
    obtain ⟨items, hitems, hread⟩ := readAll_forms forms (closing :: back) hforms
    rw [readAll, hclosing] at hread
    refine ⟨.list items (.bracket closing.place.line) opening.place.line, ?_, ?_⟩
    · simp [Item.form?, hitems]
    · rw [List.cons_append, List.append_assoc, List.singleton_append, readAll, hread, hopening]
      simp [prepend]

theorem readAll_forms (forms : List Form) {front : List Lexeme} (back : List Lexeme)
    (h : front.map (·.token) = Form.tokensAll forms) :
    ∃ items, Item.forms? items = some forms ∧
      readAll lastLine (front ++ back) =
        ((readAll lastLine back).1.prepend items, (readAll lastLine back).2) := by
  match forms with
  | [] =>
    rw [Form.tokensAll, List.map_eq_nil_iff] at h
    exact ⟨[], rfl, by rw [h]; rfl⟩
  | form :: forms =>
    obtain ⟨first, others, rfl, hfirst, hothers⟩ := List.map_eq_append_iff.mp h
    obtain ⟨items, hitems, hread⟩ := readAll_forms forms back hothers
    obtain ⟨item, hitem, hreads⟩ := readAll_form form (others ++ back) hfirst
    refine ⟨item :: items, Item.forms?_cons_eq_some.mpr ⟨_, _, hitem, hitems, rfl⟩, ?_⟩
    rw [List.append_assoc, hreads, hread]
    rfl

end

/-- The outermost level of a text is a row of forms that ends with the text exactly when the
tokens of the text are those of the row. -/
theorem forms?_read_iff (text : List Char) (forms : List Form) :
    ((read (Lexemes.read text)).ending.IsText ∧
      Item.forms? (read (Lexemes.read text)).items = some forms) ↔
    Lexemes.tokens text = Form.tokensAll forms := by
  rw [Lexemes.tokens, read]
  generalize Lexemes.read text = lexemes
  have htokens := tokens_readAll lexemes.finish.line lexemes.list
  have hends := outermostEndsWithText_readAll lexemes.finish.line lexemes.list
  constructor
  · rintro ⟨⟨line, hline⟩, hforms⟩
    cases houter : (readAll lexemes.finish.line lexemes.list).2 with
    | nil =>
      dsimp only at htokens
      rw [houter, tokens, hline, Item.tokensAll_of_forms? hforms] at htokens
      simpa [Ending.tokens] using htokens.symm
    | cons around outer =>
      -- With a level around it this one would end with its bracket.
      rw [houter] at hends
      obtain ⟨_, hbracket⟩ := hends.1
      cases hline.symm.trans hbracket
  · intro h
    obtain ⟨items, hitems, hread⟩ := readAll_forms lexemes.finish.line forms [] h
    rw [List.append_nil] at hread
    rw [hread]
    exact ⟨⟨_, rfl⟩, by simpa [prepend, readAll] using hitems⟩

/-- The tokens of a text are those of one row of forms only. -/
theorem forms_eq_of_tokens_eq {text : List Char} {forms others : List Form}
    (h : Lexemes.tokens text = Form.tokensAll forms)
    (hothers : Lexemes.tokens text = Form.tokensAll others) : forms = others := by
  obtain ⟨-, hitems⟩ := (forms?_read_iff text forms).mpr h
  obtain ⟨-, hsame⟩ := (forms?_read_iff text others).mpr hothers
  exact Option.some.inj (hitems.symm.trans hsame)

end Level

end Colloquy
