import Colloquy.ScriptLexemes

/-!
# The tokens of a text

Tokens are lexemes without their places. Every token that is read has the shape of its kind, and
a word of that shape is read back as one token where something that ends it follows. Blanks
between tokens leave no trace.
-/

namespace Colloquy

namespace Lexemes

structure IsNumber (w : Word) : Prop where
  ne_nil : w ≠ []
  isDigit : ∀ c ∈ w, c.isDigit = true

/-- The characters of a word belong together in a symbol. -/
def Unbroken (w : Word) : Prop :=
  ∀ c ∈ w, endsSymbol c = false

structure IsSymbol (w : Word) : Prop where
  ne_nil : w ≠ []
  head : ∀ c, w.head? = some c → c.isDigit = false
  unbroken : Unbroken w

/-- A word of capital letters, say, is a symbol by this test. -/
theorem isSymbol_of_all {w : Word} (hhead : w.head?.any (fun c => !c.isDigit) = true)
    (hall : w.all (fun c => !endsSymbol c) = true) : IsSymbol w := by
  cases w with
  | nil => cases hhead
  | cons c w =>
    refine ⟨List.cons_ne_nil _ _, by simpa using hhead, fun x hx => ?_⟩
    simpa using List.all_eq_true.mp hall x hx

end Lexemes

/-- The word of the token has the shape of its kind. -/
def Token.Lexical : Token → Prop
  | .opening | .closing => True
  | .number digits => Lexemes.IsNumber digits
  | .symbol name => Lexemes.IsSymbol name

namespace Lexemes

def tokensFrom (mode : Mode) : List Char → List Token
  | [] => mode.token?.toList
  | c :: cs =>
    if mode.continues c then tokensFrom (mode.push c) cs
    else mode.token?.toList ++ ((bracket? c).toList ++ tokensFrom (.start c) cs)

def tokens (text : List Char) : List Token :=
  (read text).list.map (·.token)

private theorem tokens_emit (token : Option Token) (place : Place) (rest : Lexemes) :
    (emit token place rest).list.map (·.token) = token.toList ++ rest.list.map (·.token) := by
  cases token <;> rfl

theorem tokens_readFrom (mode : Mode) (place : Place) (cs : List Char) :
    (readFrom mode place cs).list.map (·.token) = tokensFrom mode cs := by
  induction cs generalizing mode place with
  | nil => simp [readFrom, tokensFrom, tokens_emit]
  | cons c cs ih =>
    rw [readFrom, tokensFrom]
    split
    · exact ih _ _
    · simp only [tokens_emit, ih]

theorem tokens_eq (text : List Char) : tokens text = tokensFrom (.gap false) text :=
  tokens_readFrom _ _ _

/-! ### Characters -/

theorem isDigit_of_endsSymbol {c : Char} (h : endsSymbol c = true) : c.isDigit = false := by
  simp only [endsSymbol, isBlank, Bool.or_eq_true, beq_iff_eq, decide_eq_true_eq] at h
  rcases h with ((rfl | rfl) | rfl) | h | rfl
  · decide
  · decide
  · decide
  · have hc : c.val.toNat ≤ 32 := h
    have hd : ¬ 48 ≤ c.val.toNat := by omega
    simp only [Char.isDigit, Bool.and_eq_false_iff, decide_eq_false_iff_not]
    exact .inl hd
  · decide

theorem endsSymbol_of_isDigit {c : Char} (h : c.isDigit = true) : endsSymbol c = false := by
  cases he : endsSymbol c with
  | false => rfl
  | true => exact absurd h (by simp [isDigit_of_endsSymbol he])

/-! ### Tokens have the shape of their kind -/

/-- What a mode holds is a token of its kind if nothing follows. -/
def Mode.Holds : Mode → Prop
  | .gap _ | .comment => True
  | .number pending => IsNumber pending.reverse
  | .symbol pending => IsSymbol pending.reverse

theorem Mode.Holds.lexical {mode : Mode} (h : mode.Holds) :
    ∀ t ∈ mode.token?.toList, t.Lexical := by
  cases mode <;> simp_all [Mode.Holds, Mode.token?, Token.Lexical]

theorem Mode.holds_start (c : Char) : (Mode.start c).Holds := by
  unfold Mode.start
  split
  · trivial
  · rename_i hgap
    simp only [Bool.or_eq_true, beq_iff_eq, not_or] at hgap
    split
    · trivial
    · rename_i hcomment
      split
      · rename_i hdigit
        exact ⟨by simp, by simpa using hdigit⟩
      · rename_i hdigit
        refine ⟨by simp, by simpa using hdigit, ?_⟩
        simpa [Unbroken, endsSymbol, hgap] using hcomment

theorem Mode.Holds.push {mode : Mode} (h : mode.Holds) {c : Char}
    (hc : mode.continues c = true) : (mode.push c).Holds := by
  cases mode with
  | gap => trivial
  | comment => trivial
  | number pending =>
    refine ⟨by simp, fun x hx => ?_⟩
    rcases List.mem_cons.mp (List.mem_reverse.mp hx) with rfl | hx
    · exact hc
    · exact h.isDigit x (List.mem_reverse.mpr hx)
  | symbol pending =>
    refine ⟨by simp, fun x hx => h.head x ?_, fun x hx => ?_⟩
    · cases hr : pending.reverse with
      | nil => exact absurd hr h.ne_nil
      | cons y ys => simpa [hr] using hx
    · rcases List.mem_cons.mp (List.mem_reverse.mp hx) with rfl | hx
      · simpa [Mode.continues] using hc
      · exact h.unbroken x (List.mem_reverse.mpr hx)

theorem lexical_of_mem_tokensFrom {mode : Mode} (h : mode.Holds) (cs : List Char) :
    ∀ t ∈ tokensFrom mode cs, t.Lexical := by
  induction cs generalizing mode with
  | nil => exact h.lexical
  | cons c cs ih =>
    rw [tokensFrom]
    split
    · rename_i hc
      exact ih (h.push hc)
    · intro t ht
      simp only [List.mem_append] at ht
      rcases ht with ht | ht | ht
      · exact h.lexical t ht
      · unfold bracket? at ht
        split at ht
        · simp_all [Token.Lexical]
        · split at ht <;> simp_all [Token.Lexical]
      · exact ih (Mode.holds_start c) t ht

theorem lexical_of_mem_tokens {text : List Char} : ∀ t ∈ tokens text, t.Lexical := by
  rw [tokens_eq]
  have h : (Mode.gap false).Holds := trivial
  exact lexical_of_mem_tokensFrom h text

/-! ### Reading what has been written -/

/-- What follows ends a symbol, or nothing follows. -/
def Breaks (rest : List Char) : Prop :=
  ∀ c, rest.head? = some c → endsSymbol c = true

theorem breaks_cons {c : Char} (rest : List Char) (h : endsSymbol c = true) :
    Breaks (c :: rest) := by
  simpa [Breaks] using h

private theorem tokensFrom_gap (afterReturn : Bool) (cs : List Char) :
    tokensFrom (.gap afterReturn) cs = tokens cs := by
  rw [tokens_eq]
  cases cs <;> rfl

/-- A mode that the next character does not continue gives its token. -/
private theorem tokensFrom_of_not_continues {mode : Mode} {cs : List Char}
    (h : ∀ c, cs.head? = some c → mode.continues c = false) :
    tokensFrom mode cs = mode.token?.toList ++ tokens cs := by
  rw [tokens_eq]
  cases cs with
  | nil => simp [tokensFrom, Mode.token?]
  | cons c cs =>
    have hc : mode.continues c = false := h c rfl
    rw [tokensFrom, if_neg (by simp [hc])]
    rfl

private theorem tokensFrom_number {w rest : List Char} (hw : ∀ c ∈ w, c.isDigit = true)
    (hr : ∀ c, rest.head? = some c → c.isDigit = false) (pending : List Char) :
    tokensFrom (.number pending) (w ++ rest) =
      .number (pending.reverse ++ w) :: tokens rest := by
  induction w generalizing pending with
  | nil =>
    have h : ∀ c, rest.head? = some c → (Mode.number pending).continues c = false := hr
    simpa [Mode.token?] using tokensFrom_of_not_continues h
  | cons c w ih =>
    have hc : c.isDigit = true := hw c List.mem_cons_self
    have h := ih (fun x hx => hw x (List.mem_cons_of_mem _ hx)) (c :: pending)
    simpa [tokensFrom, Mode.continues, Mode.push, hc] using h

private theorem tokensFrom_symbol {w rest : List Char} (hw : Unbroken w) (hr : Breaks rest)
    (pending : List Char) :
    tokensFrom (.symbol pending) (w ++ rest) =
      .symbol (pending.reverse ++ w) :: tokens rest := by
  induction w generalizing pending with
  | nil =>
    have h : ∀ c, rest.head? = some c → (Mode.symbol pending).continues c = false :=
      fun c hc => by simp [Mode.continues, hr c hc]
    simpa [Mode.token?] using tokensFrom_of_not_continues h
  | cons c w ih =>
    have hc : endsSymbol c = false := hw c List.mem_cons_self
    have h := ih (fun x hx => hw x (List.mem_cons_of_mem _ hx)) (c :: pending)
    simpa [tokensFrom, Mode.continues, Mode.push, hc] using h

@[simp] theorem tokens_nil : tokens [] = [] := rfl

@[simp] theorem tokens_opening (cs : List Char) : tokens ('(' :: cs) = .opening :: tokens cs := by
  rw [tokens_eq]
  exact congrArg (Token.opening :: ·) (tokensFrom_gap false cs)

@[simp] theorem tokens_closing (cs : List Char) : tokens (')' :: cs) = .closing :: tokens cs := by
  rw [tokens_eq]
  exact congrArg (Token.closing :: ·) (tokensFrom_gap false cs)

@[simp] theorem tokens_space (cs : List Char) : tokens (' ' :: cs) = tokens cs := by
  rw [tokens_eq]
  exact tokensFrom_gap false cs

@[simp] theorem tokens_newline (cs : List Char) : tokens ('\n' :: cs) = tokens cs := by
  rw [tokens_eq]
  exact tokensFrom_gap false cs

theorem tokens_number {w rest : List Char} (hw : IsNumber w)
    (hr : ∀ c, rest.head? = some c → c.isDigit = false) :
    tokens (w ++ rest) = .number w :: tokens rest := by
  obtain ⟨hne, hdigits⟩ := hw
  cases w with
  | nil => exact absurd rfl hne
  | cons c w =>
    have hc : c.isDigit = true := hdigits c List.mem_cons_self
    have he : endsSymbol c = false := endsSymbol_of_isDigit hc
    simp only [endsSymbol, Bool.or_eq_false_iff, beq_eq_false_iff_ne] at he
    have h := tokensFrom_number (fun x hx => hdigits x (List.mem_cons_of_mem _ hx)) hr [c]
    rw [tokens_eq]
    simpa [tokensFrom, Mode.continues, Mode.token?, Mode.start, bracket?, he, hc] using h

theorem tokens_symbol {w rest : List Char} (hw : IsSymbol w) (hr : Breaks rest) :
    tokens (w ++ rest) = .symbol w :: tokens rest := by
  obtain ⟨hne, hhead, hunbroken⟩ := hw
  cases w with
  | nil => exact absurd rfl hne
  | cons c w =>
    have hc : c.isDigit = false := hhead c rfl
    have he : endsSymbol c = false := hunbroken c List.mem_cons_self
    simp only [endsSymbol, Bool.or_eq_false_iff, beq_eq_false_iff_ne] at he
    have h := tokensFrom_symbol (fun x hx => hunbroken x (List.mem_cons_of_mem _ hx)) hr [c]
    rw [tokens_eq]
    simpa [tokensFrom, Mode.continues, Mode.token?, Mode.start, bracket?, he, hc] using h

end Lexemes

end Colloquy
