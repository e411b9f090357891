import Colloquy.Proofs.ScriptTokens

/-!
# How a text is cut into lexemes

A text is read as blanks, comments and tokens in a row, each token as long as it can be. So the tokens
spell the text without its blanks and comments, and the place of a token tells the number of
characters up to its end and the line on which it ends.
-/

namespace Colloquy

def Token.spelling : Token → List Char
  | .opening => ['(']
  | .closing => [')']
  | .number digits => digits
  | .symbol name => name

/-- The token does not go on in what follows it. -/
def Token.EndsBefore (rest : List Char) : Token → Prop
  | .opening | .closing => True
  | .number _ => ∀ c, rest.head? = some c → c.isDigit = false
  | .symbol _ => Lexemes.Breaks rest

namespace Lexemes

/-- The text without its blanks and comments. A comment goes from a semicolon up to the next end of a line,
which is a blank, or up to the end of the text. -/
def withoutGaps : List Char → List Char
  | [] => []
  | c :: cs =>
    if c = ';' then withoutGaps (cs.dropWhile fun c => !isLineEnd c)
    else if isBlank c then withoutGaps cs
    else c :: withoutGaps cs
termination_by cs => cs.length
decreasing_by
  · exact Nat.lt_succ_of_le (List.dropWhile_sublist _).length_le
  · exact Nat.lt_succ_self _
  · exact Nat.lt_succ_self _

/-- The number of lines that end in a text. A carriage return and a line feed after it end one line
together. -/
def lineEnds : List Char → Nat
  | [] => 0
  | '\r' :: '\n' :: cs => lineEnds cs + 1
  | c :: cs => lineEnds cs + if isLineEnd c then 1 else 0

/-! ### Characters -/

theorem isBlank_of_isLineEnd {c : Char} (h : isLineEnd c = true) : isBlank c = true := by
  simp only [isLineEnd, Bool.or_eq_true, beq_iff_eq] at h
  rcases h with ((rfl | rfl) | rfl) | rfl <;> decide

theorem endsSymbol_of_isBlank {c : Char} (h : isBlank c = true) : endsSymbol c = true := by
  simp [endsSymbol, h]

/-- An end of a line belongs to no comment and to no token. -/
theorem Mode.continues_of_isLineEnd {c : Char} (h : isLineEnd c = true) (mode : Mode) :
    mode.continues c = false := by
  have hends := endsSymbol_of_isBlank (isBlank_of_isLineEnd h)
  cases mode with
  | gap => rfl
  | comment => simp [Mode.continues, h]
  | number pending => exact isDigit_of_endsSymbol hends
  | symbol pending => simp [Mode.continues, hends]

theorem Mode.isLineEnd_eq_false {c : Char} {mode : Mode} (h : mode.continues c = true) :
    isLineEnd c = false := by
  cases hend : isLineEnd c with
  | false => rfl
  | true =>
    rw [Mode.continues_of_isLineEnd hend] at h
    cases h

/-! ### Places -/

def placeAfter (passed : List Char) : Place :=
  ⟨lineEnds passed + 1, passed.length⟩

theorem lineEnds_cons {c : Char} (cs : List Char) (h : c = '\r' → cs.head? ≠ some '\n') :
    lineEnds (c :: cs) = lineEnds cs + if isLineEnd c then 1 else 0 := by
  rw [lineEnds]
  rintro rest rfl rfl
  exact h rfl rfl

theorem lineEnds_append_singleton (passed : List Char) (c : Char) :
    lineEnds (passed ++ [c]) = lineEnds passed +
      if isLineEnd c && !(c == '\n' && passed.getLast? == some '\r') then 1 else 0 := by
  fun_induction lineEnds passed with
  | case1 => simp [lineEnds]
  | case2 cs ih =>
    rw [List.cons_append, List.cons_append, lineEnds, ih]
    cases cs <;> simp <;> omega
  | case3 d cs hsplit ih =>
    cases cs with
    | nil =>
      -- Only here can the two characters at the end be a carriage return and a line feed.
      by_cases hpair : d = '\r' ∧ c = '\n'
      · obtain ⟨rfl, rfl⟩ := hpair
        rfl
      · have hc : (c == '\n' && d == '\r') = false := by
          simpa [and_comm, imp_not_comm] using hpair
        rw [List.cons_append, lineEnds_cons _ (by simpa using hpair), ih]
        simp [hc, lineEnds]
        omega
    | cons e cs =>
      have hhead : d = '\r' → ((e :: cs) ++ [c]).head? ≠ some '\n' := by
        rintro rfl hnewline
        exact hsplit cs rfl (by simpa using hnewline)
      rw [List.cons_append, lineEnds_cons _ hhead, ih]
      simp [Nat.add_right_comm]

/-- A mode knows whether a carriage return has just been passed. -/
def Mode.Fits (passed : List Char) (mode : Mode) : Prop :=
  mode = .gap true ↔ passed.getLast? = some '\r'

theorem Mode.fits_start (passed : List Char) (c : Char) : (Mode.start c).Fits (passed ++ [c]) := by
  unfold Mode.Fits Mode.start
  split
  · simp
  · rename_i hgap
    have hc : c ≠ '\r' := by
      rintro rfl
      exact hgap rfl
    split
    · simp [hc]
    · split <;> simp [hc]

theorem Mode.fits_push {passed : List Char} {mode : Mode} {c : Char}
    (hc : mode.continues c = true) : (mode.push c).Fits (passed ++ [c]) := by
  have hreturn : c ≠ '\r' := by
    rintro rfl
    exact absurd (Mode.isLineEnd_eq_false hc) (by decide)
  cases mode with
  | gap => cases hc
  | comment => simp [Mode.Fits, Mode.push, hreturn]
  | number pending => simp [Mode.Fits, Mode.push, hreturn]
  | symbol pending => simp [Mode.Fits, Mode.push, hreturn]

theorem Mode.Fits.endsLine_eq {passed : List Char} {mode : Mode} (h : mode.Fits passed) (c : Char) :
    mode.endsLine c = (isLineEnd c && !(c == '\n' && passed.getLast? == some '\r')) := by
  have hreturn : (mode == .gap true) = (passed.getLast? == some '\r') := by
    rw [Bool.eq_iff_iff, beq_iff_eq, beq_iff_eq]
    exact h
  rw [Mode.endsLine, hreturn]

theorem Mode.Fits.pass_placeAfter {passed : List Char} {mode : Mode} (h : mode.Fits passed) (c : Char) :
    (placeAfter passed).pass (mode.endsLine c) = placeAfter (passed ++ [c]) := by
  rw [placeAfter, placeAfter, Place.pass, lineEnds_append_singleton, h.endsLine_eq]
  split <;> simp

/-- A character that goes on with what is at hand ends no line. -/
theorem pass_placeAfter_of_continues {passed : List Char} {mode : Mode} {c : Char}
    (hc : mode.continues c = true) :
    (placeAfter passed).pass false = placeAfter (passed ++ [c]) := by
  simp [placeAfter, Place.pass, lineEnds_append_singleton, Mode.isLineEnd_eq_false hc]

/-! ### Cuts -/

/-- A text is cut into blanks, comments and lexemes, each of them as long as it can be. The places of
the lexemes are those in a text that begins with what has been passed already. -/
inductive Munches : List Char → List Char → List Lexeme → Prop where
  | nil (passed : List Char) : Munches passed [] []
  | blank {passed rest : List Char} {c : Char} {list : List Lexeme} (blank : isBlank c = true)
      (more : Munches (passed ++ [c]) rest list) : Munches passed (c :: rest) list
  | comment {passed body rest : List Char} {list : List Lexeme}
      (inside : ∀ c ∈ body, isLineEnd c = false)
      (ends : ∀ c, rest.head? = some c → isLineEnd c = true)
      (more : Munches (passed ++ ';' :: body) rest list) :
      Munches passed (';' :: (body ++ rest)) list
  | token {passed rest : List Char} {t : Token} {list : List Lexeme} (lexical : t.Lexical)
      (ends : t.EndsBefore rest) (more : Munches (passed ++ t.spelling) rest list) :
      Munches passed (t.spelling ++ rest) (⟨t, placeAfter (passed ++ t.spelling)⟩ :: list)

def Mode.pushAll (mode : Mode) (w : List Char) : Mode :=
  w.foldl (fun mode c => mode.push c) mode

@[simp] theorem Mode.pushAll_nil (mode : Mode) : mode.pushAll [] = mode := rfl

@[simp] theorem Mode.pushAll_cons (mode : Mode) (c : Char) (w : List Char) :
    mode.pushAll (c :: w) = (mode.push c).pushAll w := rfl

@[simp] theorem Mode.pushAll_gap (afterReturn : Bool) (w : List Char) :
    (Mode.gap afterReturn).pushAll w = .gap afterReturn := by
  induction w with
  | nil => rfl
  | cons c w ih => exact ih

@[simp] theorem Mode.pushAll_comment (w : List Char) : Mode.comment.pushAll w = .comment := by
  induction w with
  | nil => rfl
  | cons c w ih => exact ih

@[simp] theorem Mode.pushAll_number (pending w : List Char) :
    (Mode.number pending).pushAll w = .number (w.reverse ++ pending) := by
  induction w generalizing pending with
  | nil => rfl
  | cons c w ih => simpa [Mode.pushAll, Mode.push] using ih (c :: pending)

@[simp] theorem Mode.pushAll_symbol (pending w : List Char) :
    (Mode.symbol pending).pushAll w = .symbol (w.reverse ++ pending) := by
  induction w generalizing pending with
  | nil => rfl
  | cons c w ih => simpa [Mode.pushAll, Mode.push] using ih (c :: pending)

theorem Mode.continues_push (mode : Mode) (c d : Char) :
    (mode.push c).continues d = mode.continues d := by
  cases mode <;> rfl

theorem Mode.Holds.pushAll {mode : Mode} (h : mode.Holds) {w : List Char}
    (hw : ∀ c ∈ w, mode.continues c = true) : (mode.pushAll w).Holds := by
  induction w generalizing mode with
  | nil => exact h
  | cons c w ih =>
    obtain ⟨hc, hw⟩ := List.forall_mem_cons.mp hw
    exact ih (h.push hc) fun d hd => (mode.continues_push c d).trans (hw d hd)

def lexemeAt (token : Option Token) (passed : List Char) : List Lexeme :=
  token.toList.map (⟨·, placeAfter passed⟩)

theorem list_emit (token : Option Token) (passed : List Char) (rest : Lexemes) :
    (emit token (placeAfter passed) rest).list = lexemeAt token passed ++ rest.list := by
  cases token <;> rfl

theorem eq_nil_of_gap {afterReturn : Bool} {w : List Char}
    (h : ∀ c ∈ w, (Mode.gap afterReturn).continues c = true) : w = [] :=
  List.eq_nil_iff_forall_not_mem.mpr fun c hc => Bool.false_ne_true (h c hc)

/-- What a character begins where nothing is at hand: a bracket stands alone, and all else may go on. -/
inductive Begins (c : Char) : Option Token → Mode → Prop where
  | bracket {t : Token} (spelling : t.spelling = [c]) (lexical : t.Lexical)
      (ends : ∀ rest, t.EndsBefore rest) : Begins c (some t) (.gap false)
  | blank (blank : isBlank c = true) (afterReturn : Bool) : Begins c none (.gap afterReturn)
  | comment (mark : c = ';') : Begins c none .comment
  | number : Begins c none (.number [c])
  | symbol : Begins c none (.symbol [c])

theorem begins (c : Char) : Begins c (bracket? c) (Mode.start c) := by
  by_cases hopening : c = '('
  · subst hopening
    exact .bracket (t := .opening) rfl trivial fun _ => trivial
  by_cases hclosing : c = ')'
  · subst hclosing
    exact .bracket (t := .closing) rfl trivial fun _ => trivial
  have hbracket : bracket? c = none := by simp [bracket?, hopening, hclosing]
  rw [hbracket, Mode.start]
  by_cases hblank : isBlank c = true
  · rw [if_pos (by simp [hblank])]
    exact .blank hblank _
  rw [if_neg (by simp [hopening, hclosing, hblank])]
  split
  · rename_i hcomment
    exact .comment (by simpa using hcomment)
  · split
    · exact .number
    · exact .symbol

/-- A character with which something begins, and what goes on with it, are cut off a text. -/
theorem munches_start {passed w rest : List Char} {c : Char} {list : List Lexeme}
    (hw : ∀ d ∈ w, (Mode.start c).continues d = true)
    (hends : ∀ d, rest.head? = some d → (Mode.start c).continues d = false)
    (hmore : Munches (passed ++ c :: w) rest list) :
    Munches passed (c :: (w ++ rest)) (lexemeAt (bracket? c) (passed ++ [c]) ++
      (lexemeAt ((Mode.start c).pushAll w).token? (passed ++ c :: w) ++ list)) := by
  have hlexical := ((Mode.holds_start c).pushAll hw).lexical
  have hbegins := begins c
  generalize bracket? c = bracket at hbegins
  generalize Mode.start c = mode at hw hends hlexical hbegins
  cases hbegins with
  | @bracket t spelling lexical ends =>
    obtain rfl := eq_nil_of_gap hw
    rw [← spelling] at hmore
    simpa [lexemeAt, Mode.token?, spelling] using Munches.token lexical (ends rest) hmore
  | blank blank afterReturn =>
    obtain rfl := eq_nil_of_gap hw
    exact .blank blank hmore
  | comment mark =>
    subst mark
    rw [Mode.pushAll_comment]
    refine .comment (fun d hd => ?_) (fun d hd => ?_) hmore
    · simpa [Mode.continues] using hw d hd
    · simpa [Mode.continues] using hends d hd
  | number =>
    have htoken : ((Mode.number [c]).pushAll w).token? = some (.number (c :: w)) := by
      simp [Mode.token?]
    rw [htoken] at hlexical ⊢
    exact .token (t := .number (c :: w)) (hlexical _ (List.mem_singleton_self _)) hends hmore
  | symbol =>
    have htoken : ((Mode.symbol [c]).pushAll w).token? = some (.symbol (c :: w)) := by
      simp [Mode.token?]
    rw [htoken] at hlexical ⊢
    refine .token (t := .symbol (c :: w)) (hlexical _ (List.mem_singleton_self _)) ?_ hmore
    exact fun d hd => by simpa [Mode.continues] using hends d hd

/-- What is read on from a mode begins with what still belongs to the comment or token at hand; after that
the text is cut into lexemes. -/
theorem munches_readFrom {mode : Mode} {passed : List Char} (hfits : mode.Fits passed)
    (cs : List Char) :
    ∃ w rest list, cs = w ++ rest ∧ (∀ c ∈ w, mode.continues c = true) ∧
      (∀ c, rest.head? = some c → mode.continues c = false) ∧
      (readFrom mode (placeAfter passed) cs).list =
        lexemeAt (mode.pushAll w).token? (passed ++ w) ++ list ∧
      Munches (passed ++ w) rest list := by
  induction cs generalizing mode passed with
  | nil =>
    refine ⟨[], [], [], rfl, by simp, by simp, ?_, .nil _⟩
    rw [readFrom, list_emit, List.append_nil]
    simp
  | cons c cs ih =>
    rw [readFrom]
    by_cases hc : mode.continues c = true
    · obtain ⟨w, rest, list, hcs, hw, hends, hlist, hmunches⟩ := ih (Mode.fits_push hc)
      rw [if_pos hc, pass_placeAfter_of_continues hc]
      refine ⟨c :: w, rest, list, by rw [hcs]; rfl, ?_, ?_, ?_, ?_⟩
      · simpa [hc, Mode.continues_push] using hw
      · simpa [Mode.continues_push] using hends
      · simpa using hlist
      · simpa using hmunches
    · obtain ⟨w, rest, list, hcs, hw, hends, hlist, hmunches⟩ := ih (Mode.fits_start passed c)
      have hstart := munches_start hw hends (by simpa using hmunches)
      refine ⟨[], c :: cs, lexemeAt (bracket? c) (passed ++ [c]) ++
        (readFrom (.start c) (placeAfter (passed ++ [c])) cs).list, rfl, by simp, by simpa using hc,
        ?_, ?_⟩
      · rw [if_neg hc, hfits.pass_placeAfter, list_emit, list_emit]
        simp
      · rw [hlist, hcs]
        simpa using hstart

theorem finish_emit (token : Option Token) (place : Place) (rest : Lexemes) :
    (emit token place rest).finish = rest.finish := by
  cases token <;> rfl

theorem finish_readFrom {mode : Mode} {passed : List Char} (hfits : mode.Fits passed)
    (cs : List Char) : (readFrom mode (placeAfter passed) cs).finish = placeAfter (passed ++ cs) := by
  induction cs generalizing mode passed with
  | nil => rw [readFrom, finish_emit, List.append_nil]
  | cons c cs ih =>
    rw [readFrom, ← List.singleton_append, ← List.append_assoc]
    split
    · rename_i hc
      rw [pass_placeAfter_of_continues hc]
      exact ih (Mode.fits_push hc)
    · rw [finish_emit, finish_emit, hfits.pass_placeAfter]
      exact ih (Mode.fits_start passed c)

theorem fits_nil : (Mode.gap false).Fits [] := by
  simp [Mode.Fits]

theorem finish_read (text : List Char) : (read text).finish = placeAfter text :=
  finish_readFrom fits_nil text

theorem munches_read (text : List Char) : Munches [] text (read text).list := by
  obtain ⟨w, rest, list, rfl, hw, -, hlist, hmunches⟩ := munches_readFrom fits_nil text
  obtain rfl := eq_nil_of_gap hw
  rw [read, show Place.start = placeAfter [] from rfl, hlist]
  exact hmunches

/-! ### What is left without gaps -/

theorem withoutGaps_blank {c : Char} (h : isBlank c = true) (cs : List Char) :
    withoutGaps (c :: cs) = withoutGaps cs := by
  have hc : c ≠ ';' := by
    rintro rfl
    exact absurd h (by decide)
  rw [withoutGaps, if_neg hc, if_pos h]

theorem withoutGaps_comment {body rest : List Char} (hbody : ∀ c ∈ body, isLineEnd c = false)
    (hrest : ∀ c, rest.head? = some c → isLineEnd c = true) :
    withoutGaps (';' :: (body ++ rest)) = withoutGaps rest := by
  rw [withoutGaps, if_pos rfl, List.dropWhile_append_of_pos (by simpa using hbody)]
  cases rest with
  | nil => rfl
  | cons c rest => rw [List.dropWhile_cons_of_neg (by simpa using hrest c rfl)]

theorem withoutGaps_append {w : List Char} (hw : ∀ c ∈ w, c ≠ ';' ∧ isBlank c = false)
    (rest : List Char) : withoutGaps (w ++ rest) = w ++ withoutGaps rest := by
  induction w with
  | nil => rfl
  | cons c w ih =>
    obtain ⟨⟨hmark, hblank⟩, hw⟩ := List.forall_mem_cons.mp hw
    rw [List.cons_append, withoutGaps, if_neg hmark, if_neg (by simp [hblank]), ih hw,
      List.cons_append]

theorem unbroken_iff {w : List Char} : Unbroken w ↔
    ∀ c ∈ w, c ≠ '(' ∧ c ≠ ')' ∧ c ≠ ';' ∧ isBlank c = false := by
  simp [Unbroken, endsSymbol, and_assoc]

end Lexemes

/-- A token holds no mark of a comment and no blank. -/
theorem Token.Lexical.plain {t : Token} (h : t.Lexical) :
    ∀ c ∈ t.spelling, c ≠ ';' ∧ Lexemes.isBlank c = false := by
  cases t with
  | opening => exact List.forall_mem_singleton.mpr (by decide)
  | closing => exact List.forall_mem_singleton.mpr (by decide)
  | number digits =>
    have hunbroken : Lexemes.Unbroken digits := fun c hc =>
      Lexemes.endsSymbol_of_isDigit (h.isDigit c hc)
    exact fun c hc => (Lexemes.unbroken_iff.mp hunbroken c hc).2.2
  | symbol name => exact fun c hc => (Lexemes.unbroken_iff.mp h.unbroken c hc).2.2

namespace Lexemes

/-! ### The lexemes of a text that is cut -/

namespace Munches

variable {passed text : List Char} {list : List Lexeme}

theorem withoutGaps_eq (h : Munches passed text list) :
    withoutGaps text = list.flatMap (·.token.spelling) := by
  induction h with
  | nil passed => rw [withoutGaps, List.flatMap_nil]
  | blank blank more ih => rw [withoutGaps_blank blank, ih]
  | comment inside ends more ih => rw [withoutGaps_comment inside ends, ih]
  | token lexical ends more ih => rw [withoutGaps_append lexical.plain, ih, List.flatMap_cons]

/-- Where the lexeme of a number stands in a text, and what the text is up to there. -/
theorem exists_of_getElem? (h : Munches passed text list) {n : Nat} {lexeme : Lexeme}
    (hn : list[n]? = some lexeme) :
    ∃ front back, text = front ++ lexeme.token.spelling ++ back ∧
      lexeme.place = placeAfter (passed ++ (front ++ lexeme.token.spelling)) ∧
      lexeme.token.EndsBefore back ∧
      withoutGaps (front ++ lexeme.token.spelling) =
        (list.take (n + 1)).flatMap (·.token.spelling) := by
  induction h generalizing n with
  | nil passed => cases hn
  | @blank passed rest c list blank more ih =>
    obtain ⟨front, back, rfl, hplace, hends, hspelled⟩ := ih hn
    refine ⟨c :: front, back, by simp, by simpa using hplace, hends, ?_⟩
    rw [List.cons_append, withoutGaps_blank blank, hspelled]
  | @comment passed body rest list inside ends more ih =>
    obtain ⟨front, back, rfl, hplace, hends, hspelled⟩ := ih hn
    refine ⟨';' :: (body ++ front), back, by simp, by simpa using hplace, hends, ?_⟩
    rw [List.cons_append, List.append_assoc, withoutGaps_comment inside, hspelled]
    intro c hc
    exact ends c (by rw [List.head?_append, hc, Option.some_or])
  | @token passed rest t list lexical ends more ih =>
    cases n with
    | zero =>
      cases hn
      refine ⟨[], rest, rfl, rfl, ends, ?_⟩
      rw [List.nil_append, ← List.append_nil t.spelling, withoutGaps_append lexical.plain]
      simp [withoutGaps]
    | succ n =>
      obtain ⟨front, back, rfl, hplace, hends, hspelled⟩ := ih hn
      refine ⟨t.spelling ++ front, back, by simp, by simpa using hplace, hends, ?_⟩
      rw [List.append_assoc, withoutGaps_append lexical.plain, hspelled]
      simp

end Munches

/-- What has been read of a text up to the end of the lexeme of the given number. -/
structure ReadUpTo (text : List Char) (n : Nat) (lexeme : Lexeme) : Prop where
  place_eq : lexeme.place = placeAfter (text.take lexeme.place.stop)
  suffix : lexeme.token.spelling <:+ text.take lexeme.place.stop
  ends : lexeme.token.EndsBefore (text.drop lexeme.place.stop)
  spelled : withoutGaps (text.take lexeme.place.stop) =
    ((tokens text).take (n + 1)).flatMap Token.spelling

theorem readUpTo_of_getElem? {text : List Char} {n : Nat} {lexeme : Lexeme}
    (hn : (read text).list[n]? = some lexeme) : ReadUpTo text n lexeme := by
  obtain ⟨front, back, htext, hplace, hends, hspelled⟩ := (munches_read text).exists_of_getElem? hn
  have hstop : lexeme.place.stop = (front ++ lexeme.token.spelling).length := by
    rw [hplace]
    rfl
  have htake : text.take lexeme.place.stop = front ++ lexeme.token.spelling := by
    rw [hstop, htext, List.take_left]
  have hdrop : text.drop lexeme.place.stop = back := by
    rw [hstop, htext, List.drop_left]
  refine ⟨?_, ?_, ?_, ?_⟩
  · rw [htake]
    exact hplace
  · rw [htake]
    exact List.suffix_append _ _
  · rwa [hdrop]
  · rw [htake, hspelled, tokens, ← List.map_take, List.flatMap_map]

end Lexemes

end Colloquy
