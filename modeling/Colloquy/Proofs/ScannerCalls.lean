import Colloquy.Proofs.LexemeCuts

/-!
# Calls of a scanner

A scanner is asked for the next token, to pass it or only to look at it. Looking passes nothing, so the
tokens that are passed are those of the text in their order, whatever has been looked at in between. The
line is always the one on which the last token ends that has been read, the one looked at included.
-/

namespace Colloquy

namespace Lexemes

/-- The lexemes are the token that has been found and those of the text after it, or none at its end. -/
inductive FoundFirst : Lexemes → Reached → Prop where
  | token (t : Token) (unread : List Char) (stop : Place) :
    FoundFirst (emit (some t) stop (readFrom (.gap false) stop unread)) ⟨.token t, unread, stop⟩
  | finish (stop : Place) : FoundFirst ⟨[], stop⟩ ⟨.finish, [], stop⟩

/-- A token ends where the next character does not go on with it, and what follows is read as if nothing
had been at hand. -/
theorem readFrom_cons_of_token {mode : Mode} {t : Token} (hmode : mode.token? = some t)
    {c : Char} (hc : mode.continues c = false) (place : Place) (cs : List Char) :
    readFrom mode place (c :: cs) = emit (some t) place (readFrom (.gap false) place (c :: cs)) := by
  have hplain : mode.endsLine c = (Mode.gap false).endsLine c := by
    cases mode with
    | gap afterReturn => cases hmode
    | _ => rfl
  rw [readFrom, if_neg (by simp [hc]), hmode, hplain]
  rfl

/-- What is reached first is the first lexeme. -/
theorem foundFirst_reach (mode : Mode) (place : Place) (text : List Char) :
    FoundFirst (readFrom mode place text) (reach mode place text) := by
  fun_induction reach mode place text with
  | case1 mode place t hmode =>
    rw [readFrom, hmode]
    exact .token t [] place
  | case2 mode place hmode =>
    rw [readFrom, hmode]
    exact .finish place
  | case3 mode place c cs hc ih =>
    rw [readFrom, if_pos hc]
    exact ih
  | case4 mode place c cs hc t hmode =>
    rw [readFrom_cons_of_token hmode (Bool.eq_false_iff.mpr hc)]
    exact .token t (c :: cs) place
  | case5 mode place c cs hc hmode next t hbracket =>
    -- A bracket is no carriage return, so nothing is at hand after it.
    have hstart : Mode.start c = .gap false := by
      unfold bracket? at hbracket
      split at hbracket
      · rename_i hopening
        rw [beq_iff_eq.mp hopening]
        rfl
      · split at hbracket
        · rename_i hclosing
          rw [beq_iff_eq.mp hclosing]
          rfl
        · cases hbracket
    rw [readFrom, if_neg hc, hmode, hbracket, hstart]
    exact .token t cs next
  | case6 mode place c cs hc hmode next hbracket ih =>
    rw [readFrom, if_neg hc, hmode, hbracket]
    exact ih

end Lexemes

namespace Scanner

open Lexemes

inductive Call where
  | peek
  | next
deriving DecidableEq

def answer (s : Scanner) : Call → Scanned × Scanner
  | .peek => s.peek
  | .next => s.next

def after (s : Scanner) (calls : List Call) : Scanner :=
  calls.foldl (fun s call => (s.answer call).2) s

/-- The scanner after as many tokens have been passed, and none looked at before. -/
def skip (s : Scanner) (n : Nat) : Scanner :=
  s.after (List.replicate n .next)

/-- Both calls find the lexeme that comes first in what is still to come, and read the text up to its end.
Only a token that is passed is gone. -/
theorem answer_eq (s : Scanner) (call : Call) :
    (s.answer call).1 = s.rest.list.head?.elim .finish (fun lexeme => .token lexeme.token) ∧
      (s.answer call).2.place = s.rest.list.head?.elim s.rest.finish Lexeme.place ∧
      (s.answer call).2.rest = { s.rest with list := s.rest.list.drop ([call].count .next) } := by
  obtain ⟨unread, place, held, hheld⟩ := s
  cases held with
  | some found =>
    cases found with
    | token t => cases call <;> exact ⟨rfl, rfl, rfl⟩
    | finish =>
      obtain rfl := hheld rfl
      cases call <;> exact ⟨rfl, rfl, rfl⟩
  | none =>
    have hfirst := foundFirst_reach (.gap false) place unread
    cases call with
    | peek =>
      simp only [answer, peek, rest]
      generalize readFrom (.gap false) place unread = lexemes at hfirst ⊢
      generalize reach (.gap false) place unread = reached at hfirst ⊢
      cases hfirst <;> exact ⟨rfl, rfl, rfl⟩
    | next =>
      simp only [answer, next, rest]
      generalize readFrom (.gap false) place unread = lexemes at hfirst ⊢
      generalize reach (.gap false) place unread = reached at hfirst ⊢
      cases hfirst <;> exact ⟨rfl, rfl, rfl⟩

theorem rest_after (s : Scanner) (calls : List Call) :
    (s.after calls).rest = { s.rest with list := s.rest.list.drop (calls.count .next) } := by
  induction calls generalizing s with
  | nil => rfl
  | cons call calls ih =>
    rw [← List.singleton_append, List.count_append, ← List.drop_drop]
    exact (ih _).trans (by rw [(s.answer_eq call).2.2])

/-- Of the lexemes of a text a call finds the one whose number is that of the tokens passed before. -/
theorem answer_after (text : List Char) (calls : List Call) (call : Call) :
    let found := (read text).list[calls.count .next]?
    (((start text).after calls).answer call).1 =
        found.elim .finish (fun lexeme => .token lexeme.token) ∧
      (((start text).after calls).answer call).2.place =
        found.elim (read text).finish Lexeme.place := by
  obtain ⟨hfound, hplace, -⟩ := answer_eq ((start text).after calls) call
  rw [rest_after, List.head?_drop] at hfound hplace
  exact ⟨hfound, hplace⟩

/-- The lexemes from which a script is read are those that the scanner passes one after the other, and
after them it finds the end. -/
theorem next_skip (text : List Char) (n : Nat) :
    let passed := ((start text).skip n).next
    match (start text).rest.list[n]? with
    | some lexeme => passed.1 = .token lexeme.token ∧ passed.2.place = lexeme.place
    | none => passed.1 = .finish ∧ passed.2.place = (start text).rest.finish := by
  have h := answer_after text (List.replicate n .next) .next
  simp only [List.count_replicate_self] at h
  rw [rest_start]
  intro passed
  cases hlexeme : (read text).list[n]? with
  | none =>
    rw [hlexeme] at h
    exact h
  | some lexeme =>
    rw [hlexeme] at h
    exact h

theorem after_append (s : Scanner) (calls more : List Call) :
    s.after (calls ++ more) = (s.after calls).after more :=
  List.foldl_append

theorem skip_succ (s : Scanner) (n : Nat) : s.skip (n + 1) = (s.skip n).next.2 := by
  rw [skip, List.replicate_succ', after_append]
  rfl

/-- The token of a number is found when as many have been passed, whatever has been looked at. -/
theorem scanned_after (text : List Char) (calls : List Call) (call : Call) :
    (((start text).after calls).answer call).1 =
      (tokens text)[calls.count .next]?.elim .finish .token := by
  rw [(answer_after text calls call).1, tokens, List.getElem?_map, Option.elim_map]
  rfl

theorem scanned_skip (text : List Char) (n : Nat) :
    ((start text).skip n).next.1 = (tokens text)[n]?.elim .finish .token := by
  have h := scanned_after text (List.replicate n .next) .next
  rwa [List.count_replicate_self] at h

/-- After a call so much of the text has been read as the lexeme that has been found tells, or all of it. -/
theorem place_after (text : List Char) (calls : List Call) (call : Call) :
    let place := (((start text).after calls).answer call).2.place
    match (tokens text)[calls.count .next]? with
    | some t => ReadUpTo text (calls.count .next) ⟨t, place⟩
    | none => place = placeAfter text := by
  rw [tokens, List.getElem?_map, (answer_after text calls call).2]
  cases hfound : (read text).list[calls.count .next]? with
  | none => exact finish_read text
  | some lexeme => exact readUpTo_of_getElem? hfound

theorem place_answer_after (text : List Char) (calls : List Call) (call : Call) :
    let place := (((start text).after calls).answer call).2.place
    place = placeAfter (text.take place.stop) := by
  intro place
  have h := place_after text calls call
  cases ht : (tokens text)[calls.count .next]? with
  | none =>
    have hend : place = placeAfter text := by simpa only [ht] using h
    rw [hend]
    exact congrArg placeAfter List.take_length.symm
  | some t =>
    have hread : ReadUpTo text (calls.count .next) ⟨t, place⟩ := by simpa only [ht] using h
    exact hread.place_eq

theorem next_after_peeks (text : List Char) (calls : List Call) (peeks : Nat) :
    let s := (start text).after calls
    (s.after (List.replicate peeks .peek)).next.1 = s.peek.1 := by
  have hcount : (calls ++ List.replicate peeks Call.peek).count .next = calls.count .next := by
    rw [List.count_append, List.count_replicate]
    rfl
  have hnext := scanned_after text (calls ++ List.replicate peeks .peek) .next
  rw [hcount, after_append] at hnext
  exact hnext.trans (scanned_after text calls .peek).symm

/-- Passing token after token gives the tokens of the text and then its end for ever. The tokens spell
the text without its blanks and comments. Each of them is spelled where the scanner has read it, right
after what spells the tokens before it and what is passed over; it has the shape of its kind, and does
not go on in what follows. -/
theorem next_munches_text (text : List Char) :
    (∀ n, ((start text).skip n).next.1 = (tokens text)[n]?.elim .finish .token) ∧
      (tokens text).flatMap Token.spelling = withoutGaps text ∧
      ∀ n t, (tokens text)[n]? = some t →
        let stop := ((start text).skip (n + 1)).place.stop
        t.spelling <:+ text.take stop ∧
          withoutGaps (text.take stop) =
            ((tokens text).take (n + 1)).flatMap Token.spelling ∧
          t.Lexical ∧ t.EndsBefore (text.drop stop) := by
  refine ⟨scanned_skip text, ?_, fun n t ht => ?_⟩
  · rw [(munches_read text).withoutGaps_eq, tokens, List.flatMap_map]
  · have hplace := place_after text (List.replicate n .next) .next
    simp only [List.count_replicate_self, ht] at hplace
    rw [skip_succ]
    exact ⟨hplace.suffix, hplace.spelled, lexical_of_mem_tokens t (List.mem_of_getElem? ht),
      hplace.ends⟩

/-- The number stands behind a comment and blanks, and right before a symbol. -/
theorem number_after_a_comment :
    let text := "(=A;b)\r\n 12C".toList
    let stop := ((start text).skip 3).place.stop
    (tokens text)[2]? = some (.number ['1', '2']) ∧
      (∃ front, text.take stop = front ++ ['1', '2']) ∧
      withoutGaps (text.take stop) = "(=A12".toList ∧
      (Token.number ['1', '2']).EndsBefore (text.drop stop) ∧
      ((start text).skip 4).next.1 = .finish := by
  intro text stop
  have hfound : (tokens text)[2]? = some (.number ['1', '2']) := by decide
  obtain ⟨hscanned, -, hspelled⟩ := next_munches_text text
  obtain ⟨⟨front, hfront⟩, hwithout, -, hends⟩ := hspelled 2 _ hfound
  exact ⟨hfound, ⟨front, hfront.symm⟩, hwithout, hends, hscanned 4⟩

/-- Whatever calls come before, a call finds the token that the next one to be passed would be if no
token had ever been looked at; so what is looked at is what is passed next, however often it is looked
at. After the call the line is one more than the number of lines that end in what has been read: the
text up to the end of the token that has been found, or all of it at its end. -/
theorem peeks_pass_nothing (text : List Char) (calls : List Call) (call : Call) :
    let s := (start text).after calls
    let passed := calls.count .next
    let answered := s.answer call
    let part := text.take answered.2.place.stop
    answered.1 = ((start text).skip passed).next.1 ∧
      (∀ peeks, (s.after (List.replicate peeks .peek)).next.1 = s.peek.1) ∧
      answered.2.place.line = 1 + lineEnds part ∧
      match answered.1 with
      | .token t => t.spelling <:+ part ∧
          withoutGaps part = ((tokens text).take (passed + 1)).flatMap Token.spelling
      | .finish => part = text := by
  intro s passed answered part
  have hfound : answered.1 = (tokens text)[passed]?.elim .finish .token := scanned_after text calls call
  have hline : answered.2.place.line = 1 + lineEnds part :=
    (congrArg Place.line (place_answer_after text calls call)).trans (Nat.add_comm _ _)
  refine ⟨hfound.trans (scanned_skip text passed).symm, next_after_peeks text calls, hline, ?_⟩
  have hplace := place_after text calls call
  rw [hfound]
  cases ht : (tokens text)[passed]? with
  | none =>
    have hend : answered.2.place = placeAfter text := by simpa [ht, passed] using hplace
    rw [show part = text.take answered.2.place.stop from rfl, hend]
    exact List.take_length
  | some t =>
    have hread : ReadUpTo text passed ⟨t, answered.2.place⟩ := by simpa [ht, passed] using hplace
    exact ⟨hread.suffix, hread.spelled⟩

end Scanner

end Colloquy
