import Colloquy.ScriptFile
import Colloquy.Proofs.LexemeCuts

/-!
# Texts with unified ends of lines

A script may have its lines end in any of the usual ways. With every end of a line made a line feed the
same tokens are found on the same lines, so the same script is read or the same fault is found on the same
line, and a file is loaded as the text that its bytes stand for.
-/

namespace Colloquy

open Lexemes TextEncoding

/-- What a reader of lexemes takes note of: their tokens, and the lines on which they and the text end. -/
def Lexemes.lined (l : Lexemes) : List (Token × Nat) × Nat :=
  (l.list.map fun lexeme => (lexeme.token, lexeme.place.line), l.finish.line)

namespace Lexemes

theorem lined_emit_congr (token : Option Token) {p q : Place} (hline : p.line = q.line)
    {rest others : Lexemes} (h : rest.lined = others.lined) :
    (emit token p rest).lined = (emit token q others).lined := by
  cases token with
  | none => exact h
  | some t =>
    obtain ⟨hlist, hfinish⟩ := Prod.mk.inj h
    simp [emit, lined, hline, hlist, hfinish]

theorem line_pass_congr {p q : Place} (hline : p.line = q.line) (endsLine : Bool) :
    (p.pass endsLine).line = (q.pass endsLine).line := by
  simp [Place.pass, hline]

/-- An end of a line ends what is at hand and begins nothing. -/
theorem readFrom_of_isLineEnd {c : Char} (h : isLineEnd c = true) (mode : Mode) (place : Place)
    (cs : List Char) :
    readFrom mode place (c :: cs) =
      emit mode.token? place (readFrom (.gap (c == '\r')) (place.pass (mode.endsLine c)) cs) := by
  have hbracket : bracket? c = none := by
    simp only [isLineEnd, Bool.or_eq_true, beq_iff_eq] at h
    rcases h with ((rfl | rfl) | rfl) | rfl <;> rfl
  have hstart : Mode.start c = .gap (c == '\r') := by
    simp [Mode.start, isBlank_of_isLineEnd h]
  rw [readFrom, if_neg (by simp [Mode.continues_of_isLineEnd h]), hbracket, hstart]
  rfl

/-- It makes no difference that a carriage return has been passed if no line feed follows. -/
theorem readFrom_afterReturn {cs : List Char} (h : cs.head? ≠ some '\n') (place : Place) :
    readFrom (.gap true) place cs = readFrom (.gap false) place cs := by
  cases cs with
  | nil => rfl
  | cons c cs =>
    have hc : (c == '\n') = false := by simpa using h
    have hends (mode : Mode) : mode.endsLine c = isLineEnd c := by simp [Mode.endsLine, hc]
    rw [readFrom, readFrom, hends, hends]
    rfl

theorem Mode.endsLine_feed {mode : Mode} (h : mode ≠ .gap true) : mode.endsLine '\n' = true := by
  simpa [Mode.endsLine, isLineEnd] using h

theorem Mode.push_ne_afterReturn {mode : Mode} (h : mode ≠ .gap true) (c : Char) :
    mode.push c ≠ .gap true := by
  cases mode with
  | gap afterReturn => exact h
  | comment => exact h
  | number pending => exact nofun
  | symbol pending => exact nofun

theorem Mode.start_ne_afterReturn {c : Char} (h : c ≠ '\r') : Mode.start c ≠ .gap true := by
  intro hstart
  have hfits := Mode.fits_start [] c
  rw [hstart] at hfits
  exact h (by simpa [Mode.Fits] using hfits)

/-- Unless a line feed may belong to a carriage return before it, unified ends of lines are read as those of
the text are. -/
theorem lined_readFrom_unifyLineEnds {mode : Mode} (hmode : mode ≠ .gap true) {p q : Place}
    (hline : p.line = q.line) (cs : List Char) :
    (readFrom mode p (unifyLineEnds cs)).lined = (readFrom mode q cs).lined := by
  fun_induction unifyLineEnds cs generalizing mode p q with
  | case1 => exact lined_emit_congr _ hline (by simp [lined, hline])
  | case2 rest ih =>
    rw [readFrom_of_isLineEnd rfl, readFrom_of_isLineEnd rfl, Mode.endsLine_feed hmode]
    refine lined_emit_congr _ hline ?_
    rw [readFrom_of_isLineEnd rfl]
    exact ih (by decide) (line_pass_congr hline true)
  | case3 c rest hsplit ih =>
    by_cases hc : c = '\r'
    · subst hc
      have hrest : rest.head? ≠ some '\n' := fun hhead => by
        obtain ⟨more, rfl⟩ := List.head?_eq_some_iff.mp hhead
        exact hsplit more rfl rfl
      have hreturn : mode.endsLine '\r' = true := by simp [Mode.endsLine, isLineEnd]
      rw [if_pos rfl, readFrom_of_isLineEnd rfl, readFrom_of_isLineEnd rfl,
        Mode.endsLine_feed hmode, hreturn, beq_self_eq_true, readFrom_afterReturn hrest]
      exact lined_emit_congr _ hline (ih (by decide) (line_pass_congr hline true))
    · rw [if_neg hc, readFrom, readFrom]
      split
      · exact ih (Mode.push_ne_afterReturn hmode c) (line_pass_congr hline false)
      · have hpass := line_pass_congr hline (mode.endsLine c)
        exact lined_emit_congr _ hline
          (lined_emit_congr _ hpass (ih (Mode.start_ne_afterReturn hc) hpass))

theorem lined_read_unifyLineEnds (text : List Char) :
    (read (unifyLineEnds text)).lined = (read text).lined :=
  lined_readFrom_unifyLineEnds (by decide) rfl text

end Lexemes

namespace Level

theorem readAll_congr {a b : List Lexeme} (lastLine : Nat)
    (h : a.map (fun lexeme => (lexeme.token, lexeme.place.line)) =
      b.map fun lexeme => (lexeme.token, lexeme.place.line)) :
    readAll lastLine a = readAll lastLine b := by
  induction a generalizing b with
  | nil => rw [List.map_eq_nil_iff.mp h.symm]
  | cons lexeme a ih =>
    obtain ⟨other, b, rfl, hlexeme, hrest⟩ := List.map_eq_cons_iff.mp h.symm
    obtain ⟨htoken, hline⟩ := Prod.mk.inj hlexeme
    rw [readAll, readAll, ih hrest.symm, htoken, hline]

/-- A text is grouped into levels by its tokens and their lines. -/
theorem read_congr {a b : Lexemes} (h : a.lined = b.lined) : read a = read b := by
  obtain ⟨hlist, hfinish⟩ := Prod.mk.inj h
  rw [read, read, hfinish, readAll_congr _ hlist]

end Level

/-- Whether the ends of lines are unified makes no difference to what is read: it is the same script, or
the same fault on the same line. So a file, whose lines may end in any way, is loaded as the very text
that its bytes stand for. -/
theorem Script.read_unifyLineEnds :
    (∀ text, Script.read (unifyLineEnds text) = Script.read text) ∧
      ∀ content, ScriptFile.ofBytes content =
        match (utf8? content).bind strict? with
        | none => .error .undecodable
        | some text => (Script.read text).mapError .load := by
  have hread (text : List Char) : Script.read (unifyLineEnds text) = Script.read text :=
    congrArg ScriptReader.script (Level.read_congr (lined_read_unifyLineEnds text))
  refine ⟨hread, fun content => ?_⟩
  rw [ScriptFile.ofBytes]
  cases (utf8? content).bind strict? with
  | none => rfl
  | some text => exact congrArg (Except.mapError FileLoadFault.load) (hread text)

end Colloquy
