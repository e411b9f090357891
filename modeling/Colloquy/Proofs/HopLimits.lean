import Colloquy.Proofs.SessionHistory
import Colloquy.Proofs.WorkedKeywords

/-!
# The greatest number of keywords

A turn that has worked on as many keywords as it may, and comes to one more, is stopped and answers with
the canned phrase of its limit. The greatest number of keywords does nothing else: a turn that is not
stopped is the same turn whatever greater number is chosen.
-/

namespace Colloquy

theorem State.exists_phrase_advance (s : State) :
    ∃ phrase, phrases[s.advance.limit - 1]? = some phrase ∧ s.advance.phrase = phrase := by
  have hlimit : s.advance.limit - 1 < phrases.length := Nat.mod_lt _ (by decide)
  exact ⟨phrases[s.advance.limit - 1], List.getElem?_eq_getElem hlimit,
    by rw [phrase, List.getElem?_eq_getElem hlimit, Option.getD_some]⟩

theorem State.phrase_congr {s next : State} (h : next.limit = s.limit) : next.phrase = s.phrase := by
  rw [phrase, h, phrase]

namespace Repertoire

variable {r : Repertoire} {o : Options} {hops : Nat} {keystack words : List Word} {s : State}

/-! ### Working a keystack off -/

theorem worked_work_le (r : Repertoire) (o : Options) (hops : Nat) (keystack words : List Word)
    (s : State) : (r.work o hops keystack words s).worked ≤ hops := by
  induction hops, keystack, words, s using work_induction r o with
  | idle hops words s =>
    rw [work_nil, worked_fallBack]
    exact Nat.zero_le hops
  | cutOff keyword keystack words s => exact Nat.le_refl 0
  | ends hops keyword keystack words s t count unstopped eq =>
    rw [eq o.maxHops hops, count]
    exact Nat.succ_le_succ (Nat.zero_le hops)
  | goesOn hops keyword keystack words s events next following count unstopped limit eq ih =>
    rw [eq o.maxHops hops, Turn.worked_after, count, Nat.add_comm]
    exact Nat.succ_le_succ ih

/-- A turn that is stopped has worked on as many keywords as it may and answers with a canned phrase. -/
theorem parts_of_stopped_work (h : (r.work o hops keystack words s).stopped = true) :
    let t := r.work o hops keystack words s
    t.worked = hops ∧ t.state.limit = s.limit ∧ t.reply = .ok s.phrase := by
  induction hops, keystack, words, s using work_induction r o with
  | idle hops words s =>
    rw [work_nil, stopped_fallBack] at h
    cases h
  | cutOff keyword keystack words s => exact ⟨rfl, rfl, rfl⟩
  | ends hops keyword keystack words s t count unstopped eq =>
    rw [eq o.maxHops hops, unstopped] at h
    cases h
  | goesOn hops keyword keystack words s events next following count unstopped limit eq ih =>
    rw [eq o.maxHops hops, Turn.stopped_after, unstopped, Bool.false_or] at h
    obtain ⟨hworked, hlimit, hreply⟩ := ih h
    rw [eq o.maxHops hops]
    refine ⟨?_, hlimit.trans limit, hreply.trans (by rw [State.phrase_congr limit])⟩
    rw [Turn.worked_after, count, Nat.add_comm]
    exact congrArg (· + 1) hworked

/-- A turn that is stopped has a keyword left, which it works on if it may. -/
theorem lt_worked_of_stopped_work (h : (r.work o hops keystack words s).stopped = true)
    (maxHops : Int) {more : Nat} (hmore : hops < more) :
    hops < (r.work { o with maxHops := maxHops } more keystack words s).worked := by
  induction hops, keystack, words, s using work_induction r o generalizing more with
  | idle hops words s =>
    rw [work_nil, stopped_fallBack] at h
    cases h
  | cutOff keyword keystack words s =>
    obtain ⟨more, rfl⟩ := Nat.exists_eq_succ_of_ne_zero (Nat.ne_zero_of_lt hmore)
    rcases worked_work_cons { o with maxHops := maxHops } more keyword keystack words s with
      hone | ⟨next, following, -, hworked⟩
    · exact hone ▸ Nat.zero_lt_one
    · exact hworked ▸ Nat.succ_pos _
  | ends hops keyword keystack words s t count unstopped eq =>
    rw [eq o.maxHops hops, unstopped] at h
    cases h
  | goesOn hops keyword keystack words s events next following count unstopped limit eq ih =>
    obtain ⟨more, rfl⟩ := Nat.exists_eq_succ_of_ne_zero (Nat.ne_zero_of_lt hmore)
    rw [eq o.maxHops hops, Turn.stopped_after, unstopped, Bool.false_or] at h
    have hlt := ih h (Nat.lt_of_succ_lt_succ hmore)
    rw [eq maxHops more, Turn.worked_after, count]
    omega

/-- A turn that is not stopped is the same one if it may work on more keywords. -/
theorem work_eq_of_unstopped (h : (r.work o hops keystack words s).stopped = false)
    (maxHops : Int) {more : Nat} (hmore : hops ≤ more) :
    r.work { o with maxHops := maxHops } more keystack words s =
      r.work o hops keystack words s := by
  induction hops, keystack, words, s using work_induction r o generalizing more with
  | idle hops words s => rw [work_nil, work_nil]
  | cutOff keyword keystack words s => cases h
  | ends hops keyword keystack words s t count unstopped eq =>
    obtain ⟨more, rfl⟩ := Nat.exists_eq_succ_of_ne_zero (Nat.ne_zero_of_lt hmore)
    exact (eq maxHops more).trans (eq o.maxHops hops).symm
  | goesOn hops keyword keystack words s events next following count unstopped limit eq ih =>
    obtain ⟨more, rfl⟩ := Nat.exists_eq_succ_of_ne_zero (Nat.ne_zero_of_lt hmore)
    have hwork := eq o.maxHops hops
    rw [hwork, Turn.stopped_after, unstopped, Bool.false_or] at h
    calc r.work { o with maxHops := maxHops } (more + 1) (keyword :: keystack) words s
        = (r.work { o with maxHops := maxHops } more next.keystack next.words following).after
            events := eq maxHops more
      _ = (r.work o hops next.keystack next.words following).after events := by
          rw [ih h (Nat.le_of_succ_le_succ hmore)]
      _ = r.work o (hops + 1) (keyword :: keystack) words s := hwork.symm

/-! ### Turns -/

/-- A turn works its keystack off, or it has no keywords and is the same one whatever the greatest number of
them is. -/
theorem turn_works_or_idles (r : Repertoire) (o : Options) (s : State) (text : List Char) :
    (∃ (events : List Event) (clause : Clause), events.countP Event.isWorking = 0 ∧
      events.any Event.isHopLimit = false ∧
      ∀ maxHops, r.turn { o with maxHops := maxHops } s text =
        Turn.after events (r.work { o with maxHops := maxHops } maxHops.toNat clause.keystack
          clause.words s.advance)) ∨
    ∃ t : Turn, t.worked = 0 ∧ t.stopped = false ∧
      ∀ maxHops, r.turn { o with maxHops := maxHops } s text = t := by
  by_cases hkeystack : (scan r.script.rules (CardCode.normalize text)).keystack.isEmpty
  · refine .inr ⟨r.turn o s text, ?_, ?_, fun maxHops => ?_⟩
    · rw [turn_eq, if_pos hkeystack]
      split
      · rfl
      · simp only [Turn.worked_after, worked_fallBack]
        rfl
    · rw [turn_eq, if_pos hkeystack]
      split
      · rfl
      · simp only [Turn.stopped_after, stopped_fallBack]
        rfl
    · simp only [turn_eq, hkeystack, if_true]
  · refine .inl ⟨[.started s.advance.limit, .memories s.advance.memories],
      scan r.script.rules (CardCode.normalize text), rfl, rfl, fun maxHops => ?_⟩
    rw [turn_eq, if_neg hkeystack]

/-- A turn works on no more keywords than it may. If it is stopped it has worked on just as many and has more
of them to work on, and it answers with the canned phrase of its limit. If it is not stopped it is
the same turn, with the same answer and the same state after it, whatever greater number of keywords
it may work on. -/
theorem turns_cut_off_after_hops (r : Repertoire) (o : Options) (hhops : 1 ≤ o.maxHops) (s : State)
    (text : List Char) :
    let t := r.turn o s text
    t.worked ≤ o.maxHops ∧
      (t.stopped = true →
        t.worked = o.maxHops ∧
        (∀ more, o.maxHops < more →
          o.maxHops < (r.turn { o with maxHops := more } s text).worked) ∧
        t.state.limit = s.limit % State.limitCycle + 1 ∧
        ∃ phrase, State.phrases[t.state.limit - 1]? = some phrase ∧ t.reply = .ok phrase) ∧
      (t.stopped = false → ∀ more, o.maxHops ≤ more →
        r.turn { o with maxHops := more } s text = t) := by
  intro t
  rcases turn_works_or_idles r o s text with
    ⟨events, clause, hcount, hunstopped, hturn⟩ | ⟨idle, hworked, hstopped, hturn⟩
  · have ht : t = _ := hturn o.maxHops
    have hworked : t.worked = (r.work o o.maxHops.toNat clause.keystack clause.words s.advance).worked := by
      rw [ht, Turn.worked_after, hcount, Nat.zero_add]
    have hstopped : t.stopped =
        (r.work o o.maxHops.toNat clause.keystack clause.words s.advance).stopped := by
      rw [ht, Turn.stopped_after, hunstopped, Bool.false_or]
    refine ⟨?_, fun h => ?_, fun h more hmore => ?_⟩
    · have hle := worked_work_le r o o.maxHops.toNat clause.keystack clause.words s.advance
      omega
    · rw [hstopped] at h
      obtain ⟨hall, hlimit, hreply⟩ := parts_of_stopped_work h
      obtain ⟨phrase, hphrase, hchosen⟩ := s.exists_phrase_advance
      have hstate : t.state.limit = s.advance.limit := by
        rw [ht]
        exact hlimit
      refine ⟨by omega, fun more hmore => ?_, hstate, phrase, hstate ▸ hphrase, ?_⟩
      · have hless : o.maxHops.toNat < more.toNat := by omega
        have hlt := lt_worked_of_stopped_work h more hless
        rw [hturn more, Turn.worked_after, hcount]
        omega
      · rw [ht, ← hchosen]
        exact hreply
    · rw [hstopped] at h
      rw [ht, hturn more, work_eq_of_unstopped h more (Int.toNat_le_toNat hmore)]
  · have ht : t = idle := hturn o.maxHops
    refine ⟨?_, fun h => ?_, fun _ more _ => (hturn more).trans ht.symm⟩
    · rw [ht, hworked]
      exact Int.le_trans (by decide) hhops
    · rw [ht, hstopped] at h
      cases h

/-- Two keywords are too few for a chain of three, and three are enough. -/
theorem chain_of_three_keywords :
    ∃ script session,
      Script.read "(HI) (NONE ((0) (OH))) (AAA (=AA)) (AA ((0) (PRE (1) (=A)))) (A ((0) (OK)))
        (MEMORY A (0 = A) (0 = B) (0 = C) (0 = D))".toList = .ok script ∧
      Session.start script ⟨true, 2⟩ .silent = .ok session ∧
      let turn (hops : Int) := session.repertoire.turn ⟨true, hops⟩ session.state "AAA".toList
      (turn 2).worked = (2 : Int) ∧ (2 : Int) < (turn 3).worked ∧
        (∃ phrase, State.phrases[(turn 2).state.limit - 1]? = some phrase ∧
          (turn 2).reply = .ok phrase) ∧
        (turn 3).worked ≤ (3 : Int) ∧ turn 10000 = turn 3 := by
  refine (Session.exists_start_of_any
    (p := fun session =>
      (session.repertoire.turn ⟨true, 2⟩ session.state "AAA".toList).stopped &&
        !(session.repertoire.turn ⟨true, 3⟩ session.state "AAA".toList).stopped)
      ?_).imp fun script => Exists.imp fun session h => ⟨h.1, h.2.1, ?_⟩
  · decide +kernel
  · obtain ⟨hstopped, hunstopped⟩ := (Bool.and_eq_true _ _).mp h.2.2
    obtain ⟨-, hcut, -⟩ := turns_cut_off_after_hops session.repertoire ⟨true, 2⟩ (by decide)
      session.state "AAA".toList
    obtain ⟨hworked, hmore, -, hreply⟩ := hcut hstopped
    obtain ⟨hle, -, hsame⟩ := turns_cut_off_after_hops session.repertoire ⟨true, 3⟩ (by decide)
      session.state "AAA".toList
    exact ⟨hworked, hmore 3 (by decide), hreply, hle,
      hsame (by simpa using hunstopped) 10000 (by decide)⟩

end Repertoire

end Colloquy
