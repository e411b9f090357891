import Colloquy.Proofs.KeystackCourse

/-!
# The number of keywords worked on

A turn goes in stages from keyword to keyword. In each of them it works on one keyword and then ends, or
goes on with another clause, and which of the two it does has nothing to do with the number of keywords
that it may still work on. A turn that works on some number of keywords has come from the clause of its
text to the last of them by one step from clause to clause less. So what bounds the steps bounds the
keywords that a turn works on.
-/

namespace Colloquy

def Event.isWorking : Event → Bool
  | .working .. => true
  | _ => false

def Event.isHopLimit : Event → Bool
  | .hopLimit .. => true
  | _ => false

def Turn.worked (t : Turn) : Nat :=
  t.events.countP Event.isWorking

@[simp] theorem Turn.worked_after (events : List Event) (t : Turn) :
    (t.after events).worked = events.countP Event.isWorking + t.worked :=
  List.countP_append

/-- The turn is stopped for having worked on as many keywords as it may. -/
def Turn.stopped (t : Turn) : Bool :=
  t.events.any Event.isHopLimit

@[simp] theorem Turn.stopped_after (events : List Event) (t : Turn) :
    (t.after events).stopped = (events.any Event.isHopLimit || t.stopped) :=
  List.any_append

namespace Repertoire

variable {r : Repertoire}

/-- The NONE rule is applied without a keyword. -/
theorem untold_of_mem_fallBack {words : List Word} {s : State} {event : Event}
    (h : event ∈ (r.fallBack words s).events) :
    event.isWorking = false ∧ event.isHopLimit = false := by
  have htells : r.Tells 0 ⟨[], words⟩ event := tells_of_mem_fallBack h
  cases htells <;> exact ⟨rfl, rfl⟩

theorem worked_fallBack (words : List Word) (s : State) : (r.fallBack words s).worked = 0 :=
  List.countP_eq_zero.mpr fun _ h => by simp [(untold_of_mem_fallBack h).1]

theorem stopped_fallBack (words : List Word) (s : State) : (r.fallBack words s).stopped = false :=
  List.any_eq_false.mpr fun _ h => by simp [(untold_of_mem_fallBack h).2]

theorem worked_giveUp (o : Options) (words : List Word) (s : State) :
    (r.giveUp o words s).worked = 0 := by
  rw [giveUp_eq]
  split
  · rfl
  · exact worked_fallBack words s

theorem stopped_giveUp (o : Options) (words : List Word) (s : State) :
    (r.giveUp o words s).stopped = false := by
  rw [giveUp_eq]
  split
  · rfl
  · exact stopped_fallBack words s

/-! ### Stages -/

/-- What becomes of a turn at a clause, whatever the number of keywords that it may work on: it ends, or it
goes on with another clause. Until then it works on the given number of keywords and is not
stopped. -/
inductive Stage (r : Repertoire) (o : Options) (clause : Clause) (s : State) (worked : Nat)
    (turn : Int → Nat → Turn) : Prop where
  | ends (t : Turn) (count : t.worked = worked) (unstopped : t.stopped = false)
      (eq : ∀ maxHops hops, turn maxHops hops = t)
  | goesOn (events : List Event) (next : Clause) (following : State)
      (count : events.countP Event.isWorking = worked)
      (unstopped : events.any Event.isHopLimit = false) (limit : following.limit = s.limit)
      (leads : r.Leads clause next)
      (eq : ∀ maxHops hops, turn maxHops hops = Turn.after events
        (r.work { o with maxHops := maxHops } hops next.keystack next.words following))

variable {o : Options} {clause : Clause} {s : State} {n : Nat}

theorem Stage.after {turn : Int → Nat → Turn} (h : r.Stage o clause s n turn) {events : List Event}
    {m : Nat} (hcount : events.countP Event.isWorking + n = m)
    (hunstopped : events.any Event.isHopLimit = false) :
    r.Stage o clause s m fun maxHops hops => (turn maxHops hops).after events := by
  subst hcount
  cases h with
  | ends t count unstopped eq =>
    refine .ends (t.after events) ?_ ?_ fun maxHops hops => ?_
    · rw [Turn.worked_after, count]
    · rw [Turn.stopped_after, hunstopped, unstopped, Bool.false_or]
    · rw [eq]
  | goesOn told next following count unstopped limit leads eq =>
    refine .goesOn (events ++ told) next following ?_ ?_ limit leads fun maxHops hops => ?_
    · rw [List.countP_append, count]
    · rw [List.any_append, hunstopped, unstopped, Bool.false_or]
    · rw [eq, Turn.after_after]

theorem stage_applying {rule : Rule} {words : List Word} {here : State}
    {next : Int → Nat → Application → State → Turn}
    (hnext : ∀ application following, following.limit = here.limit →
      (rule.apply r.tags words here.cycles).result = .ok application →
      r.Stage o clause s 0 fun maxHops hops => next maxHops hops application following) :
    r.Stage o clause s 0 fun maxHops hops => r.applying rule words here (next maxHops hops) := by
  have hcount : ((rule.apply r.tags words here.cycles).events rule words).countP
      Event.isWorking + 0 = 0 := by
    simp [Applied.events, Event.isWorking]
  have hunstopped : ((rule.apply r.tags words here.cycles).events rule words).any
      Event.isHopLimit = false := by
    simp [Applied.events, Event.isHopLimit]
  simp only [applying_eq]
  refine Stage.after ?_ hcount hunstopped
  cases hresult : (rule.apply r.tags words here.cycles).result with
  | error fault => exact .ends _ rfl rfl fun _ _ => rfl
  | ok application => exact hnext application _ rfl hresult

/-- A keyword that may be worked on makes one stage of the turn. -/
theorem stage_work (o : Options) (keyword : Word) (keystack words : List Word) (s : State) :
    r.Stage o ⟨keyword :: keystack, words⟩ s 1 fun maxHops hops =>
      r.work { o with maxHops := maxHops } (hops + 1) (keyword :: keystack) words s := by
  -- A turn gives up in the same way whatever the number of keywords is.
  have hgiveUp (following : State) : r.Stage o ⟨keyword :: keystack, words⟩ s 0
      fun maxHops _ => r.giveUp { o with maxHops := maxHops } words following :=
    .ends (r.giveUp o words following) (worked_giveUp o words following)
      (stopped_giveUp o words following) fun _ _ => rfl
  simp only [work_succ_cons]
  refine Stage.after (n := 0) ?_ rfl rfl
  cases hrule : r.script.rules.get? keyword with
  | none => exact (hgiveUp s).after rfl rfl
  | some rule =>
    refine Stage.after (n := 0) ?_ (by simp [Event.isWorking]) (by simp [Event.isHopLimit])
    cases hmade : r.memoryRule.recollect r.tags keyword words with
    | error fault => exact .ends _ rfl rfl fun _ _ => rfl
    | ok recollection =>
      refine Stage.after (n := 0) ?_ rfl rfl
      refine stage_applying fun application following hlimit hresult => ?_
      have hkept : following.limit = s.limit := hlimit.trans (s.sameClock_keep recollection).1
      refine Stage.after (n := 0) ?_ rfl rfl
      cases houtcome : application.outcome with
      | complete reply => exact .ends _ rfl rfl fun _ _ => rfl
      | inapplicable => exact (hgiveUp following).after rfl rfl
      | newKey =>
        exact .goesOn [] ⟨keystack, words⟩ following rfl rfl hkept
          (.newKey hrule hresult houtcome) fun _ _ => rfl
      | link target rewritten =>
        exact .goesOn [] ⟨target :: keystack, rewritten.getD words⟩ following rfl rfl hkept
          (.link hrule hresult houtcome) fun _ _ => rfl

/-- A turn works on one keyword, or on one and on those that it works on after a clause that this one leads
to. -/
theorem worked_work_cons (o : Options) (hops : Nat) (keyword : Word) (keystack words : List Word)
    (s : State) :
    (r.work o (hops + 1) (keyword :: keystack) words s).worked = 1 ∨
      ∃ next following, r.Leads ⟨keyword :: keystack, words⟩ next ∧
        (r.work o (hops + 1) (keyword :: keystack) words s).worked =
          (r.work o hops next.keystack next.words following).worked + 1 := by
  cases stage_work o keyword keystack words s with
  | ends t count unstopped eq => exact .inl ((congrArg Turn.worked (eq o.maxHops hops)).trans count)
  | goesOn events next following count unstopped limit leads eq =>
    refine .inr ⟨next, following, leads, (congrArg Turn.worked (eq o.maxHops hops)).trans ?_⟩
    rw [Turn.worked_after, count, Nat.add_comm]

/-! ### From stage to stage -/

/-- What holds of a turn without keywords and of one that may not work on its first keyword, of a turn that
ends with its first keyword, and of one that goes on with another clause if it holds of the turn from
there on, holds of all turns. -/
theorem work_induction (r : Repertoire) (o : Options)
    {motive : Nat → List Word → List Word → State → Prop}
    (idle : ∀ hops words s, motive hops [] words s)
    (cutOff : ∀ keyword keystack words s, motive 0 (keyword :: keystack) words s)
    (ends : ∀ hops keyword keystack words s t, t.worked = 1 → t.stopped = false →
      (∀ maxHops more, r.work { o with maxHops := maxHops } (more + 1) (keyword :: keystack) words s =
        t) →
      motive (hops + 1) (keyword :: keystack) words s)
    (goesOn : ∀ hops keyword keystack words s events (next : Clause) (following : State),
      events.countP Event.isWorking = 1 → events.any Event.isHopLimit = false →
      following.limit = s.limit →
      (∀ maxHops more, r.work { o with maxHops := maxHops } (more + 1) (keyword :: keystack) words s =
        Turn.after events
          (r.work { o with maxHops := maxHops } more next.keystack next.words following)) →
      motive hops next.keystack next.words following →
      motive (hops + 1) (keyword :: keystack) words s)
    (hops : Nat) (keystack words : List Word) (s : State) : motive hops keystack words s := by
  induction hops generalizing keystack words s with
  | zero =>
    cases keystack with
    | nil => exact idle 0 words s
    | cons keyword keystack => exact cutOff keyword keystack words s
  | succ hops ih =>
    cases keystack with
    | nil => exact idle (hops + 1) words s
    | cons keyword keystack =>
      cases stage_work o keyword keystack words s with
      | ends t count unstopped eq => exact ends hops keyword keystack words s t count unstopped eq
      | goesOn events next following count unstopped limit leads eq =>
        exact goesOn hops keyword keystack words s events next following count unstopped limit eq
          (ih _ _ _)

/-- Before the last keyword is worked on, every other one has led from clause to clause. -/
theorem exists_reaches_of_lt_worked_work {o : Options} {hops n : Nat} {keystack words : List Word}
    {s : State} (h : n < (r.work o hops keystack words s).worked) :
    ∃ clause, r.Reaches n ⟨keystack, words⟩ clause ∧ clause.keystack ≠ [] := by
  induction hops generalizing n keystack words s with
  | zero =>
    cases keystack with
    | nil =>
      rw [work_nil, worked_fallBack] at h
      omega
    | cons keyword keystack => cases h
  | succ hops ih =>
    cases keystack with
    | nil =>
      rw [work_nil, worked_fallBack] at h
      omega
    | cons keyword keystack =>
      cases n with
      | zero => exact ⟨_, .here _, List.cons_ne_nil _ _⟩
      | succ n =>
        rcases worked_work_cons o hops keyword keystack words s with
          hone | ⟨next, following, hleads, hworked⟩
        · rw [hone] at h
          omega
        · obtain ⟨clause, hreaches, hne⟩ := ih (Nat.lt_of_succ_lt_succ (hworked ▸ h))
          exact ⟨clause, .step hleads hreaches, hne⟩

theorem exists_reaches_of_lt_worked {o : Options} {n : Nat} {s : State} {text : List Char}
    (h : n < (r.turn o s text).worked) :
    ∃ clause, r.Reaches n (scan r.script.rules (CardCode.normalize text)) clause ∧
      clause.keystack ≠ [] := by
  rw [turn_eq, Turn.worked_after] at h
  split at h
  · rw [Turn.worked_after] at h
    split at h
    · cases h
    · rw [worked_fallBack] at h
      cases h
  · exact exists_reaches_of_lt_worked_work (lt_of_lt_of_eq h (Nat.zero_add _))

end Repertoire

end Colloquy
