import Colloquy.Proofs.LoadedScripts
import Colloquy.Proofs.MiddleBits

/-!
# What can go wrong when a rule is applied

On a steady script, as every loaded one is, the pointer of every pattern stays among the reassemblies
of the pattern. A rule that is applied then finds the reassembly that it looks for, and the memory rule
finds its pair, so nothing but a numeral in a template that is filled can go wrong.
-/

namespace Colloquy

open Numerals ScriptGrammar

/-! ### Templates -/

/-- A term of the template is the numeral that was to be read and has too many digits. -/
def HoldsOversized (template : List Word) (numeral : Oversized) : Prop :=
  numeral.wasRead = true ∧ ∃ term ∈ template, isNumeral term = true ∧ term.length = numeral.digits

theorem Numerals.read_eq_error {w : Word} {numeral : Oversized}
    (h : Numerals.read w = .error numeral) :
    numeral.wasRead = true ∧ isNumeral w = true ∧ w.length = numeral.digits := by
  unfold Numerals.read valueWithin at h
  split at h
  · rename_i hnumeral
    split at h
    · cases h
    · cases h
      exact ⟨rfl, hnumeral, rfl⟩
  · cases h

theorem reassemble_eq_error {parts template : List Word} {numeral : Oversized}
    (h : reassemble parts template = .error numeral) : HoldsOversized template numeral := by
  induction template with
  | nil => cases h
  | cons term terms ih =>
    rw [reassemble] at h
    cases hterm : expandTerm parts term with
    | error e =>
      rw [hterm] at h
      cases h
      have hread : Numerals.read term = .error numeral := by
        unfold expandTerm at hterm
        split at hterm
        · rename_i hread
          cases hterm
          exact hread
        · cases hterm
        · cases hterm
      obtain ⟨hwas, hnumeral⟩ := Numerals.read_eq_error hread
      exact ⟨hwas, term, List.mem_cons_self, hnumeral⟩
    | ok words =>
      rw [hterm] at h
      cases hterms : reassemble parts terms with
      | ok rest =>
        rw [hterms] at h
        cases h
      | error e =>
        rw [hterms] at h
        cases h
        obtain ⟨hwas, other, hother, hnumeral⟩ := ih hterms
        exact ⟨hwas, other, List.mem_cons_of_mem _ hother, hnumeral⟩

theorem Reassembly.resolve_eq_error {parts : List Word} {r : Reassembly} {numeral : Oversized}
    (h : r.resolve parts = .error numeral) :
    ∃ template, r.template? = some template ∧ HoldsOversized template numeral := by
  have herror {terms : List Word} {f : List Word → Outcome}
      (hmap : (reassemble parts terms).map f = .error numeral) : HoldsOversized terms numeral := by
    cases hterms : reassemble parts terms with
    | ok words =>
      rw [hterms] at hmap
      cases hmap
    | error e =>
      rw [hterms] at hmap
      cases hmap
      exact reassemble_eq_error hterms
  cases r with
  | template terms => exact ⟨terms, rfl, herror h⟩
  | pre terms target => exact ⟨terms, rfl, herror h⟩
  | newKey => cases h
  | link target => cases h

/-! ### Pointers -/

namespace Cycles

theorem lookup_setPointer (key other : CycleKey) (place : Int) (entries : List (CycleKey × Int)) :
    (setPointer key place entries).lookup other =
      if other = key then some place else entries.lookup other := by
  induction entries with
  | nil =>
    by_cases hother : other = key
    · simp [setPointer, hother]
    · simp [setPointer, List.lookup_cons, beq_false_of_ne hother, hother]
  | cons entry rest ih =>
    obtain ⟨first, value⟩ := entry
    rw [setPointer]
    by_cases hfirst : first = key
    · subst hfirst
      by_cases hother : other = first
      · simp [hother]
      · simp [List.lookup_cons, beq_false_of_ne hother, hother]
    · rw [if_neg hfirst, List.lookup_cons, ih, List.lookup_cons]
      by_cases hother : other = first
      · subst hother
        simp [hfirst]
      · simp [beq_false_of_ne hother]

theorem peek_advance? {c moved : Cycles} {key : CycleKey} {size : Int}
    (h : c.advance? key size = some moved) (other : CycleKey) :
    moved.peek other = if other = key then (c.peek key + 1).fmod size else c.peek other := by
  unfold advance? at h
  split at h
  · cases h
  · cases h
    rw [peek, lookup_setPointer]
    split
    · rfl
    · rfl

theorem advance?_isSome {size : Int} (c : Cycles) (key : CycleKey) (h : size ≠ 0) :
    ∃ moved, c.advance? key size = some moved := by
  rw [advance?, if_neg h]
  exact ⟨_, rfl⟩

end Cycles

/-- The pointer of every pattern stands at one of its reassemblies. -/
def PointersInRange (rules : WordMap Rule) (cycles : Cycles) : Prop :=
  ∀ key rule ts link, rules.get? key = some rule → rule.body = .transform ts link →
    ∀ (index : Nat) (t : Transformation), ts[index]? = some t →
      0 ≤ cycles.peek (rule.keyword, index) ∧
        cycles.peek (rule.keyword, index) < t.reassemblies.length

theorem itemAt?_eq_some {α : Type} {items : List α} {place : Int} (hnonneg : 0 ≤ place)
    (hlt : place < items.length) : ∃ item, itemAt? items place = some item := by
  have hplace : place.toNat < items.length := by omega
  rw [itemAt?, if_pos hnonneg]
  exact ⟨_, List.getElem?_eq_getElem hplace⟩

theorem firstMatch_eq_some {tags : Tags} {words parts : List Word} {start index : Nat}
    {ts : List Transformation} {t : Transformation}
    (h : firstMatch tags words start ts = some (index, t, parts)) :
    ∃ place, index = start + place ∧ ts[place]? = some t := by
  induction ts generalizing start with
  | nil => cases h
  | cons first rest ih =>
    rw [firstMatch] at h
    split at h
    · cases h
      exact ⟨0, rfl, rfl⟩
    · obtain ⟨place, hindex, ht⟩ := ih h
      exact ⟨place + 1, by omega, ht⟩

theorem apply_of_firstMatch {tags : Tags} {words parts : List Word} {start index : Nat}
    {ts : List Transformation} {t : Transformation}
    (h : firstMatch tags words start ts = some (index, t, parts)) :
    t.decomposition.apply tags words = some parts := by
  induction ts generalizing start with
  | nil => cases h
  | cons first rest ih =>
    rw [firstMatch] at h
    split at h
    · rename_i hparts
      cases h
      exact hparts
    · exact ih h

def Rule.first? (r : Rule) : Option Transformation :=
  match r.body with
  | .transform ts _ => ts.head?
  | _ => none

theorem Rule.exists_body_of_first? {r : Rule} {t : Transformation} (h : r.first? = some t) :
    ∃ ts link, r.body = .transform (t :: ts) link := by
  unfold first? at h
  split at h
  · rename_i transformations link hbody
    obtain ⟨ts, rfl⟩ := List.head?_eq_some_iff.mp h
    exact ⟨ts, link, hbody⟩
  · cases h

/-- Every pattern has a reassembly, patterns that share a pointer have the same number of them, and the
memory rule has all its pairs. -/
structure Script.Steady (s : Script) : Prop where
  reassemblies : ∀ {key : Word} {rule : Rule} {ts : List Transformation} {link : Option Word},
    s.rules.get? key = some rule → rule.body = .transform ts link → ∀ t ∈ ts, t.reassemblies ≠ []
  shared : ∀ {key other : Word} {first second : Rule} {ts us : List Transformation}
    {link otherLink : Option Word}, s.rules.get? key = some first → first.body = .transform ts link →
    s.rules.get? other = some second → second.body = .transform us otherLink →
    first.keyword = second.keyword → ∀ {index : Nat} {t u : Transformation},
      ts[index]? = some t → us[index]? = some u → t.reassemblies.length = u.reassemblies.length
  pairs : ∀ {m : MemoryRule}, s.memoryRule? = some m → MemoryRule.pairCount ≤ m.pairs.length

namespace Script.Loaded

variable {s : Script} (hs : s.Loaded)
include hs

theorem loadedRule {key : Word} {rule : Rule} (h : s.rules.get? key = some rule) :
    LoadedRule key rule :=
  hs.rules _ (WordMap.mem_entries.mpr h)

theorem keyword_eq {key : Word} {rule : Rule} {ts : List Transformation} {link : Option Word}
    (h : s.rules.get? key = some rule) (hbody : rule.body = .transform ts link) :
    rule.keyword = key := by
  refine (hs.loadedRule h).keyword_eq ?_
  rw [Rule.memory?, hbody]

theorem length_pairs {m : MemoryRule} (h : s.memoryRule? = some m) :
    m.pairs.length = MemoryRule.pairCount := by
  obtain ⟨rule, hrule, hm⟩ := Option.bind_eq_some_iff.mp h
  exact ((hs.loadedRule hrule).memory?_eq_some hm).2.2

/-- A keyword of a loaded script has one rule only, so its pointers are those of one rule. -/
theorem steady : s.Steady where
  reassemblies hrule hbody := (hs.loadedRule hrule).reassemblies_ne_nil hbody
  shared hfirst hbody hsecond hother hkeyword index t u ht hu := by
    rw [hs.keyword_eq hfirst hbody, hs.keyword_eq hsecond hother] at hkeyword
    rw [hkeyword, hsecond] at hfirst
    cases hfirst
    cases hbody.symm.trans hother
    cases ht.symm.trans hu
    rfl
  pairs hm := Nat.le_of_eq (hs.length_pairs hm).symm

end Script.Loaded

namespace Script.Steady

variable {s : Script} (hs : s.Steady)
include hs

theorem length_reassemblies_pos {key : Word} {rule : Rule} {ts : List Transformation}
    {link : Option Word} (hrule : s.rules.get? key = some rule)
    (hbody : rule.body = .transform ts link) {index : Nat} {t : Transformation}
    (ht : ts[index]? = some t) : (0 : Int) < t.reassemblies.length := by
  have hne := hs.reassemblies hrule hbody t (List.mem_of_getElem? ht)
  have hpos := List.length_pos_iff.mpr hne
  omega

theorem pointersInRange_start : PointersInRange s.rules Cycles.start := by
  intro key rule ts link hrule hbody index t ht
  have hstart : Cycles.start.peek (rule.keyword, index) = 0 := rfl
  rw [hstart]
  exact ⟨Int.le_refl _, hs.length_reassemblies_pos hrule hbody ht⟩

/-- Moving the pointer of one pattern round its reassemblies keeps all pointers in range. -/
theorem pointersInRange_advance {cycles moved : Cycles} (hc : PointersInRange s.rules cycles)
    {key : Word} {rule : Rule} {ts : List Transformation} {link : Option Word}
    (hrule : s.rules.get? key = some rule) (hbody : rule.body = .transform ts link)
    {index : Nat} {t : Transformation} (ht : ts[index]? = some t)
    (hmoved : cycles.advance? (rule.keyword, index) t.reassemblies.length = some moved) :
    PointersInRange s.rules moved := by
  intro otherKey other others otherLink hother hotherBody place u hu
  rw [Cycles.peek_advance? hmoved]
  split
  · rename_i hsame
    -- The pointer that has been moved may be shared, but only with patterns of the same size.
    obtain ⟨hkeyword, hplace⟩ := Prod.mk.inj hsame
    obtain rfl : place = index := by omega
    have hsize := hs.shared hrule hbody hother hotherBody hkeyword.symm ht hu
    have hlength := hs.length_reassemblies_pos hrule hbody ht
    rw [← hsize]
    exact ⟨Int.fmod_nonneg_of_pos _ hlength, Int.fmod_lt_of_pos _ hlength⟩
  · exact hc otherKey other others otherLink hother hotherBody place u hu

end Script.Steady

/-! ### Rules -/

/-- A rule has been applied safely: the pointers are in range, and if there is no outcome a numeral
in the template that has been filled is too long. -/
structure Applied.Safe (rules : WordMap Rule) (applied : Applied) : Prop where
  pointers : PointersInRange rules applied.cycles
  result : ∀ fault, applied.result = .error fault → ∃ numeral template,
    fault = .oversized numeral ∧ applied.template = some template ∧ HoldsOversized template numeral

theorem Script.Steady.safe_applyTransformation {s : Script} (hs : s.Steady) {cycles : Cycles}
    (hc : PointersInRange s.rules cycles) {key : Word} {rule : Rule} {ts : List Transformation}
    {link : Option Word} (hrule : s.rules.get? key = some rule)
    (hbody : rule.body = .transform ts link) {index : Nat} {t : Transformation}
    (ht : ts[index]? = some t) (parts : List Word) :
    (Rule.applyTransformation (rule.keyword, index) t parts cycles).Safe s.rules := by
  have hlength := hs.length_reassemblies_pos hrule hbody ht
  obtain ⟨moved, hmoved⟩ := cycles.advance?_isSome (rule.keyword, index) (Int.ne_of_gt hlength)
  obtain ⟨hnonneg, hlt⟩ := hc key rule ts link hrule hbody index t ht
  obtain ⟨reassembly, hreassembly⟩ := itemAt?_eq_some hnonneg hlt
  rw [Rule.applyTransformation, hmoved]
  refine ⟨hs.pointersInRange_advance hc hrule hbody ht hmoved, fun fault hfault => ?_⟩
  simp only [hreassembly] at hfault ⊢
  split at hfault
  · rename_i numeral hresolve
    cases hfault
    obtain ⟨template, htemplate, hholds⟩ := Reassembly.resolve_eq_error hresolve
    exact ⟨numeral, template, rfl, htemplate, hholds⟩
  · cases hfault

theorem Script.Steady.safe_apply {s : Script} (hs : s.Steady) {cycles : Cycles}
    (hc : PointersInRange s.rules cycles) {key : Word} {rule : Rule}
    (hrule : s.rules.get? key = some rule) (tags : Tags) (words : List Word) :
    (rule.apply tags words cycles).Safe s.rules := by
  have hok (application : Application) (template : Option (List Word)) :
      Applied.Safe s.rules ⟨.ok application, cycles, none, template⟩ :=
    ⟨hc, fun fault hfault => by cases hfault⟩
  unfold Rule.apply
  split
  · exact hok _ _
  · exact hok _ _
  · exact hok _ _
  · exact hok _ _
  · split
    · exact hok _ _
    · split
      · rename_i terms target _ parts _ _ numeral hresolve
        refine ⟨hc, fun fault hfault => ?_⟩
        cases hfault
        obtain ⟨template, htemplate, hholds⟩ := Reassembly.resolve_eq_error hresolve
        exact ⟨numeral, template, rfl, htemplate, hholds⟩
      · exact hok _ _
  · rename_i transformations link hbody
    split
    · rename_i index t parts hmatch
      obtain ⟨place, hindex, ht⟩ := firstMatch_eq_some hmatch
      rw [Nat.zero_add] at hindex
      rw [hindex]
      exact hs.safe_applyTransformation hc hrule hbody ht parts
    · split
      · exact hok _ _
      · exact hok _ _

/-- A numeral for which a rule fails, whatever its script, was to be read. -/
theorem Rule.wasRead_of_apply {rule : Rule} {tags : Tags} {words : List Word} {cycles : Cycles}
    {numeral : Oversized}
    (h : (rule.apply tags words cycles).result = .error (.oversized numeral)) :
    numeral.wasRead = true := by
  unfold Rule.apply at h
  split at h
  · cases h
  · cases h
  · cases h
  · cases h
  · split at h
    · cases h
    · split at h
      · rename_i hresolve
        cases h
        obtain ⟨template, -, hwas, -⟩ := Reassembly.resolve_eq_error hresolve
        exact hwas
      · cases h
  · split at h
    · unfold applyTransformation at h
      split at h
      · cases h
      · simp only at h
        split at h
        · cases h
        · split at h
          · rename_i hresolve
            cases h
            obtain ⟨template, -, hwas, -⟩ := Reassembly.resolve_eq_error hresolve
            exact hwas
          · cases h
    · split at h <;> cases h

/-! ### The memory rule -/

namespace MemoryRule

theorem choose_ne_missing {m : MemoryRule} (hm : pairCount ≤ m.pairs.length) (words : List Word) :
    m.choose words ≠ .error .missing := by
  unfold choose
  split
  · simp
  · rename_i datum _
    have hlt : MiddleSquare.hash datum hashBits < m.pairs.length :=
      Nat.lt_of_lt_of_le (MiddleSquare.hash_lt datum hashBits) hm
    simp [hlt]

/-- A numeral for which an attempt to make a memory fails was to be read. -/
theorem wasRead_of_recollect {m : MemoryRule} {tags : Tags} {keyword : Word} {words : List Word}
    {numeral : Oversized} (h : m.recollect tags keyword words = .error (.oversized numeral)) :
    numeral.wasRead = true := by
  unfold recollect at h
  split at h
  · split at h
    · cases h
    · cases h
    · split at h
      · cases h
      · split at h
        · rename_i hreassemble
          cases h
          exact (reassemble_eq_error hreassemble).1
        · cases h
  · cases h

/-- A memory rule with all its pairs fails only for a numeral in the template that is filled. -/
theorem recollect_eq_error {m : MemoryRule} (hm : pairCount ≤ m.pairs.length) {tags : Tags}
    {keyword : Word} {words : List Word} {fault : Fault}
    (h : m.recollect tags keyword words = .error fault) :
    ∃ numeral template, fault = .oversized numeral ∧
      m.template? tags keyword words = some template ∧ HoldsOversized template numeral := by
  unfold recollect at h
  split at h
  · rename_i hkeyword
    split at h
    · cases h
    · rename_i hmissing
      exact absurd hmissing (choose_ne_missing hm words)
    · rename_i place hplace
      split at h
      · cases h
      · rename_i parts hparts
        split at h
        · rename_i numeral hreassemble
          cases h
          refine ⟨numeral, m.pairs[place].template, rfl, ?_, reassemble_eq_error hreassemble⟩
          rw [template?, if_pos hkeyword, hplace]
          exact congrArg (Option.map fun _ => m.pairs[place].template) hparts
        · cases h
  · cases h

end MemoryRule

end Colloquy
