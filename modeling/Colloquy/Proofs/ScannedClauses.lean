import Mathlib.Data.List.Infix
import Colloquy.Conversation

/-!
# The clause that a turn works on

Delimiters divide a sentence into clauses. A scan takes the first clause with a keyword, or the last one if
there is none, replaces each of its words once and stacks its keywords: those that outrank all before them
come first, the last of them on top, and the others follow in their order. So the top one is the first of
those of highest rank, and no other clause has a part in the result.
-/

namespace Colloquy

/-- A word of a clause whose rule can be applied, with the precedence of the rule. -/
structure Keyword where
  word : Word
  precedence : Int
deriving DecidableEq

def keywordOf? (rules : WordMap Rule) (w : Word) : Option Keyword :=
  ((rules.get? w).filter Rule.hasTransformation).map fun rule => ⟨w, rule.precedence⟩

def keywordsOf (rules : WordMap Rule) (clause : List Word) : List Keyword :=
  clause.filterMap (keywordOf? rules)

/-- What stands for a word once the rule of the word, if there is one, has replaced it. -/
def substituted (rules : WordMap Rule) (w : Word) : Word :=
  ((rules.get? w).bind fun rule => rule.substituteFor w).getD w

namespace Keyword

/-- The keyword ranks above zero and above all those before it. -/
def Rises (earlier : List Keyword) (k : Keyword) : Prop :=
  0 < k.precedence ∧ ∀ e ∈ earlier, e.precedence < k.precedence

instance (earlier : List Keyword) (k : Keyword) : Decidable (k.Rises earlier) :=
  inferInstanceAs (Decidable (_ ∧ _))

def withEarlier (keywords : List Keyword) : List (Keyword × List Keyword) :=
  keywords.zip keywords.inits

/-- The order in which keywords are worked on: first those that rise above all before them, the last
of them first, then the others. -/
def stacked (keywords : List Keyword) : List Keyword :=
  ((withEarlier keywords).filter fun k => k.1.Rises k.2).reverse.map Prod.fst ++
    ((withEarlier keywords).filter fun k => ¬ k.1.Rises k.2).map Prod.fst

/-- The keyword is the first of those of highest precedence. -/
def LeadsAll (keywords : List Keyword) (k : Keyword) : Prop :=
  ∃ earlier later, keywords = earlier ++ k :: later ∧
    (∀ e ∈ earlier, e.precedence < k.precedence) ∧ ∀ l ∈ later, l.precedence ≤ k.precedence

end Keyword

/-- The clauses of a sentence, of which the last may be empty. -/
def clausesOf (words : List Word) : List (List Word) :=
  words.splitOnP Words.isDelimiter

/-- The first clause that holds a keyword, or the last clause if none does. -/
def chosenClause (rules : WordMap Rule) (words : List Word) : List Word :=
  (((clausesOf words).find? fun clause => !(keywordsOf rules clause).isEmpty).or
    (clausesOf words).getLast?).getD []

/-- The keywords of a clause in the order in which they are worked on, and its words with each replaced
once. -/
def Clause.ofWords (rules : WordMap Rule) (clause : List Word) : Clause :=
  ⟨(Keyword.stacked (keywordsOf rules clause)).map Keyword.word, clause.map (substituted rules)⟩

/-! ### Stacking keywords -/

namespace Keyword

theorem withEarlier_cons (k : Keyword) (keywords : List Keyword) :
    withEarlier (k :: keywords) =
      (k, []) :: (withEarlier keywords).map (Prod.map id (k :: ·)) := by
  rw [withEarlier, List.inits_cons, List.zip_cons_cons, List.zip_map_right]
  rfl

theorem withEarlier_append_singleton (keywords : List Keyword) (k : Keyword) :
    withEarlier (keywords ++ [k]) = withEarlier keywords ++ [(k, keywords)] := by
  induction keywords with
  | nil => rfl
  | cons head keywords ih =>
    rw [List.cons_append, withEarlier_cons, withEarlier_cons, ih, List.map_append]
    rfl

/-- A keyword that is found next goes on top if it rises, and to the end if it does not. -/
theorem stacked_append_singleton (keywords : List Keyword) (k : Keyword) :
    stacked (keywords ++ [k]) =
      if k.Rises keywords then k :: stacked keywords else stacked keywords ++ [k] := by
  unfold stacked
  rw [withEarlier_append_singleton]
  by_cases hrises : k.Rises keywords <;> simp [hrises]

theorem stacked_perm (keywords : List Keyword) : (stacked keywords).Perm keywords := by
  induction keywords using List.reverseRecOn with
  | nil => exact .nil
  | append_singleton keywords k ih =>
    rw [stacked_append_singleton]
    split
    · exact (ih.cons k).trans (List.perm_append_singleton k keywords).symm
    · exact ih.append_right [k]

theorem stacked_eq_nil_iff {keywords : List Keyword} : stacked keywords = [] ↔ keywords = [] := by
  constructor
  · intro h
    exact List.nil_perm.mp (h ▸ stacked_perm keywords)
  · rintro rfl
    rfl

/-- If no precedence is negative, the keyword on top is the first of those of highest precedence. -/
theorem exists_leadsAll {keywords : List Keyword} (hne : keywords ≠ [])
    (hnonneg : ∀ k ∈ keywords, 0 ≤ k.precedence) :
    ∃ k, LeadsAll keywords k ∧ (stacked keywords).head? = some k := by
  induction keywords using List.reverseRecOn with
  | nil => exact absurd rfl hne
  | append_singleton keywords k ih =>
    obtain ⟨hbefore, hlast⟩ := List.forall_mem_append.mp hnonneg
    have hk : 0 ≤ k.precedence := hlast k List.mem_cons_self
    rw [stacked_append_singleton]
    split
    · rename_i hrises
      exact ⟨k, ⟨keywords, [], rfl, hrises.2, nofun⟩, rfl⟩
    · rename_i hstays
      by_cases hkeywords : keywords = []
      · subst hkeywords
        exact ⟨k, ⟨[], [], rfl, nofun, nofun⟩, rfl⟩
      · obtain ⟨top, ⟨earlier, later, hsplit, hearlier, hlater⟩, hhead⟩ := ih hkeywords hbefore
        have htop : 0 ≤ top.precedence := hbefore top (by simp [hsplit])
        -- A last keyword that ranked above the top one would rank above all and rise.
        have hle : k.precedence ≤ top.precedence := by
          refine Int.not_lt.mp fun hlt => hstays ⟨by omega, fun e he => ?_⟩
          rw [hsplit] at he
          rcases List.mem_append.mp he with he | he
          · exact Int.lt_trans (hearlier e he) hlt
          · rcases List.mem_cons.mp he with rfl | he
            · exact hlt
            · exact Int.lt_of_le_of_lt (hlater e he) hlt
        refine ⟨top, ⟨earlier, later ++ [k], by simp [hsplit], hearlier, ?_⟩, ?_⟩
        · exact List.forall_mem_append.mpr ⟨hlater, List.forall_mem_singleton.mpr hle⟩
        · rw [List.head?_append, hhead]
          rfl

end Keyword

/-! ### The chosen clause -/

section

variable {rules : WordMap Rule} {front : List Word} {w : Word}

theorem keywordOf?_of_none (h : rules.get? w = none) : keywordOf? rules w = none := by
  rw [keywordOf?, h]
  rfl

theorem keywordOf?_of_transforms {rule : Rule} (h : rules.get? w = some rule)
    (htransforms : rule.hasTransformation = true) :
    keywordOf? rules w = some ⟨w, rule.precedence⟩ := by
  rw [keywordOf?, h, Option.filter_some, if_pos htransforms]
  rfl

theorem keywordOf?_of_inert {rule : Rule} (h : rules.get? w = some rule)
    (hinert : ¬ rule.hasTransformation = true) : keywordOf? rules w = none := by
  rw [keywordOf?, h, Option.filter_some, if_neg hinert]
  rfl

theorem substituted_of_none (h : rules.get? w = none) : substituted rules w = w := by
  rw [substituted, h]
  rfl

theorem substituted_of_some {rule : Rule} (h : rules.get? w = some rule) :
    substituted rules w = (rule.substituteFor w).getD w := by
  rw [substituted, h]
  rfl

theorem keywordsOf_append_of_none (h : keywordOf? rules w = none) :
    keywordsOf rules (front ++ [w]) = keywordsOf rules front := by
  simp [keywordsOf, h]

theorem keywordsOf_append_of_some {k : Keyword} (h : keywordOf? rules w = some k) :
    keywordsOf rules (front ++ [w]) = keywordsOf rules front ++ [k] := by
  simp [keywordsOf, h]

theorem clausesOf_of_forall (hfree : ∀ v ∈ front, Words.isDelimiter v = false) :
    clausesOf front = [front] :=
  List.splitOnP_eq_singleton hfree

theorem clausesOf_append_cons (hfree : ∀ v ∈ front, Words.isDelimiter v = false)
    (hw : Words.isDelimiter w = true) (rest : List Word) :
    clausesOf (front ++ w :: rest) = front :: clausesOf rest :=
  List.splitOnP_append_cons_of_forall_mem hfree w hw rest

theorem chosenClause_of_forall (hfree : ∀ v ∈ front, Words.isDelimiter v = false) :
    chosenClause rules front = front := by
  rw [chosenClause, clausesOf_of_forall hfree]
  cases h : (keywordsOf rules front).isEmpty <;> simp [h]

theorem chosenClause_of_ne_nil (hfree : ∀ v ∈ front, Words.isDelimiter v = false)
    (hw : Words.isDelimiter w = true) (hne : keywordsOf rules front ≠ []) (rest : List Word) :
    chosenClause rules (front ++ w :: rest) = front := by
  rw [chosenClause, clausesOf_append_cons hfree hw]
  simp [hne]

theorem chosenClause_of_eq_nil (hfree : ∀ v ∈ front, Words.isDelimiter v = false)
    (hw : Words.isDelimiter w = true) (hnil : keywordsOf rules front = []) (rest : List Word) :
    chosenClause rules (front ++ w :: rest) = chosenClause rules rest := by
  obtain ⟨last, hlast⟩ : ∃ last, (clausesOf rest).getLast? = some last :=
    ⟨_, List.getLast?_eq_some_getLast (List.splitOnP_ne_nil _ rest)⟩
  rw [chosenClause, clausesOf_append_cons hfree hw, chosenClause, hlast]
  simp [hnil, List.getLast?_cons, hlast]

theorem isDelimiter_of_mem_chosenClause_append
    (hfree : ∀ v ∈ front, Words.isDelimiter v = false) (rest : List Word) :
    ∀ v ∈ chosenClause rules (front ++ rest), Words.isDelimiter v = false := by
  induction rest generalizing front with
  | nil =>
    rw [List.append_nil, chosenClause_of_forall hfree]
    exact hfree
  | cons w rest ih =>
    cases hw : Words.isDelimiter w with
    | true =>
      by_cases hnil : keywordsOf rules front = []
      · rw [chosenClause_of_eq_nil hfree hw hnil, ← List.nil_append rest]
        exact ih (List.forall_mem_nil _)
      · rw [chosenClause_of_ne_nil hfree hw hnil]
        exact hfree
    | false =>
      rw [List.append_cons front]
      exact ih (List.forall_mem_append.mpr ⟨hfree, List.forall_mem_singleton.mpr hw⟩)

theorem isDelimiter_of_mem_chosenClause (words : List Word) :
    ∀ w ∈ chosenClause rules words, Words.isDelimiter w = false := by
  rw [← List.nil_append words]
  exact isDelimiter_of_mem_chosenClause_append (List.forall_mem_nil _) words

end

/-! ### The scan -/

/-- The scan has come to the end of these words of a clause: its keystack, its highest rank and the words
that it has passed are theirs. -/
structure ScannedTo (rules : WordMap Rule) (front keystack : List Word) (rank : Int)
    (passed : List Word) : Prop where
  keystack_eq : keystack = (Keyword.stacked (keywordsOf rules front)).map Keyword.word
  rank_lt_iff : ∀ k : Keyword, rank < k.precedence ↔ k.Rises (keywordsOf rules front)
  passed_eq : passed.reverse = front.map (substituted rules)
  undelimited : ∀ w ∈ front, Words.isDelimiter w = false

theorem scannedTo_nil (rules : WordMap Rule) : ScannedTo rules [] [] 0 [] where
  keystack_eq := rfl
  rank_lt_iff _ := (and_iff_left nofun).symm
  passed_eq := rfl
  undelimited := nofun

namespace ScannedTo

variable {rules : WordMap Rule} {front keystack passed : List Word} {rank : Int} {w : Word}

theorem clause_eq (h : ScannedTo rules front keystack rank passed) :
    ⟨keystack, passed.reverse⟩ = Clause.ofWords rules front := by
  rw [Clause.ofWords, h.keystack_eq, h.passed_eq]

theorem keystack_eq_nil_iff (h : ScannedTo rules front keystack rank passed) :
    keystack = [] ↔ keywordsOf rules front = [] := by
  rw [h.keystack_eq, List.map_eq_nil_iff, Keyword.stacked_eq_nil_iff]

/-- Behind a clause without keywords the scan begins anew. -/
theorem restart (h : ScannedTo rules front [] rank passed) : ScannedTo rules [] [] rank [] where
  keystack_eq := rfl
  rank_lt_iff k := by
    have hrank := h.rank_lt_iff k
    rwa [h.keystack_eq_nil_iff.mp rfl] at hrank
  passed_eq := rfl
  undelimited := nofun

theorem pass_words (h : ScannedTo rules front keystack rank passed) :
    (substituted rules w :: passed).reverse = (front ++ [w]).map (substituted rules) := by
  rw [List.reverse_cons, h.passed_eq, List.map_append]
  rfl

theorem pass_undelimited (h : ScannedTo rules front keystack rank passed)
    (hw : Words.isDelimiter w = false) : ∀ v ∈ front ++ [w], Words.isDelimiter v = false :=
  List.forall_mem_append.mpr ⟨h.undelimited, List.forall_mem_singleton.mpr hw⟩

/-- A word that is no keyword leaves the keystack as it is. -/
theorem pass (h : ScannedTo rules front keystack rank passed) (hw : Words.isDelimiter w = false)
    (hnone : keywordOf? rules w = none) :
    ScannedTo rules (front ++ [w]) keystack rank (substituted rules w :: passed) := by
  have hkeywords : keywordsOf rules (front ++ [w]) = keywordsOf rules front :=
    keywordsOf_append_of_none hnone
  exact ⟨hkeywords ▸ h.keystack_eq, hkeywords ▸ h.rank_lt_iff, h.pass_words, h.pass_undelimited hw⟩

/-- A keyword of higher rank than all before it goes on top of the keystack. -/
theorem rise (h : ScannedTo rules front keystack rank passed) (hw : Words.isDelimiter w = false)
    {precedence : Int} (hsome : keywordOf? rules w = some ⟨w, precedence⟩) (hlt : rank < precedence) :
    ScannedTo rules (front ++ [w]) (w :: keystack) precedence (substituted rules w :: passed) := by
  have hkeywords : keywordsOf rules (front ++ [w]) = keywordsOf rules front ++ [⟨w, precedence⟩] :=
    keywordsOf_append_of_some hsome
  have hrises : Keyword.Rises (keywordsOf rules front) ⟨w, precedence⟩ := (h.rank_lt_iff _).mp hlt
  refine ⟨?_, fun k => ?_, h.pass_words, h.pass_undelimited hw⟩
  · rw [hkeywords, Keyword.stacked_append_singleton, if_pos hrises, List.map_cons, h.keystack_eq]
  · rw [hkeywords]
    constructor
    · intro hk
      refine ⟨Int.lt_trans hrises.1 hk, List.forall_mem_append.mpr ⟨fun e he => ?_, ?_⟩⟩
      · exact Int.lt_trans (hrises.2 e he) hk
      · exact List.forall_mem_singleton.mpr hk
    · intro hk
      exact hk.2 _ (List.mem_append_right _ List.mem_cons_self)

/-- Any other keyword goes to the end of the keystack. -/
theorem stay (h : ScannedTo rules front keystack rank passed) (hw : Words.isDelimiter w = false)
    {precedence : Int} (hsome : keywordOf? rules w = some ⟨w, precedence⟩)
    (hle : ¬ rank < precedence) :
    ScannedTo rules (front ++ [w]) (keystack ++ [w]) rank (substituted rules w :: passed) := by
  have hkeywords : keywordsOf rules (front ++ [w]) = keywordsOf rules front ++ [⟨w, precedence⟩] :=
    keywordsOf_append_of_some hsome
  have hstays : ¬ Keyword.Rises (keywordsOf rules front) ⟨w, precedence⟩ :=
    fun hrises => hle ((h.rank_lt_iff _).mpr hrises)
  refine ⟨?_, fun k => ?_, h.pass_words, h.pass_undelimited hw⟩
  · rw [hkeywords, Keyword.stacked_append_singleton, if_neg hstays, List.map_append, h.keystack_eq]
    rfl
  · rw [hkeywords]
    constructor
    · intro hk
      have hrises := (h.rank_lt_iff k).mp hk
      refine ⟨hrises.1, List.forall_mem_append.mpr ⟨hrises.2, List.forall_mem_singleton.mpr ?_⟩⟩
      exact Int.lt_of_le_of_lt (Int.not_lt.mp hle) hk
    · intro hk
      exact (h.rank_lt_iff k).mpr ⟨hk.1, fun e he => hk.2 e (List.mem_append_left _ he)⟩

end ScannedTo

section

variable {rules : WordMap Rule} {front keystack passed : List Word} {rank : Int}

/-- What the scan makes of the rest of a sentence is what the words that it has passed and the rest make
together. -/
theorem scanFrom_eq (h : ScannedTo rules front keystack rank passed) (rest : List Word) :
    scanFrom rules keystack rank passed rest =
      Clause.ofWords rules (chosenClause rules (front ++ rest)) := by
  fun_induction scanFrom rules keystack rank passed rest generalizing front with
  | case1 keystack rank passed =>
    rw [List.append_nil, chosenClause_of_forall h.undelimited]
    exact h.clause_eq
  | case2 keystack rank passed w rest delimiter empty ih =>
    obtain rfl := List.isEmpty_iff.mp empty
    rw [chosenClause_of_eq_nil h.undelimited delimiter (h.keystack_eq_nil_iff.mp rfl),
      ← List.nil_append rest]
    exact ih h.restart
  | case3 keystack rank passed w rest delimiter nonempty =>
    have hne : keystack ≠ [] := fun hnil => nonempty (List.isEmpty_iff.mpr hnil)
    rw [chosenClause_of_ne_nil h.undelimited delimiter (mt h.keystack_eq_nil_iff.mpr hne)]
    exact h.clause_eq
  | case4 keystack rank passed w rest word unruled ih =>
    have hw := eq_false_of_ne_true word
    have hpass := h.pass hw (keywordOf?_of_none unruled)
    rw [substituted_of_none unruled] at hpass
    rw [List.append_cons front]
    exact ih hpass
  | case5 keystack rank passed w rest word rule hrule now transforms higher =>
    rename_i ih
    have hw := eq_false_of_ne_true word
    have hrise := h.rise hw (keywordOf?_of_transforms hrule transforms) higher
    rw [substituted_of_some hrule] at hrise
    rw [List.append_cons front]
    exact ih hrise
  | case6 keystack rank passed w rest word rule hrule now transforms lower =>
    rename_i ih
    have hw := eq_false_of_ne_true word
    have hstay := h.stay hw (keywordOf?_of_transforms hrule transforms) lower
    rw [substituted_of_some hrule] at hstay
    rw [List.append_cons front]
    exact ih hstay
  | case7 keystack rank passed w rest word rule hrule now inert =>
    rename_i ih
    have hw := eq_false_of_ne_true word
    have hpass := h.pass hw (keywordOf?_of_inert hrule inert)
    rw [substituted_of_some hrule] at hpass
    rw [List.append_cons front]
    exact ih hpass

end

/-- A scan takes the first clause with a keyword, or the last one. It replaces each word of that clause
once, and stacks its keywords, each as often as it occurs: those that rise above all before them come
first, the last of them on top. If no precedence is negative the keyword on top is the first of those of
highest precedence. A scan of the clause alone comes to the same. -/
theorem scan_takes_first_clause_with_keyword (rules : WordMap Rule) (words : List Word) :
    let clause := chosenClause rules words
    let keywords := keywordsOf rules clause
    scan rules words = Clause.ofWords rules clause ∧
      (scan rules words).keystack.Perm (keywords.map Keyword.word) ∧
      (keywords ≠ [] → (∀ k ∈ keywords, 0 ≤ k.precedence) →
        ∃ k, Keyword.LeadsAll keywords k ∧ (scan rules words).keystack.head? = some k.word) ∧
      scan rules clause = scan rules words := by
  intro clause keywords
  have hscan (sentence : List Word) :
      scan rules sentence = Clause.ofWords rules (chosenClause rules sentence) := by
    rw [scan, scanFrom_eq (scannedTo_nil rules), List.nil_append]
  refine ⟨hscan words, ?_, fun hne hnonneg => ?_, ?_⟩
  · rw [hscan]
    exact (Keyword.stacked_perm keywords).map Keyword.word
  · obtain ⟨k, hleads, hhead⟩ := Keyword.exists_leadsAll hne hnonneg
    refine ⟨k, hleads, ?_⟩
    rw [hscan, Clause.ofWords, List.head?_map]
    exact congrArg (Option.map Keyword.word) hhead
  · rw [hscan words, hscan clause, chosenClause_of_forall (isDelimiter_of_mem_chosenClause words)]

/-- Rules of four keywords, of which C does not rank above zero and B and D rank alike. -/
def rankedLinks : WordMap Rule :=
  let rule (keyword : Word) (precedence : Int) : Word × Rule :=
    (keyword, ⟨keyword, none, precedence, [], .link []⟩)
  .ofList [rule ['A'] 2, rule ['B'] 5, rule ['C'] 0, rule ['D'] 5]

theorem keystack_of_four_keywords :
    let words := ["HM".toList, [','], ['C'], ['A'], ['X'], ['B'], ['D'], "BUT".toList, ['A']]
    let keywords : List Keyword := [⟨['C'], 0⟩, ⟨['A'], 2⟩, ⟨['B'], 5⟩, ⟨['D'], 5⟩]
    keywordsOf rankedLinks (chosenClause rankedLinks words) = keywords ∧
      (∀ k ∈ keywords, 0 ≤ k.precedence) ∧
      (scan rankedLinks words).keystack = [['B'], ['A'], ['C'], ['D']] ∧
      ∃ k, Keyword.LeadsAll keywords k ∧ (scan rankedLinks words).keystack.head? = some k.word := by
  intro words keywords
  have hkeywords : keywordsOf rankedLinks (chosenClause rankedLinks words) = keywords := by
    decide +kernel
  have hnonneg : ∀ k ∈ keywords, 0 ≤ k.precedence := by decide +kernel
  obtain ⟨-, -, htop, -⟩ := scan_takes_first_clause_with_keyword rankedLinks words
  rw [hkeywords] at htop
  exact ⟨hkeywords, hnonneg, by decide +kernel, htop (List.cons_ne_nil _ _) hnonneg⟩

end Colloquy
