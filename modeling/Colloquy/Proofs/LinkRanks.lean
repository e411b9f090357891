import Mathlib.Algebra.Order.BigOperators.Group.List
import Mathlib.Algebra.Order.Ring.Nat
import Colloquy.Proofs.SessionHistory
import Colloquy.Proofs.WordLaws
import Colloquy.Proofs.WorkedKeywords

/-!
# Ranks of keywords

If every link goes to a keyword of lower rank, a turn works on no more keywords than the ranks of those
on its keystack allow, so a turn on a short text does not come to the greatest number of them. If
every link goes to a keyword with a rule, a turn comes to no keyword without one.
-/

namespace Colloquy

namespace Script

/-- Every keyword to which a rule may send a sentence on has a rule. -/
def Closed (s : Script) : Prop :=
  ∀ entry ∈ s.rules.entries, ∀ target ∈ entry.2.targets, s.rules.contains target = true

/-- Every link goes to a keyword of lower rank. -/
def Ranked (s : Script) (rank : Word → Nat) : Prop :=
  ∀ entry ∈ s.rules.entries, ∀ target ∈ entry.2.targets, rank target < rank entry.1

instance (s : Script) : Decidable s.Closed := by
  unfold Closed
  infer_instance

instance (s : Script) (rank : Word → Nat) : Decidable (s.Ranked rank) := by
  unfold Ranked
  infer_instance

end Script

/-- The greatest number of keywords that can be worked on from a keystack. -/
def worth (rank : Word → Nat) (keystack : List Word) : Nat :=
  (keystack.map fun keyword => rank keyword + 1).sum

theorem worth_le {rank : Word → Nat} {depth : Nat} (hdepth : ∀ keyword, rank keyword ≤ depth)
    (keystack : List Word) : worth rank keystack ≤ keystack.length * (depth + 1) := by
  have hle := List.sum_le_card_nsmul (keystack.map fun keyword => rank keyword + 1) (depth + 1)
    (List.forall_mem_map.mpr fun keyword _ => Nat.succ_le_succ (hdepth keyword))
  rwa [List.length_map, nsmul_eq_mul, Nat.cast_id] at hle

theorem worth_pos (rank : Word → Nat) {keystack : List Word} (h : keystack ≠ []) :
    0 < worth rank keystack := by
  obtain ⟨keyword, rest, rfl⟩ := List.exists_cons_of_ne_nil h
  simp [worth]

namespace Repertoire

variable {r : Repertoire} {clause next last : Clause} {n : Nat}

/-! ### Ranks -/

section

variable {rank : Word → Nat} (hranked : r.script.Ranked rank)
include hranked

theorem Leads.worth_lt (h : r.Leads clause next) :
    worth rank next.keystack < worth rank clause.keystack := by
  cases h with
  | newKey stored result outcome => simp [worth]
  | link stored result outcome =>
    have hlower := hranked _ (WordMap.mem_entries.mpr stored) _
      (Rule.mem_targets_of_apply result outcome)
    simp [worth]
    omega

/-- Each keyword that is worked off takes from the worth of the keystack. -/
theorem Reaches.add_worth_le (h : r.Reaches n clause last) :
    n + worth rank last.keystack ≤ worth rank clause.keystack := by
  induction h with
  | here clause => omega
  | step first rest ih =>
    have hlt := first.worth_lt hranked
    omega

/-- A turn works on no more keywords than its keystack is worth. -/
theorem worked_le_worth (o : Options) (s : State) (text : List Char) :
    (r.turn o s text).worked ≤
      worth rank (scan r.script.rules (CardCode.normalize text)).keystack := by
  refine Nat.le_of_not_lt fun hlt => ?_
  obtain ⟨clause, hreaches, hne⟩ := exists_reaches_of_lt_worked hlt
  have hle := hreaches.add_worth_le hranked
  have hpos := worth_pos rank hne
  omega

/-- A keystack that is worth no more than the greatest number of keywords does not bring a turn to it. -/
theorem hopLimit_notMem_of_worth_le {o : Options} {s : State} {text : List Char}
    (hworth : worth rank (scan r.script.rules (CardCode.normalize text)).keystack ≤
      o.maxHops.toNat) (maxHops : Int) (limit : Nat) :
    .hopLimit maxHops limit ∉ (r.turn o s text).events := by
  intro h
  obtain ⟨n, left, clause, hsum, hreaches, htells⟩ := exists_reaches_of_mem_turn h nofun
  cases htells with
  | @hopLimit keyword keystack words =>
    have hle := hreaches.add_worth_le hranked
    have hpos : 0 < worth rank (keyword :: keystack) := worth_pos rank (List.cons_ne_nil _ _)
    exact absurd (hle.trans hworth) (by simp only; omega)

/-- A text with few words for its keywords' ranks does not bring a turn to the greatest number of
keywords. -/
theorem hopLimit_notMem {depth : Nat} (hdepth : ∀ keyword, rank keyword ≤ depth) {o : Options}
    {s : State} {text : List Char} (hlength : text.length * (depth + 1) ≤ o.maxHops.toNat)
    (maxHops : Int) (limit : Nat) : .hopLimit maxHops limit ∉ (r.turn o s text).events := by
  refine hopLimit_notMem_of_worth_le hranked ?_ maxHops limit
  refine ((worth_le hdepth _).trans (Nat.mul_le_mul_right _ ?_)).trans hlength
  exact (length_keystack_scan_le r.script.rules (CardCode.normalize text)).trans
    (CardCode.length_normalize_le text)

/-- If every link goes to a keyword of lower rank, a turn works on no more keywords than the ranks on its
keystack, each with one added, come to. So it does not stop at the greatest number of keywords if that
is not less. -/
theorem turns_end_by_rank (o : Options) (s : State) (text : List Char) :
    (r.turn o s text).worked ≤
        worth rank (scan r.script.rules (CardCode.normalize text)).keystack ∧
      (worth rank (scan r.script.rules (CardCode.normalize text)).keystack ≤ o.maxHops →
        ∀ maxHops limit, .hopLimit maxHops limit ∉ (r.turn o s text).events) := by
  refine ⟨worked_le_worth hranked o s text, fun hworth => ?_⟩
  exact hopLimit_notMem_of_worth_le hranked (by omega)

end

/-- Keywords of which each one links to a shorter one. -/
theorem links_to_shorter_keywords :
    ∃ script session,
      Script.read "(HI) (NONE ((0) (OH))) (AAA (=AA)) (AA ((0) (PRE (1) (=A)))) (A ((0) (NEWKEY)))
        (MEMORY A (0 = A) (0 = B) (0 = C) (0 = D))".toList = .ok script ∧
      Session.start script ⟨true, 6⟩ .silent = .ok session ∧
      let r := session.repertoire
      let turn := r.turn session.options session.state "AAA A".toList
      r.script.Ranked List.length ∧
        worth List.length (scan r.script.rules (CardCode.normalize "AAA A".toList)).keystack = 6 ∧
        turn.worked ≤ 6 ∧ ∀ maxHops limit, .hopLimit maxHops limit ∉ turn.events := by
  refine (Session.exists_start_of_any
    (p := fun session => session.repertoire.script.Ranked List.length ∧
      worth List.length (scan session.repertoire.script.rules
        (CardCode.normalize "AAA A".toList)).keystack = 6 ∧ session.options.maxHops = 6)
      ?_).imp fun script => Exists.imp fun session h => ⟨h.1, h.2.1, ?_⟩
  · decide +kernel
  · obtain ⟨hranked, hworth, hhops⟩ := of_decide_eq_true h.2.2
    obtain ⟨hworked, hends⟩ :=
      turns_end_by_rank hranked session.options session.state "AAA A".toList
    rw [hworth] at hworked
    rw [hworth, hhops] at hends
    exact ⟨hranked, hworth, hworked, hends (le_refl 6)⟩

/-! ### Keywords with rules -/

section

variable (hclosed : r.script.Closed)
include hclosed

theorem Leads.ruled (h : r.Leads clause next)
    (hclause : ∀ keyword ∈ clause.keystack, r.script.rules.contains keyword = true) :
    ∀ keyword ∈ next.keystack, r.script.rules.contains keyword = true := by
  cases h with
  | newKey stored result outcome => exact (List.forall_mem_cons.mp hclause).2
  | link stored result outcome =>
    have htarget := hclosed _ (WordMap.mem_entries.mpr stored) _
      (Rule.mem_targets_of_apply result outcome)
    exact List.forall_mem_cons.mpr ⟨htarget, (List.forall_mem_cons.mp hclause).2⟩

/-- A turn comes to no keyword without a rule. -/
theorem unknownKeyword_notMem (o : Options) (s : State) (text : List Char) (keyword : Word) :
    .unknownKeyword keyword ∉ (r.turn o s text).events := by
  intro h
  obtain ⟨left, clause, hclause, htells⟩ := exists_tells_of_mem_turn
    (fun hleads => hleads.ruled hclosed) (contains_of_mem_keystack_scan r.script.rules _) h nofun
  cases htells with
  | unknown gone =>
    have hruled := hclause keyword List.mem_cons_self
    rw [WordMap.contains, gone] at hruled
    cases hruled

end

end Repertoire

end Colloquy
