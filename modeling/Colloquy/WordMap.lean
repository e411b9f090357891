import Colloquy.Words

/-!
# Maps keyed by words

The entries of a map are kept in strictly ascending order of their keys, by code point, so a
map has one form and listing it needs no sorting. `insert` puts an entry in or replaces the one
of its key.
-/

namespace Colloquy

namespace WordMap

variable {α : Type}

def Ascending (entries : List (Word × α)) : Prop :=
  entries.Pairwise (fun a b => a.1 < b.1)

def insertEntry (key : Word) (value : α) : List (Word × α) → List (Word × α)
  | [] => [(key, value)]
  | entry :: rest =>
    if key = entry.1 then (key, value) :: rest
    else if key < entry.1 then (key, value) :: entry :: rest
    else entry :: insertEntry key value rest

theorem mem_insertEntry {key : Word} {value : α} {x : Word × α} {entries : List (Word × α)}
    (h : x ∈ insertEntry key value entries) : x = (key, value) ∨ x ∈ entries := by
  induction entries with
  | nil => simpa [insertEntry] using h
  | cons entry rest ih =>
    rw [insertEntry] at h
    split at h
    · rcases List.mem_cons.mp h with h | h
      · exact .inl h
      · exact .inr (List.mem_cons_of_mem _ h)
    · split at h
      · rcases List.mem_cons.mp h with h | h
        · exact .inl h
        · exact .inr h
      · rcases List.mem_cons.mp h with h | h
        · exact .inr (h ▸ List.mem_cons_self)
        · exact (ih h).imp id (List.mem_cons_of_mem _)

theorem Ascending.insertEntry {entries : List (Word × α)} (h : Ascending entries)
    (key : Word) (value : α) : Ascending (insertEntry key value entries) := by
  induction entries with
  | nil => simp [WordMap.insertEntry, Ascending]
  | cons entry rest ih =>
    obtain ⟨head, tail⟩ := List.pairwise_cons.mp h
    rw [WordMap.insertEntry]
    split
    · rename_i same
      exact List.pairwise_cons.mpr ⟨fun b hb => same ▸ head b hb, tail⟩
    · rename_i differ
      split
      · rename_i less
        refine List.pairwise_cons.mpr ⟨fun b hb => ?_, h⟩
        rcases List.mem_cons.mp hb with rfl | hb
        · exact less
        · exact List.lt_trans less (head b hb)
      · rename_i notLess
        refine List.pairwise_cons.mpr ⟨fun b hb => ?_, ih tail⟩
        rcases mem_insertEntry hb with rfl | hb
        · rcases List.le_iff_lt_or_eq.mp (List.not_lt.mp notLess) with hlt | heq
          · exact hlt
          · exact absurd heq.symm differ
        · exact head b hb

end WordMap

/-- A finite map from words, held as its entries in ascending order. -/
structure WordMap (α : Type) where
  entries : List (Word × α)
  ascending : WordMap.Ascending entries

namespace WordMap

variable {α : Type}

instance [DecidableEq α] : DecidableEq (WordMap α) := fun a b =>
  decidable_of_iff (a.entries = b.entries)
    ⟨fun h => by cases a; cases b; simp_all, fun h => h ▸ rfl⟩

def empty : WordMap α := ⟨[], List.Pairwise.nil⟩

def insert (m : WordMap α) (key : Word) (value : α) : WordMap α :=
  ⟨insertEntry key value m.entries, m.ascending.insertEntry key value⟩

/-- The map of a list of entries, of which the last with a key counts. -/
def ofList (entries : List (Word × α)) : WordMap α :=
  entries.foldl (fun m entry => m.insert entry.1 entry.2) empty

def get? (m : WordMap α) (key : Word) : Option α :=
  m.entries.lookup key

def contains (m : WordMap α) (key : Word) : Bool :=
  (m.get? key).isSome

def keys (m : WordMap α) : List Word :=
  m.entries.map (·.1)

def filterKeys (m : WordMap α) (p : Word → Bool) : WordMap α :=
  ⟨m.entries.filter (fun entry => p entry.1), m.ascending.filter _⟩

end WordMap

end Colloquy
