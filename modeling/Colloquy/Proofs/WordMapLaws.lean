import Mathlib.Data.List.Nodup
import Colloquy.WordMap

/-!
# Laws of maps keyed by words

A map is what its look-ups say: an entry is listed exactly when its key is looked up with its
value, and maps with the same look-ups are equal. Entries of different keys may be inserted in
any order.
-/

namespace Colloquy.WordMap

variable {α : Type}

private theorem word_lt_irrefl (w : Word) : ¬ w < w := List.lt_irrefl w

private theorem lookup_entry_cons (entry : Word × α) (rest : List (Word × α)) (key : Word) :
    (entry :: rest).lookup key = if key = entry.1 then some entry.2 else rest.lookup key := by
  rw [List.lookup_cons]
  by_cases h : key = entry.1
  · simp [h]
  · simp [h, beq_false_of_ne h]

theorem lookup_insertEntry (key other : Word) (value : α) (entries : List (Word × α)) :
    (insertEntry key value entries).lookup other =
      if other = key then some value else entries.lookup other := by
  induction entries with
  | nil => exact lookup_entry_cons _ _ _
  | cons entry rest ih =>
    rw [insertEntry]
    split
    · rename_i hkey
      simp only [lookup_entry_cons]
      grind
    · split
      · exact lookup_entry_cons _ _ _
      · simp only [lookup_entry_cons, ih]
        grind

theorem get?_insert (m : WordMap α) (key other : Word) (value : α) :
    (m.insert key value).get? other = if other = key then some value else m.get? other :=
  lookup_insertEntry key other value m.entries

@[simp] theorem get?_empty (key : Word) : (empty : WordMap α).get? key = none := rfl

theorem contains_insert (m : WordMap α) (key other : Word) (value : α) :
    (m.insert key value).contains other = (decide (other = key) || m.contains other) := by
  rw [contains, get?_insert]
  by_cases h : other = key <;> simp [h, contains]

private theorem lookup_eq_some_iff_mem {entries : List (Word × α)} (h : Ascending entries)
    {key : Word} {value : α} :
    entries.lookup key = some value ↔ (key, value) ∈ entries := by
  induction entries with
  | nil => simp
  | cons entry rest ih =>
    obtain ⟨head, tail⟩ := List.pairwise_cons.mp h
    rw [lookup_entry_cons, List.mem_cons, ← ih tail]
    by_cases hkey : key = entry.1
    · subst hkey
      have hnone : rest.lookup entry.1 ≠ some value := fun hmem =>
        word_lt_irrefl _ (head (entry.1, value) ((ih tail).mp hmem))
      rw [if_pos rfl, or_iff_left hnone, Prod.ext_iff]
      simp [eq_comm]
    · have hentry : (key, value) ≠ entry := fun he => hkey (by rw [← he])
      rw [if_neg hkey, or_iff_right hentry]

theorem mem_entries {m : WordMap α} {key : Word} {value : α} :
    (key, value) ∈ m.entries ↔ m.get? key = some value :=
  (lookup_eq_some_iff_mem m.ascending).symm

private theorem Ascending.nodup_keys {entries : List (Word × α)} (h : Ascending entries) :
    (entries.map (·.1)).Nodup := by
  have hkeys : (entries.map (·.1)).Pairwise (· < ·) := List.pairwise_map.mpr h
  exact hkeys.nodup

private theorem Ascending.nodup {entries : List (Word × α)} (h : Ascending entries) :
    entries.Nodup :=
  h.nodup_keys.of_map

theorem nodup_keys (m : WordMap α) : (m.entries.map (·.1)).Nodup :=
  m.ascending.nodup_keys

theorem nodup_entries (m : WordMap α) : m.entries.Nodup :=
  m.ascending.nodup

private theorem eq_of_mem_iff {entries others : List (Word × α)} (h : Ascending entries)
    (ho : Ascending others) (hmem : ∀ entry, entry ∈ entries ↔ entry ∈ others) :
    entries = others := by
  have hperm : entries.Perm others := (List.perm_ext_iff_of_nodup h.nodup ho.nodup).mpr hmem
  refine List.Perm.eq_of_pairwise (fun a b _ _ hab hba => ?_) h ho hperm
  exact absurd (List.lt_trans hab hba) (word_lt_irrefl _)

theorem ext_get? {m n : WordMap α} (h : ∀ key, m.get? key = n.get? key) : m = n := by
  have hentries : m.entries = n.entries := by
    refine eq_of_mem_iff m.ascending n.ascending fun ⟨key, value⟩ => ?_
    rw [mem_entries, mem_entries, h]
  cases m
  cases n
  simp_all

theorem get?_filterKeys (m : WordMap α) (p : Word → Bool) (key : Word) :
    (m.filterKeys p).get? key = if p key then m.get? key else none := by
  apply Option.ext
  intro value
  rw [← mem_entries, filterKeys, List.mem_filter, mem_entries]
  by_cases hp : p key = true <;> simp [hp]

def insertAll (m : WordMap α) (entries : List (Word × α)) : WordMap α :=
  entries.foldl (fun m entry => m.insert entry.1 entry.2) m

theorem ofList_eq_insertAll (entries : List (Word × α)) :
    ofList entries = empty.insertAll entries :=
  rfl

theorem insertAll_append (m : WordMap α) (entries more : List (Word × α)) :
    m.insertAll (entries ++ more) = (m.insertAll entries).insertAll more :=
  List.foldl_append

theorem contains_insertAll (m : WordMap α) (entries : List (Word × α)) (key : Word) :
    (m.insertAll entries).contains key = true ↔
      key ∈ entries.map (·.1) ∨ m.contains key = true := by
  induction entries generalizing m with
  | nil => simp [insertAll]
  | cons entry rest ih =>
    have h := ih (m.insert entry.1 entry.2)
    rw [contains_insert] at h
    rw [insertAll, List.foldl_cons, ← insertAll, h]
    simp
    grind

theorem get?_insertAll_of_not_mem (m : WordMap α) {entries : List (Word × α)} {key : Word}
    (h : key ∉ entries.map (·.1)) : (m.insertAll entries).get? key = m.get? key := by
  induction entries generalizing m with
  | nil => rfl
  | cons entry rest ih =>
    rw [List.map_cons, List.mem_cons, not_or] at h
    rw [insertAll, List.foldl_cons, ← insertAll, ih _ h.2, get?_insert, if_neg h.1]

theorem get?_insertAll_of_mem (m : WordMap α) {entries : List (Word × α)}
    (hd : (entries.map (·.1)).Nodup) {key : Word} {value : α} (h : (key, value) ∈ entries) :
    (m.insertAll entries).get? key = some value := by
  induction entries generalizing m with
  | nil => cases h
  | cons entry rest ih =>
    rw [List.map_cons, List.nodup_cons] at hd
    rw [insertAll, List.foldl_cons, ← insertAll]
    rcases List.mem_cons.mp h with rfl | h
    · rw [get?_insertAll_of_not_mem _ hd.1, get?_insert, if_pos rfl]
    · exact ih _ hd.2 h

/-- Of entries with different keys each one is looked up with its value, and nothing else. -/
theorem get?_ofList {entries : List (Word × α)} (hd : (entries.map (·.1)).Nodup) {key : Word}
    {value : α} : (ofList entries).get? key = some value ↔ (key, value) ∈ entries := by
  rw [ofList_eq_insertAll]
  constructor
  · intro h
    by_cases hkey : key ∈ entries.map (·.1)
    · obtain ⟨⟨_, other⟩, hmem, rfl⟩ := List.mem_map.mp hkey
      rw [get?_insertAll_of_mem _ hd hmem] at h
      exact Option.some.inj h ▸ hmem
    · rw [get?_insertAll_of_not_mem _ hkey] at h
      cases h
  · exact get?_insertAll_of_mem _ hd

theorem ofList_eq_of_perm {m : WordMap α} {entries : List (Word × α)}
    (h : entries.Perm m.entries) : ofList entries = m := by
  have hd : (entries.map (·.1)).Nodup := (h.map (·.1)).nodup_iff.mpr m.nodup_keys
  refine ext_get? fun key => Option.ext fun value => ?_
  rw [get?_ofList hd, h.mem_iff, mem_entries]

end Colloquy.WordMap
