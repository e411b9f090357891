import Colloquy.SessionRegistry

/-!
# Operations on the registry

What may be asked of a registry, and what comes of a sequence of such requests. An operation that
touches no session only takes out what it deletes; one that touches a session makes it the one used
last, and then the oldest sessions go that there is no room for.
-/

namespace Colloquy.SessionRegistry

inductive Operation where
  | create (id : String)
  | get (id : String)
  | delete (id : String)
  | contains (id : String)
  | say (id : String) (text : List Char)
  | size
deriving DecidableEq

def Operation.created? : Operation → Option String
  | .create id => some id
  | _ => none

def createdBy (operations : List Operation) : List String :=
  operations.filterMap Operation.created?

def perform (r : SessionRegistry) : Operation → SessionRegistry
  | .create id =>
    match r.create id with
    | .ok created => created.registry
    | .error _ => r
  | .get id => ((r.get? id).map (·.2)).getD r
  | .delete id => (r.delete id).2
  | .contains _ | .size => r
  | .say id text => ((r.say? id text).map (·.2)).getD r

def run (r : SessionRegistry) (operations : List Operation) : SessionRegistry :=
  operations.foldl perform r

/-- The name of the session that an operation touches: one that it begins, or one that it finds. -/
def touchedBy (r : SessionRegistry) : Operation → Option String
  | .create id => (r.create id).toOption.map fun _ => id
  | .get id => (r.get? id).map fun _ => id
  | .say id text => (r.say? id text).map fun _ => id
  | .delete _ | .contains _ | .size => none

def touches (r : SessionRegistry) : List Operation → List String
  | [] => []
  | operation :: operations =>
    (r.touchedBy operation).toList ++ (r.perform operation).touches operations

/-- The names of the live sessions, the one used longest ago first. -/
def names (r : SessionRegistry) : List String :=
  r.sessions.map (·.1)

theorem createdBy_append (operations more : List Operation) :
    createdBy (operations ++ more) = createdBy operations ++ createdBy more :=
  List.filterMap_append

/-- A name under which a session has been begun is not taken again. -/
theorem notMem_createdBy_of_nodup {operations : List Operation} {id : String}
    (hids : (createdBy (operations ++ [.create id])).Nodup) : id ∉ createdBy operations := by
  intro hid
  rw [createdBy_append] at hids
  exact (List.nodup_append.mp hids).2.2 id hid id (List.mem_singleton_self id) rfl

section

variable (r : SessionRegistry)

theorem run_append (operations more : List Operation) :
    r.run (operations ++ more) = (r.run operations).run more :=
  List.foldl_append

theorem length_names : r.names.length = r.size :=
  List.length_map _

theorem names_touch (id : String) (s : Session) :
    (r.touch id s).names = r.names.filter (· ≠ id) ++ [id] := by
  have hothers : (r.others id).map (·.1) = r.names.filter (· ≠ id) := by
    rw [others, names, List.filter_map]
    rfl
  rw [← hothers]
  exact List.map_append

end

variable {r : SessionRegistry} {operation : Operation} {operations past : List Operation} {id : String}

theorem mem_sessions_of_find? {s : Session} (h : r.find? id = some s) : (id, s) ∈ r.sessions := by
  obtain ⟨before, after, hsessions, -⟩ := List.lookup_eq_some_iff.mp h
  rw [hsessions]
  exact List.mem_append_right _ List.mem_cons_self

theorem mem_names_of_find? {s : Session} (h : r.find? id = some s) : id ∈ r.names :=
  List.mem_map_of_mem (mem_sessions_of_find? h)

theorem contains_iff : r.contains id = true ↔ id ∈ r.names := by
  rw [contains, find?, List.lookup_isSome_iff, names, List.mem_map]
  simp only [beq_iff_eq, eq_comm (a := id)]

theorem mem_sessions_touch {s : Session} {entry : String × Session} :
    entry ∈ (r.touch id s).sessions ↔ (entry ∈ r.sessions ∧ entry.1 ≠ id) ∨ entry = (id, s) := by
  simp [touch, others]

/-- A session is begun if the script allows it. It is the one used last, and the oldest sessions go
that there is no room for. -/
theorem create_eq_ok {created : Created} (h : r.create id = .ok created) :
    Session.start r.script r.options .silent = .ok created.session ∧
      (let grown := r.touch id created.session
      created.registry =
        { r with sessions := grown.sessions.drop (grown.size - r.capacity) } ∧
      created.evicted = grown.names.take (grown.size - r.capacity)) := by
  unfold create at h
  split at h
  · cases h
  · rename_i session hstart
    cases h
    exact ⟨hstart, rfl, List.map_take⟩

theorem exists_create {fresh : Session}
    (h : Session.start r.script r.options .silent = .ok fresh) (id : String) :
    ∃ created, r.create id = .ok created ∧ created.session = fresh := by
  rw [create, h]
  exact ⟨_, rfl, rfl⟩

theorem perform_get (r : SessionRegistry) (id : String) :
    r.perform (.get id) = match r.find? id with
      | none => r
      | some s => r.touch id s := by
  rw [perform, get?]
  cases r.find? id <;> rfl

theorem touchedBy_get (r : SessionRegistry) (id : String) :
    r.touchedBy (.get id) = (r.find? id).map fun _ => id := by
  rw [touchedBy, get?, Option.map_map]
  rfl

theorem say?_eq (r : SessionRegistry) (id : String) (text : List Char) :
    r.say? id text = (r.find? id).map fun s =>
      (s.say text, (r.touch id s).touch id (s.say text).session) := by
  rw [say?, get?, Option.map_map]
  rfl

theorem perform_say (r : SessionRegistry) (id : String) (text : List Char) :
    r.perform (.say id text) = match r.find? id with
      | none => r
      | some s => (r.touch id s).touch id (s.say text).session := by
  rw [perform, say?_eq]
  cases r.find? id <;> rfl

theorem touchedBy_say (r : SessionRegistry) (id : String) (text : List Char) :
    r.touchedBy (.say id text) = (r.find? id).map fun _ => id := by
  rw [touchedBy, say?_eq, Option.map_map]
  rfl

theorem settings_perform (r : SessionRegistry) (operation : Operation) :
    (r.perform operation).script = r.script ∧ (r.perform operation).options = r.options ∧
      (r.perform operation).capacity = r.capacity := by
  cases operation with
  | create id =>
    rw [perform]
    split
    · rename_i created hcreated
      obtain ⟨-, hregistry, -⟩ := create_eq_ok hcreated
      rw [hregistry]
      exact ⟨rfl, rfl, rfl⟩
    · exact ⟨rfl, rfl, rfl⟩
  | get id =>
    rw [perform_get]
    cases r.find? id <;> exact ⟨rfl, rfl, rfl⟩
  | say id text =>
    rw [perform_say]
    cases r.find? id <;> exact ⟨rfl, rfl, rfl⟩
  | delete id => exact ⟨rfl, rfl, rfl⟩
  | contains id => exact ⟨rfl, rfl, rfl⟩
  | size => exact ⟨rfl, rfl, rfl⟩

theorem settings_run (r : SessionRegistry) (operations : List Operation) :
    (r.run operations).script = r.script ∧ (r.run operations).options = r.options ∧
      (r.run operations).capacity = r.capacity := by
  induction operations generalizing r with
  | nil => exact ⟨rfl, rfl, rfl⟩
  | cons operation operations ih =>
    obtain ⟨hscript, hoptions, hcapacity⟩ := r.settings_perform operation
    obtain ⟨ihscript, ihoptions, ihcapacity⟩ := ih (r.perform operation)
    exact ⟨ihscript.trans hscript, ihoptions.trans hoptions, ihcapacity.trans hcapacity⟩

/-! ### What an operation does to the sessions -/

/-- A session after an operation was there before, has just been begun, or has just been told a
text. -/
theorem mem_sessions_perform {entry : String × Session}
    (h : entry ∈ (r.perform operation).sessions) :
    (entry ∈ r.sessions ∧ ∀ text, operation ≠ .say entry.1 text) ∨
      (operation = .create entry.1 ∧ Session.start r.script r.options .silent = .ok entry.2) ∨
      ∃ s text, operation = .say entry.1 text ∧ (entry.1, s) ∈ r.sessions ∧
        entry.2 = (s.say text).session := by
  cases operation with
  | create id =>
    rw [perform] at h
    split at h
    · rename_i created hcreated
      obtain ⟨hstart, hregistry, -⟩ := create_eq_ok hcreated
      rw [hregistry] at h
      rcases mem_sessions_touch.mp (List.mem_of_mem_drop h) with ⟨hmem, -⟩ | rfl
      · exact .inl ⟨hmem, fun text => nofun⟩
      · exact .inr (.inl ⟨rfl, hstart⟩)
    · exact .inl ⟨h, fun text => nofun⟩
  | get id =>
    rw [perform_get] at h
    cases hfind : r.find? id with
    | none =>
      rw [hfind] at h
      exact .inl ⟨h, fun text => nofun⟩
    | some s =>
      rw [hfind] at h
      rcases mem_sessions_touch.mp h with ⟨hmem, -⟩ | rfl
      · exact .inl ⟨hmem, fun text => nofun⟩
      · exact .inl ⟨mem_sessions_of_find? hfind, fun text => nofun⟩
  | say id text =>
    rw [perform_say] at h
    cases hfind : r.find? id with
    | none =>
      rw [hfind] at h
      refine .inl ⟨h, fun other hother => ?_⟩
      cases hother
      have hcontains : r.contains entry.1 = true := contains_iff.mpr (List.mem_map_of_mem h)
      rw [contains, hfind] at hcontains
      cases hcontains
    | some s =>
      rw [hfind] at h
      rcases mem_sessions_touch.mp h with ⟨hmem, hne⟩ | rfl
      · rcases mem_sessions_touch.mp hmem with ⟨hmem, -⟩ | rfl
        · refine .inl ⟨hmem, fun other hother => ?_⟩
          cases hother
          exact hne rfl
        · exact absurd rfl hne
      · exact .inr (.inr ⟨s, text, rfl, mem_sessions_of_find? hfind, rfl⟩)
  | delete id => exact .inl ⟨(List.mem_filter.mp h).1, fun text => nofun⟩
  | contains id => exact .inl ⟨h, fun text => nofun⟩
  | size => exact .inl ⟨h, fun text => nofun⟩

theorem names_perform_subset (h : r.names ⊆ createdBy past) :
    (r.perform operation).names ⊆ createdBy (past ++ [operation]) := by
  intro id hid
  obtain ⟨entry, hentry, rfl⟩ := List.mem_map.mp hid
  rw [createdBy_append]
  rcases mem_sessions_perform hentry with ⟨hmem, -⟩ | ⟨rfl, -⟩ | ⟨s, text, -, hmem, -⟩
  · exact List.mem_append_left _ (h (List.mem_map_of_mem hmem))
  · exact List.mem_append_right _ (List.mem_singleton_self _)
  · exact List.mem_append_left _ (h (List.mem_map.mpr ⟨_, hmem, rfl⟩))

theorem names_run_subset (h : r.names ⊆ createdBy past) :
    (r.run operations).names ⊆ createdBy (past ++ operations) := by
  induction operations generalizing past r with
  | nil =>
    rw [List.append_nil]
    exact h
  | cons operation operations ih =>
    rw [← List.singleton_append, ← List.append_assoc]
    exact ih (names_perform_subset h)

/-- An operation that touches no session leaves the others in their order. -/
theorem names_perform_of_untouched (h : r.touchedBy operation = none) :
    (r.perform operation).names = r.names.filter fun name => operation ≠ .delete name := by
  have hsame (hdelete : ∀ id, operation ≠ .delete id) :
      r.names = r.names.filter fun name => operation ≠ .delete name :=
    (List.filter_eq_self.mpr fun name _ => by simp [hdelete name]).symm
  cases operation with
  | create id =>
    rw [touchedBy] at h
    rw [perform]
    cases hcreated : r.create id with
    | ok created => simp [hcreated, Except.toOption] at h
    | error fault => exact hsame fun other => nofun
  | get id =>
    rw [touchedBy_get, Option.map_eq_none_iff] at h
    rw [perform_get, h]
    exact hsame fun other => nofun
  | say id text =>
    rw [touchedBy_say, Option.map_eq_none_iff] at h
    rw [perform_say, h]
    exact hsame fun other => nofun
  | delete id =>
    have hothers : (r.perform (.delete id)).names = r.names.filter (· ≠ id) := by
      rw [perform, delete, names, others, names, List.filter_map]
      rfl
    rw [hothers]
    simp [eq_comm]
  | contains id => exact hsame fun other => nofun
  | size => exact hsame fun other => nofun

/-- An operation that touches a session puts it last, and then the oldest go for which there is no
room. -/
theorem names_perform_of_touched (hsize : r.size ≤ r.capacity)
    (h : r.touchedBy operation = some id) :
    (r.perform operation).names = (r.names.filter (· ≠ id) ++ [id]).drop
      ((r.names.filter (· ≠ id)).length + 1 - r.capacity) := by
  -- Where a live session is touched, all that are kept had room before.
  have hroom {s : Session} (hfind : r.find? id = some s) :
      (r.names.filter (· ≠ id)).length + 1 - r.capacity = 0 := by
    have hlt : (r.names.filter (· ≠ id)).length < r.names.length :=
      List.length_filter_lt_length_iff_exists.mpr ⟨id, mem_names_of_find? hfind, by simp⟩
    rw [length_names] at hlt
    omega
  cases operation with
  | create name =>
    rw [touchedBy] at h
    cases hcreated : r.create name with
    | error fault => simp [hcreated, Except.toOption] at h
    | ok created =>
      obtain rfl : name = id := by simpa [hcreated, Except.toOption] using h
      obtain ⟨-, hregistry, -⟩ := create_eq_ok hcreated
      have hgrown := r.names_touch name created.session
      have hnames : (r.perform (.create name)).names = (r.touch name created.session).names.drop
          ((r.touch name created.session).size - r.capacity) := by
        rw [perform, hcreated]
        simp only [hregistry]
        exact List.map_drop
      rw [hnames, ← length_names, hgrown, List.length_append, List.length_singleton]
  | get name =>
    rw [touchedBy_get] at h
    obtain ⟨s, hfind, rfl⟩ := Option.map_eq_some_iff.mp h
    rw [perform_get, hfind, hroom hfind]
    exact r.names_touch name s
  | say name text =>
    rw [touchedBy_say] at h
    obtain ⟨s, hfind, rfl⟩ := Option.map_eq_some_iff.mp h
    rw [perform_say, hfind, hroom hfind]
    simp [names_touch]
  | delete name => cases h
  | contains name => cases h
  | size => cases h

end Colloquy.SessionRegistry
