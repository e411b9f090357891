import Mathlib.Data.Finset.Card
import Colloquy.Proofs.RegistryOperations
import Colloquy.Proofs.SessionHistory

/-!
# The registry lets the session go that was used longest ago

A registry holds its sessions in the order of their last touches, and no more of them than it has room
for. So the session that has to go is the one whose last touch is the oldest, and a session stays as
long as fewer others are touched than there is room for.
-/

namespace Colloquy

/-- In a history of touches the last touch of one name is older than that of another. -/
def LastTouchedBefore (history : List String) (older newer : String) : Prop :=
  ∃ before after, history = before ++ older :: after ∧ older ∉ after ∧ newer ∈ after

section

variable {history : List String} {id older newer : String}

theorem LastTouchedBefore.ne (h : LastTouchedBefore history older newer) : older ≠ newer := by
  obtain ⟨before, after, -, holder, hnewer⟩ := h
  rintro rfl
  exact holder hnewer

/-- What is touched next does not change the order of the other last touches. -/
theorem LastTouchedBefore.append (h : LastTouchedBefore history older newer) (hne : older ≠ id) :
    LastTouchedBefore (history ++ [id]) older newer := by
  obtain ⟨before, after, rfl, holder, hnewer⟩ := h
  refine ⟨before, after ++ [id], by simp, ?_, List.mem_append_left _ hnewer⟩
  simp [holder, hne]

/-- What has been touched before is older than what is touched next. -/
theorem lastTouchedBefore_append (h : older ∈ history) (hne : older ≠ id) :
    LastTouchedBefore (history ++ [id]) older id := by
  obtain ⟨after, before, hreverse, hafter⟩ :=
    List.eq_append_cons_of_mem (List.mem_reverse.mpr h)
  have hhistory : history = before.reverse ++ older :: after.reverse := by
    rw [← history.reverse_reverse, hreverse]
    simp
  refine ⟨before.reverse, after.reverse ++ [id], by simp [hhistory], ?_, by simp⟩
  simp [hafter, hne]

end

namespace SessionRegistry

variable {r : SessionRegistry} {operation : Operation} {operations : List Operation}
  {history : List String} {id : String} {others : Finset String}

/-! ### The order of the sessions -/

/-- There is room for the live sessions, and they stand in the order of their last touches. -/
structure ByRecency (history : List String) (r : SessionRegistry) : Prop where
  room : 0 < r.capacity
  size_le : r.size ≤ r.capacity
  touched : r.names ⊆ history
  ordered : r.names.Pairwise (LastTouchedBefore history)

theorem byRecency_start (script : Script) (options : Options) (maxSessions : Int) :
    ByRecency [] (start script options maxSessions) := by
  refine ⟨?_, Nat.zero_le _, List.nil_subset _, List.Pairwise.nil⟩
  exact Nat.lt_of_lt_of_le Nat.one_pos (Nat.le_max_left _ _)

theorem ByRecency.nodup (h : ByRecency history r) : r.names.Nodup :=
  h.ordered.imp LastTouchedBefore.ne

theorem ByRecency.perform_of_untouched (h : ByRecency history r)
    (huntouched : r.touchedBy operation = none) : ByRecency history (r.perform operation) := by
  obtain ⟨-, -, hcapacity⟩ := r.settings_perform operation
  have hnames : (r.perform operation).names.Sublist r.names := by
    rw [names_perform_of_untouched huntouched]
    exact List.filter_sublist
  constructor
  · exact hcapacity ▸ h.room
  · rw [hcapacity, ← length_names]
    exact hnames.length_le.trans (r.length_names ▸ h.size_le)
  · exact fun name hname => h.touched (hnames.subset hname)
  · exact h.ordered.sublist hnames

theorem ByRecency.perform_of_touched (h : ByRecency history r)
    (htouched : r.touchedBy operation = some id) :
    ByRecency (history ++ [id]) (r.perform operation) := by
  obtain ⟨-, -, hcapacity⟩ := r.settings_perform operation
  have hnames := names_perform_of_touched h.size_le htouched
  have hothers : (r.names.filter (· ≠ id)).Pairwise (LastTouchedBefore (history ++ [id])) := by
    refine (h.ordered.sublist List.filter_sublist).imp_of_mem fun holder _ hbefore => ?_
    exact hbefore.append (of_decide_eq_true (List.mem_filter.mp holder).2)
  have hall : (r.names.filter (· ≠ id) ++ [id]).Pairwise (LastTouchedBefore (history ++ [id])) := by
    refine List.pairwise_append.mpr
      ⟨hothers, List.pairwise_singleton _ _, fun name hname last hlast => ?_⟩
    obtain rfl := List.mem_singleton.mp hlast
    obtain ⟨hmem, hne⟩ := List.mem_filter.mp hname
    exact lastTouchedBefore_append (h.touched hmem) (of_decide_eq_true hne)
  constructor
  · exact hcapacity ▸ h.room
  · rw [hcapacity, ← length_names, hnames, List.length_drop, List.length_append,
      List.length_singleton]
    omega
  · rw [hnames]
    intro name hname
    rcases List.mem_append.mp (List.mem_of_mem_drop hname) with hname | hname
    · exact List.mem_append_left _ (h.touched (List.mem_filter.mp hname).1)
    · exact List.mem_append_right _ hname
  · rw [hnames]
    exact hall.sublist (List.drop_sublist _ _)

theorem ByRecency.perform (h : ByRecency history r) (operation : Operation) :
    ByRecency (history ++ (r.touchedBy operation).toList) (r.perform operation) := by
  cases htouched : r.touchedBy operation with
  | none =>
    rw [Option.toList_none, List.append_nil]
    exact h.perform_of_untouched htouched
  | some id => exact h.perform_of_touched htouched

theorem ByRecency.run (h : ByRecency history r) (operations : List Operation) :
    ByRecency (history ++ r.touches operations) (r.run operations) := by
  induction operations generalizing history r with
  | nil =>
    rw [touches, List.append_nil]
    exact h
  | cons operation operations ih =>
    rw [touches, ← List.append_assoc]
    exact ih (h.perform operation)

/-! ### What has to go -/

/-- A session that is begun under a new name comes last, and the oldest go for which there is no
room. -/
theorem names_of_create {created : Created} (hcreated : r.create id = .ok created)
    (hid : id ∉ r.names) :
    created.evicted = (r.names ++ [id]).take (r.size + 1 - r.capacity) ∧
      created.registry.names = (r.names ++ [id]).drop (r.size + 1 - r.capacity) := by
  obtain ⟨-, hregistry, hevicted⟩ := create_eq_ok hcreated
  have hothers : r.names.filter (· ≠ id) = r.names :=
    List.filter_eq_self.mpr fun name hname => decide_eq_true fun h => hid (h ▸ hname)
  have hgrown : (r.touch id created.session).names = r.names ++ [id] := by
    rw [names_touch, hothers]
  have hsize : (r.touch id created.session).size = r.size + 1 := by
    rw [← length_names, hgrown, List.length_append, length_names, List.length_singleton]
  rw [hgrown, hsize] at hevicted
  rw [hsize] at hregistry
  refine ⟨hevicted, ?_⟩
  rw [hregistry, ← hgrown]
  exact List.map_drop

theorem create_of_lt {created : Created} (hcreated : r.create id = .ok created)
    (hid : id ∉ r.names) (hlt : r.size < r.capacity) :
    created.evicted = [] ∧ created.registry.names = r.names ++ [id] := by
  have hexcess : r.size + 1 - r.capacity = 0 := by omega
  have hnames := names_of_create hcreated hid
  rw [hexcess] at hnames
  exact hnames

/-- When there is no room the one goes whose last touch is the oldest. -/
theorem ByRecency.create_of_full (h : ByRecency history r) {created : Created}
    (hcreated : r.create id = .ok created) (hid : id ∉ r.names) (hfull : r.size = r.capacity) :
    ∃ oldest rest, r.names = oldest :: rest ∧ created.evicted = [oldest] ∧
      created.registry.names = rest ++ [id] ∧
      ∀ other ∈ rest, LastTouchedBefore history oldest other := by
  have hexcess : r.size + 1 - r.capacity = 1 := by omega
  have hcreate := names_of_create hcreated hid
  rw [hexcess] at hcreate
  obtain ⟨oldest, rest, hnames⟩ : ∃ oldest rest, r.names = oldest :: rest := by
    refine List.exists_cons_of_length_pos ?_
    rw [length_names, hfull]
    exact h.room
  have hordered := h.ordered
  rw [hnames] at hcreate hordered
  exact ⟨oldest, rest, hnames, hcreate.1, hcreate.2, (List.pairwise_cons.mp hordered).1⟩

/-! ### What stays -/

/-- The session of a name is live, and all that have been touched since are among others. -/
def KeptBefore (others : Finset String) (id : String) (r : SessionRegistry) : Prop :=
  ∃ before after, r.names = before ++ id :: after ∧ ∀ name ∈ after, name ∈ others

theorem KeptBefore.contains (h : KeptBefore others id r) : r.contains id = true := by
  obtain ⟨before, after, hnames, -⟩ := h
  rw [contains_iff, hnames]
  exact List.mem_append_right _ List.mem_cons_self

/-- A session is kept by the operation that touches it. -/
theorem ByRecency.keptBefore_of_touched (h : ByRecency history r)
    (htouched : r.touchedBy operation = some id) (others : Finset String) :
    KeptBefore others id (r.perform operation) := by
  have hroom := h.room
  rw [KeptBefore, names_perform_of_touched h.size_le htouched,
    List.drop_append_of_le_length (by omega)]
  exact ⟨_, [], rfl, nofun⟩

/-- Where another session is touched, a session is kept if there is room for those touched since. -/
theorem ByRecency.keptBefore_of_other_touched (h : ByRecency history r)
    (hkept : KeptBefore others id r) (hothers : others.card < r.capacity) {other : String}
    (htouched : r.touchedBy operation = some other) (hne : id ≠ other) (hother : other ∈ others) :
    KeptBefore others id (r.perform operation) := by
  obtain ⟨before, after, hnames, hafter⟩ := hkept
  let newer := after.filter (· ≠ other) ++ [other]
  have hnewer : ∀ name ∈ newer, name ∈ others := by
    intro name hname
    rcases List.mem_append.mp hname with hname | hname
    · exact hafter name (List.mem_filter.mp hname).1
    · exact List.mem_singleton.mp hname ▸ hother
  have hnodup : newer.Nodup := by
    have hall := h.nodup
    rw [hnames] at hall
    have hlater : after.Nodup := (List.nodup_cons.mp (List.nodup_append.mp hall).2.1).2
    exact List.nodup_append.mpr ⟨hlater.filter _, List.nodup_singleton _, by simp⟩
  have hlength : newer.length ≤ others.card := by
    rw [← List.toFinset_card_of_nodup hnodup]
    exact Finset.card_le_card fun name hname => hnewer name (List.mem_toFinset.mp hname)
  have hgrown : r.names.filter (· ≠ other) ++ [other] =
      before.filter (· ≠ other) ++ id :: newer := by
    simp [hnames, hne, newer]
  -- Those that go stand before the session, since it and those after it have room.
  have hcount := congrArg List.length hgrown
  rw [List.length_append, List.length_append, List.length_singleton, List.length_cons] at hcount
  rw [KeptBefore, names_perform_of_touched h.size_le htouched, hgrown,
    List.drop_append_of_le_length (by omega)]
  exact ⟨_, _, rfl, hnewer⟩

theorem KeptBefore.perform_of_untouched (hkept : KeptBefore others id r)
    (huntouched : r.touchedBy operation = none) (hdelete : operation ≠ .delete id) :
    KeptBefore others id (r.perform operation) := by
  obtain ⟨before, after, hnames, hafter⟩ := hkept
  rw [KeptBefore, names_perform_of_untouched huntouched, hnames, List.filter_append,
    List.filter_cons_of_pos (by simpa using hdelete)]
  exact ⟨_, _, rfl, fun name hname => hafter name (List.mem_filter.mp hname).1⟩

theorem ByRecency.keptBefore_perform (h : ByRecency history r) (hkept : KeptBefore others id r)
    (hothers : others.card < r.capacity) (hdelete : operation ≠ .delete id)
    (htouched : ∀ name ∈ r.touchedBy operation, name ≠ id → name ∈ others) :
    KeptBefore others id (r.perform operation) := by
  cases htouch : r.touchedBy operation with
  | none => exact hkept.perform_of_untouched htouch hdelete
  | some other =>
    by_cases hother : other = id
    · rw [hother] at htouch
      exact h.keptBefore_of_touched htouch others
    · exact h.keptBefore_of_other_touched hkept hothers htouch (Ne.symm hother)
        (htouched other htouch hother)

theorem ByRecency.keptBefore_run (h : ByRecency history r) (hkept : KeptBefore others id r)
    (hothers : others.card < r.capacity) (hdelete : .delete id ∉ operations)
    (htouched : ∀ name ∈ r.touches operations, name ≠ id → name ∈ others) :
    KeptBefore others id (r.run operations) := by
  induction operations generalizing history r with
  | nil => exact hkept
  | cons operation operations ih =>
    rw [touches] at htouched
    obtain ⟨hne, hdelete⟩ := not_or.mp (List.mem_cons.not.mp hdelete)
    refine ih (h.perform operation) (h.keptBefore_perform hkept hothers (Ne.symm hne) ?_) ?_ hdelete ?_
    · intro name hname
      exact htouched name (List.mem_append_left _ (Option.mem_toList.mpr hname))
    · exact (r.settings_perform operation).2.2 ▸ hothers
    · intro name hname
      exact htouched name (List.mem_append_right _ hname)

/-- The live sessions are no more than there is room for and stand in the order of their last
touches. A session that is begun takes the place of one only where there is no room, and then of the one
whose last touch is the oldest; no other operation changes the order of the sessions that stay. So a
session that has been touched and is not deleted stays while fewer others are touched than there is
room for. -/
theorem oldest_touch_goes_first (script : Script) (options : Options) (maxSessions : Int)
    (operations : List Operation) :
    let capacity := max 1 maxSessions.toNat
    let first := start script options maxSessions
    let r := first.run operations
    let history := first.touches operations
    r.size ≤ capacity ∧ r.names.Pairwise (LastTouchedBefore history) ∧
    (∀ id fresh, (createdBy (operations ++ [.create id])).Nodup →
      Session.start script options .silent = .ok fresh →
      ∃ created, r.create id = .ok created ∧ created.session = fresh ∧ id ∉ r.names ∧
        (r.size < capacity → created.evicted = [] ∧ created.registry.names = r.names ++ [id]) ∧
        (r.size = capacity → ∃ oldest rest, r.names = oldest :: rest ∧ created.evicted = [oldest] ∧
          created.registry.names = rest ++ [id] ∧
          ∀ other ∈ rest, LastTouchedBefore history oldest other)) ∧
    (∀ operation, r.touchedBy operation = none →
      (r.perform operation).names = r.names.filter fun name => operation ≠ .delete name) ∧
    ∀ earlier touching later id, operations = earlier ++ touching :: later →
      (first.run earlier).touchedBy touching = some id → .delete id ∉ later →
      (((first.run (earlier ++ [touching])).touches later).toFinset.erase id).card < capacity →
      r.contains id = true := by
  intro capacity first r history
  have hfirst : ByRecency [] first := byRecency_start script options maxSessions
  have hrecency : ByRecency history r := hfirst.run operations
  obtain ⟨hscript, hoptions, hcapacity⟩ : r.script = script ∧ r.options = options ∧
      r.capacity = capacity := first.settings_run operations
  refine ⟨hcapacity ▸ hrecency.size_le, hrecency.ordered, fun id fresh hids hfresh => ?_,
    fun operation => names_perform_of_untouched, ?_⟩
  · rw [← hscript, ← hoptions] at hfresh
    obtain ⟨created, hcreated, hsession⟩ := exists_create hfresh id
    have hbegun : r.names ⊆ createdBy ([] ++ operations) := names_run_subset (List.nil_subset _)
    have hid : id ∉ r.names := fun hlive => notMem_createdBy_of_nodup hids (hbegun hlive)
    rw [← hcapacity]
    exact ⟨created, hcreated, hsession, hid, create_of_lt hcreated hid,
      hrecency.create_of_full hcreated hid⟩
  · intro earlier touching later id hoperations htouched hdelete hfew
    let since := first.run (earlier ++ [touching])
    have hsince : since = (first.run earlier).perform touching := first.run_append _ _
    have hrun : r = since.run later := by
      rw [← first.run_append, List.append_assoc, List.singleton_append, ← hoperations]
    have hkept : KeptBefore ((since.touches later).toFinset.erase id) id since :=
      hsince ▸ (hfirst.run earlier).keptBefore_of_touched htouched _
    rw [hrun]
    refine ((hfirst.run _).keptBefore_run hkept ?_ hdelete fun name hname hne => ?_).contains
    · exact (first.settings_run _).2.2.symm ▸ hfew
    · exact Finset.mem_erase.mpr ⟨hne, List.mem_toFinset.mpr hname⟩

theorem eviction_after_a_get :
    ∃ script fresh,
      Script.read "(HI) (NONE ((0) (OH) (AH))) (MY) (MEMORY MY (0 = A) (0 = B) (0 = C) (0 = D))".toList
        = .ok script ∧
      Session.start script ⟨true, defaultMaxHops⟩ .silent = .ok fresh ∧
      let r := (start script ⟨true, defaultMaxHops⟩ 2).run
        [.create "a", .create "b", .get "a", .create "c"]
      r.contains "a" = true ∧ ∃ created, r.create "d" = .ok created ∧
        created.evicted = ["a"] ∧ created.registry.names = ["c", "d"] := by
  let operations : List Operation := [.create "a", .create "b", .get "a", .create "c"]
  let first (fresh : Session) := start fresh.repertoire.script ⟨true, defaultMaxHops⟩ 2
  refine (Session.exists_start_of_any
    (p := fun fresh =>
      ((first fresh).run [.create "a", .create "b"]).touchedBy (.get "a") = some "a" ∧
      ((((first fresh).run [.create "a", .create "b", .get "a"]).touches
        [.create "c"]).toFinset.erase "a").card < 2 ∧
      ((first fresh).run operations).names = ["a", "c"]) ?_).imp fun script =>
    Exists.imp fun fresh h => ⟨h.1, h.2.1, ?_⟩
  · decide +kernel
  · obtain ⟨hget, hfew, hnames⟩ := of_decide_eq_true h.2.2
    obtain ⟨hscript, -⟩ := Session.start_eq_ok h.2.1
    simp only [first, hscript] at hget hfew hnames
    obtain ⟨-, -, hcreate, -, hstays⟩ :=
      oldest_touch_goes_first script ⟨true, defaultMaxHops⟩ 2 operations
    refine ⟨hstays _ _ _ "a" rfl hget (by decide) hfew, ?_⟩
    obtain ⟨created, hcreated, -, -, -, hfull⟩ := hcreate "d" fresh (by decide) h.2.1
    obtain ⟨oldest, rest, hlive, hevicted, hkept, -⟩ := hfull (by
      rw [← length_names, hnames]
      rfl)
    cases hnames.symm.trans hlive
    exact ⟨created, hcreated, hevicted, hkept⟩

end SessionRegistry

end Colloquy
