import Colloquy.Proofs.ConversationSafety
import Colloquy.Proofs.RegistryOperations
import Colloquy.Proofs.SessionHistory

/-!
# Sessions of a registry do not see each other

A session of a registry is what it would be alone: it has been told the texts said under its name
since it was begun, in their order, and nothing else. What is done under other names, and what the
registry lets go, leaves it as it is.
-/

namespace Colloquy.SessionRegistry

/-- The texts said under a name so far, with one more operation. A session that is begun under the name
has been told nothing. -/
def Operation.hear (id : String) (texts : List (List Char)) : Operation → List (List Char)
  | .create other => if other = id then [] else texts
  | .say other text => if other = id then texts ++ [text] else texts
  | .get _ | .delete _ | .contains _ | .size => texts

/-- The texts said under a name since a session was begun under it. -/
def textsTo (id : String) (operations : List Operation) : List (List Char) :=
  operations.foldl (Operation.hear id) []

theorem textsTo_append (id : String) (operations : List Operation) (operation : Operation) :
    textsTo id (operations ++ [operation]) = operation.hear id (textsTo id operations) :=
  List.foldl_append

theorem ne_create_of_nodup {operations : List Operation} {operation : Operation} {id : String}
    (hids : (createdBy (operations ++ [operation])).Nodup) (hid : id ∈ createdBy operations) :
    operation ≠ .create id := by
  rintro rfl
  exact notMem_createdBy_of_nodup hids hid

theorem Operation.hear_of_ne {operation : Operation} {id : String}
    (hcreate : operation ≠ .create id) (hsay : ∀ text, operation ≠ .say id text)
    (texts : List (List Char)) : operation.hear id texts = texts := by
  cases operation with
  | create other =>
    exact if_neg fun h => hcreate (congrArg Operation.create h)
  | say other text =>
    exact if_neg fun h => hsay text (congrArg (Operation.say · text) h)
  | _ => rfl

/-- Each session of a registry is one that has been begun by the operations so far and told the texts
said under its name since. -/
structure AsAlone (fresh : Session) (operations : List Operation) (r : SessionRegistry) : Prop where
  begun : Session.start r.script r.options .silent = .ok fresh
  created : r.names ⊆ createdBy operations
  told : ∀ entry ∈ r.sessions, entry.2 = fresh.after (textsTo entry.1 operations)

variable {fresh : Session} {past operations : List Operation} {operation : Operation}
  {r : SessionRegistry}

theorem AsAlone.perform (h : AsAlone fresh past r)
    (hids : (createdBy (past ++ [operation])).Nodup) :
    AsAlone fresh (past ++ [operation]) (r.perform operation) := by
  obtain ⟨hscript, hoptions, -⟩ := r.settings_perform operation
  refine ⟨by rw [hscript, hoptions]; exact h.begun, names_perform_subset h.created, ?_⟩
  intro entry hentry
  rw [textsTo_append]
  rcases mem_sessions_perform hentry with ⟨hmem, hsay⟩ | ⟨rfl, hstart⟩ | ⟨s, text, rfl, hmem, hs⟩
  · have hcreate := ne_create_of_nodup hids (h.created (List.mem_map_of_mem hmem))
    rw [Operation.hear_of_ne hcreate hsay]
    exact h.told _ hmem
  · rw [h.begun] at hstart
    cases hstart
    simp [Operation.hear, Session.after]
  · have htold : s = fresh.after (textsTo entry.1 past) := h.told (entry.1, s) hmem
    rw [hs, htold]
    simp [Operation.hear, Session.after]

theorem AsAlone.run (h : AsAlone fresh past r) (hids : (createdBy (past ++ operations)).Nodup) :
    AsAlone fresh (past ++ operations) (r.run operations) := by
  induction operations generalizing past r with
  | nil =>
    rw [List.append_nil]
    exact h
  | cons operation operations ih =>
    rw [← List.singleton_append, ← List.append_assoc] at hids ⊢
    have hnow : (createdBy (past ++ [operation])).Nodup := by
      rw [createdBy_append] at hids
      exact (List.nodup_append.mp hids).1
    exact ih (h.perform hnow) hids

/-- A text said in a live session is answered as by a session that has been begun alone and told the same
texts, which comes out of the turn like it. No operation but a text said in it changes a session that
stays. -/
theorem sessions_as_if_alone {script : Script} {options : Options} {fresh : Session}
    (hfresh : Session.start script options .silent = .ok fresh) (maxSessions : Int)
    (operations : List Operation) (operation : Operation)
    (hids : (createdBy (operations ++ [operation])).Nodup) :
    let r := (start script options maxSessions).run operations
    (∀ id text, (r.say? id text).map (·.1) =
      if r.contains id then some ((fresh.after (textsTo id operations)).say text) else none) ∧
    ∀ id s survivor, (∀ text, operation ≠ .say id text) → r.find? id = some s →
      (r.perform operation).find? id = some survivor → survivor = s := by
  intro r
  have hbegin : AsAlone fresh [] (start script options maxSessions) :=
    ⟨hfresh, List.nil_subset _, fun entry hentry => nomatch hentry⟩
  have hnow : (createdBy operations).Nodup := by
    rw [createdBy_append] at hids
    exact (List.nodup_append.mp hids).1
  have halone : AsAlone fresh operations r := hbegin.run hnow
  have htold {id : String} {s : Session} (hfind : r.find? id = some s) :
      s = fresh.after (textsTo id operations) :=
    halone.told _ (mem_sessions_of_find? hfind)
  constructor
  · intro id text
    rw [say?_eq, Option.map_map, contains]
    cases hfind : r.find? id with
    | none => rfl
    | some s => exact congrArg (fun alone : Session => some (alone.say text)) (htold hfind)
  · intro id s survivor hoperation hfind hsurvivor
    have hafter := (halone.perform hids).told _ (mem_sessions_of_find? hsurvivor)
    have hcreate := ne_create_of_nodup hids (halone.created (mem_names_of_find? hfind))
    rw [textsTo_append, Operation.hear_of_ne hcreate hoperation] at hafter
    exact hafter.trans (htold hfind).symm

theorem say_after_an_eviction :
    ∃ script fresh,
      Script.read "(HI) (NONE ((0) (OH) (AH))) (MY) (MEMORY MY (0 = A) (0 = B) (0 = C) (0 = D))".toList
        = .ok script ∧
      Session.start script ⟨true, defaultMaxHops⟩ .silent = .ok fresh ∧
      let r := (start script ⟨true, defaultMaxHops⟩ 2).run
        [.create "a", .create "b", .say "a" "X".toList, .create "c"]
      (r.say? "a" "Y".toList).map (·.1) = some ((fresh.after ["X".toList]).say "Y".toList) ∧
        (r.say? "b" "Y".toList).map (·.1) = none := by
  let operations : List Operation :=
    [.create "a", .create "b", .say "a" "X".toList, .create "c"]
  let registry (fresh : Session) :=
    (start fresh.repertoire.script ⟨true, defaultMaxHops⟩ 2).run operations
  refine (Session.exists_start_of_any
    (p := fun fresh => (registry fresh).contains "a" && !(registry fresh).contains "b") ?_).imp
    fun script => Exists.imp fun fresh h => ⟨h.1, h.2.1, ?_⟩
  · decide +kernel
  · obtain ⟨hscript, -⟩ := Session.start_eq_ok h.2.1
    obtain ⟨ha, hb⟩ := Bool.and_eq_true_iff.mp h.2.2
    rw [Bool.not_eq_true'] at hb
    simp only [registry, hscript] at ha hb
    have hsay := (sessions_as_if_alone h.2.1 2 operations .size (by decide)).1
    have hlive := hsay "a" "Y".toList
    have hgone := hsay "b" "Y".toList
    rw [if_pos ha] at hlive
    rw [hb] at hgone
    exact ⟨hlive, hgone⟩

end Colloquy.SessionRegistry
