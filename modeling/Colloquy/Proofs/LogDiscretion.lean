import Mathlib.Data.List.Forall2
import Colloquy.Proofs.LoadedScripts
import Colloquy.Proofs.MemoryHistory
import Colloquy.Proofs.ServiceRuns

/-!
# The event log does not tell what was said

Two runs of the service that differ only in the bodies of messages, and in which corresponding calls
get the same status, write the same lines into the event log. The lines tell which sessions were used
under which names of requests, and how far their turns have come; turns and limits go on in the same
way whatever is said.
-/

namespace Colloquy

def Notice.line? : Notice → Option String
  | .structured line => some line
  | _ => none

def Answered.lines (answered : Answered) : List String :=
  answered.notices.filterMap Notice.line?

/-- The calls differ at most in the body of a message. -/
inductive Call.SameButSaid : Call → Call → Prop where
  | same (call : Call) : SameButSaid call call
  | said (name id : String) (body other : List UInt8) :
    SameButSaid ⟨name, .message id body⟩ ⟨name, .message id other⟩

namespace EventLog

/-- The line on an event of a session in a call, with numbers that are told of it. -/
def tell (salt event id name : String) (numbers : List (String × Nat)) : String :=
  (Json.object ([("event", .text event), ("session", .text (sessionHash (some id) salt)),
    ("request_id", .text name)] ++ numbers.map fun number => (number.1, .int number.2))).write

/-- What a log with a salt tells of a call. -/
inductive Tells (salt : String) : Call → String → Prop where
  | created (name id : String) :
    Tells salt ⟨name, .create id⟩ (tell salt "session_created" id name [])
  | deleted (name id : String) :
    Tells salt ⟨name, .delete id⟩ (tell salt "session_deleted" id name [])
  | message (name id : String) (body : List UInt8) (turn limit : Nat) :
    Tells salt ⟨name, .message id body⟩
      (tell salt "message" id name [("turn", turn), ("limit", limit)])

end EventLog

def State.clock (s : State) : Nat × Nat :=
  (s.limit, s.turns)

theorem State.clock_advance {a b : State} (h : a.clock = b.clock) :
    a.advance.clock = b.advance.clock := by
  obtain ⟨hlimit, hturns⟩ := Prod.mk.inj h
  rw [clock, clock, advance, advance, hlimit, hturns]

namespace SessionRegistry

/-- The names of the live sessions and how far they have come, the one used longest ago first. -/
def clocks (r : SessionRegistry) : List (String × Nat × Nat) :=
  r.sessions.map fun entry => (entry.1, entry.2.state.clock)

variable (r : SessionRegistry) (id : String)

theorem clocks_others :
    (r.others id).map (fun entry => (entry.1, entry.2.state.clock)) =
      r.clocks.filter fun entry => entry.1 ≠ id := by
  rw [others, clocks, List.filter_map]
  rfl

theorem clocks_touch (s : Session) :
    (r.touch id s).clocks = (r.clocks.filter fun entry => entry.1 ≠ id) ++ [(id, s.state.clock)] := by
  rw [← clocks_others]
  exact List.map_append

theorem lookup_clocks : r.clocks.lookup id = (r.find? id).map (·.state.clock) := by
  rw [clocks, find?]
  induction r.sessions with
  | nil => rfl
  | cons entry sessions ih =>
    rw [List.map_cons, List.lookup_cons, List.lookup_cons]
    split
    · rfl
    · exact ih

end SessionRegistry

namespace ChatService

/-- An event is logged with the details that are not about what was said. -/
theorem logged_eq (s : ChatService) (event id name : String) (more : List (String × Json)) :
    s.logged event id name more = .structured
      (Json.object ([("event", .text event),
        ("session", .text (EventLog.sessionHash (some id) s.salt)),
        ("request_id", .text name)] ++
          more.filter fun field => !EventLog.redactedKeys.contains field.1)).write := by
  have hmore : (more.map fun field => (some field.1, field.2)).filter EventLog.isPublic =
      (more.filter fun field => !EventLog.redactedKeys.contains field.1).map fun field =>
        (some field.1, field.2) :=
    List.filter_map
  rw [logged, EventLog.line, Json.object, EventLog.redact, List.map_append, List.filter_append,
    hmore, Json.object, List.map_append]
  rfl

/-- The turn of a message is told with its number and the limit, and without its text. -/
theorem logged_message (s : ChatService) (id name : String) (state : State) (text : List Char) :
    s.logged "message" id name
        [("turn", .int state.turns), ("limit", .int state.limit),
          ("text", .text (String.ofList text))] =
      .structured
        (EventLog.tell s.salt "message" id name
          [("turn", state.turns), ("limit", state.limit)]) :=
  logged_eq ..

theorem lines_ofEvents (events : List Event) :
    (Notice.ofEvents events).filterMap Notice.line? = [] := by
  rw [Notice.ofEvents, List.filterMap_filterMap, List.filterMap_eq_nil_iff]
  intro event hevent
  cases event with
  | recollected keyword recollection => cases recollection <;> rfl
  | _ => rfl

variable {s t : ChatService}

/-! ### What an answer tells -/

theorem lines_showScript (s : ChatService) : s.showScript.lines = [] := by
  unfold showScript
  split <;> rfl

theorem lines_create (s : ChatService) (id name : String) :
    (s.create id name).lines =
      if (s.create id name).response.status = 200 then
        [EventLog.tell s.salt "session_created" id name []] else [] := by
  unfold ChatService.create
  split
  · rfl
  · rename_i created hcreated
    have hevicted :
        (created.evicted.map fun _ => Notice.sessionEvicted).filterMap Notice.line? = [] := by
      simp [Notice.line?]
    rw [Answered.lines, List.filterMap_append, hevicted, logged_eq]
    rfl

theorem lines_delete (s : ChatService) (id name : String) :
    (s.delete id name).lines =
      if (s.delete id name).response.status = 200 then
        [EventLog.tell s.salt "session_deleted" id name []] else [] := by
  unfold ChatService.delete SessionRegistry.delete
  cases s.registry.contains id with
  | false => rfl
  | true =>
    simp only [logged_eq]
    rfl

/-- A message tells how far its session has come if it is answered. A session that has taken a turn has
gone on by one, whether the turn has failed or not. -/
theorem told_of_posted {id name : String} {body : List UInt8} {answered : Answered}
    (h : s.Posted id name body answered) :
    (s.registry.find? id = none ∧ answered.response.status = 404 ∧ answered.lines = [] ∧
        answered.service = s) ∨
      ∃ session next, s.registry.find? id = some session ∧ answered.response.status ≠ 404 ∧
        answered.service = s.touch id next ∧
        (next.state.clock = if answered.response.status = 400 then session.state.clock
          else session.state.advance.clock) ∧
        answered.lines = if answered.response.status = 200 then
          [EventLog.tell s.salt "message" id name
            [("turn", next.state.turns), ("limit", next.state.limit)]] else [] := by
  have hclock (session : Session) (text : List Char) :
      (session.say text).session.state.clock = session.state.advance.clock := by
    obtain ⟨hlimit, hturns⟩ := session.sameClock_say text
    exact Prod.ext hlimit hturns
  cases h with
  | unknown gone => exact .inl ⟨gone, rfl, rfl, rfl⟩
  | @refused session refusal live unusable =>
    have hstatus : ((s.touch id session).refused refusal name).response.status = 400 :=
      Message.status_of_ofBody unusable
    have hlines : ((s.touch id session).refused refusal name).lines = [] := by
      cases refusal <;> rfl
    refine .inr ⟨session, session, live, ?_, rfl, ?_, ?_⟩
    · rw [hstatus]
      decide
    · rw [if_pos hstatus]
    · rw [hlines, if_neg (by rw [hstatus]; decide)]
  | @replied session message reply tracer live usable allowed said =>
    refine .inr ⟨session, _, live, nofun, rfl, hclock (session.watchedBy tracer) message.text, ?_⟩
    rw [replied, Answered.lines, logged_message, List.filterMap_append, lines_ofEvents]
    rfl
  | @failed session message fault tracer live usable allowed said =>
    refine .inr ⟨session, _, live, nofun, rfl, hclock (session.watchedBy tracer) message.text, ?_⟩
    rw [failed, Answered.lines, List.filterMap_append, lines_ofEvents]
    rfl

/-! ### Two runs -/

/-- The services differ at most in what has been said in their sessions. -/
structure Alike (s t : ChatService) : Prop where
  salt : s.salt = t.salt
  script : s.registry.script = t.registry.script
  options : s.registry.options = t.registry.options
  capacity : s.registry.capacity = t.registry.capacity
  clocks : s.registry.clocks = t.registry.clocks

theorem Alike.touch (h : s.Alike t) (id : String) {a b : Session}
    (hclock : a.state.clock = b.state.clock) : (s.touch id a).Alike (t.touch id b) := by
  refine ⟨h.salt, h.script, h.options, h.capacity, ?_⟩
  have hclocks := h.clocks
  simp only [ChatService.touch, SessionRegistry.clocks_touch, hclocks, hclock]

theorem Alike.find? (h : s.Alike t) (id : String) :
    (s.registry.find? id).map (·.state.clock) = (t.registry.find? id).map (·.state.clock) := by
  rw [← SessionRegistry.lookup_clocks, h.clocks, SessionRegistry.lookup_clocks]

theorem Alike.create (h : s.Alike t) (id name : String) :
    (s.create id name).response.status = (t.create id name).response.status ∧
      (s.create id name).service.Alike (t.create id name).service := by
  unfold ChatService.create SessionRegistry.create
  rw [h.script, h.options]
  cases Session.start t.registry.script t.registry.options .silent with
  | error fault => exact ⟨rfl, h⟩
  | ok fresh =>
    have hgrown : (s.registry.touch id fresh).clocks = (t.registry.touch id fresh).clocks :=
      (h.touch id rfl).clocks
    have hsize : (s.registry.touch id fresh).size = (t.registry.touch id fresh).size := by
      have hlength := congrArg List.length hgrown
      simp only [SessionRegistry.clocks, List.length_map] at hlength
      exact hlength
    refine ⟨rfl, h.salt, h.script, h.options, h.capacity, ?_⟩
    simp only [SessionRegistry.clocks] at hgrown ⊢
    rw [List.map_drop, List.map_drop, hsize, h.capacity, hgrown]

theorem Alike.delete (h : s.Alike t) (id name : String) :
    (s.delete id name).response.status = (t.delete id name).response.status ∧
      (s.delete id name).service.Alike (t.delete id name).service := by
  have hcontains : s.registry.contains id = t.registry.contains id := by
    have hfind := congrArg Option.isSome (h.find? id)
    simp only [Option.isSome_map] at hfind
    exact hfind
  unfold ChatService.delete SessionRegistry.delete
  rw [hcontains]
  cases t.registry.contains id with
  | false => exact ⟨rfl, h⟩
  | true =>
    have hclocks := congrArg (List.filter fun entry => entry.1 ≠ id) h.clocks
    rw [← SessionRegistry.clocks_others, ← SessionRegistry.clocks_others] at hclocks
    exact ⟨rfl, h.salt, h.script, h.options, h.capacity, hclocks⟩

theorem Alike.post (h : s.Alike t) {id name : String} {body other : List UInt8}
    (hstatus : (s.post id name body).response.status = (t.post id name other).response.status) :
    (s.post id name body).lines = (t.post id name other).lines ∧
      (s.post id name body).service.Alike (t.post id name other).service := by
  have hfind := h.find? id
  rcases told_of_posted (s.posted_post id name body) with
    ⟨hs, -, hslines, hsservice⟩ | ⟨a, next, hs, -, hsservice, hsclock, hslines⟩
  · rcases told_of_posted (t.posted_post id name other) with
      ⟨-, -, htlines, htservice⟩ | ⟨b, next', ht, -⟩
    · rw [hslines, htlines, hsservice, htservice]
      exact ⟨rfl, h⟩
    · rw [hs, ht] at hfind
      cases hfind
  · rcases told_of_posted (t.posted_post id name other) with
      ⟨ht, -⟩ | ⟨b, next', ht, -, htservice, htclock, htlines⟩
    · rw [hs, ht] at hfind
      cases hfind
    · rw [hs, ht] at hfind
      have hclock : a.state.clock = b.state.clock := Option.some.inj hfind
      -- The status tells whether a turn was taken, so both sessions go on or both stay.
      have hnext : next.state.clock = next'.state.clock := by
        rw [hsclock, htclock, hstatus, hclock, State.clock_advance hclock]
      obtain ⟨hlimit, hturns⟩ := Prod.mk.inj hnext
      rw [hslines, htlines, hstatus, hlimit, hturns, hsservice, htservice, h.salt]
      exact ⟨rfl, h.touch id hnext⟩

theorem Alike.answer (h : s.Alike t) {call other : Call} (hcalls : call.SameButSaid other)
    (hstatus : (s.answer call.name call.request).response.status =
      (t.answer other.name other.request).response.status) :
    (s.answer call.name call.request).lines = (t.answer other.name other.request).lines ∧
      (s.answer call.name call.request).service.Alike
        (t.answer other.name other.request).service := by
  cases hcalls with
  | same =>
    obtain ⟨name, request⟩ := call
    cases request with
    | health => exact ⟨rfl, h⟩
    | script =>
      rw [ChatService.answer, ChatService.answer, service_showScript, service_showScript]
      exact ⟨(lines_showScript s).trans (lines_showScript t).symm, h⟩
    | create id =>
      obtain ⟨hsame, hservice⟩ := h.create id name
      refine ⟨?_, hservice⟩
      simp only [ChatService.answer, lines_create, hsame, h.salt]
    | message id body => exact h.post hstatus
    | delete id =>
      obtain ⟨hsame, hservice⟩ := h.delete id name
      refine ⟨?_, hservice⟩
      simp only [ChatService.answer, lines_delete, hsame, h.salt]
  | said name id body other => exact h.post hstatus

theorem tells_of_answer (s : ChatService) (call : Call) :
    ∀ line ∈ (s.answer call.name call.request).lines, EventLog.Tells s.salt call line := by
  intro line hline
  obtain ⟨name, request⟩ := call
  cases request with
  | health => cases hline
  | script =>
    rw [ChatService.answer, lines_showScript] at hline
    cases hline
  | create id =>
    rw [ChatService.answer, lines_create] at hline
    split at hline
    · rw [List.mem_singleton.mp hline]
      exact .created name id
    · cases hline
  | message id body =>
    rcases told_of_posted (s.posted_post id name body) with
      ⟨-, -, hlines, -⟩ | ⟨session, next, -, -, -, -, hlines⟩
    · rw [ChatService.answer, hlines] at hline
      cases hline
    · rw [ChatService.answer, hlines] at hline
      split at hline
      · rw [List.mem_singleton.mp hline]
        exact .message name id body _ _
      · cases hline
  | delete id =>
    rw [ChatService.answer, lines_delete] at hline
    split at hline
    · rw [List.mem_singleton.mp hline]
      exact .deleted name id
    · cases hline

theorem Alike.answers (h : s.Alike t) {calls others : List Call}
    (hcalls : List.Forall₂ Call.SameButSaid calls others)
    (hstatus : (s.answers calls).map (·.response.status) =
      (t.answers others).map (·.response.status)) :
    (s.answers calls).map Answered.lines = (t.answers others).map Answered.lines := by
  induction hcalls generalizing s t with
  | nil => rfl
  | cons hcall hrest ih =>
    obtain ⟨hfirst, hothers⟩ := List.cons.inj hstatus
    obtain ⟨hlines, hservice⟩ := h.answer hcall hfirst
    exact List.cons_eq_cons.mpr ⟨hlines, ih hservice hothers⟩

theorem tells_of_answers (s : ChatService) (calls : List Call) :
    List.Forall₂
      (fun call answered => ∀ line ∈ answered.lines, EventLog.Tells s.salt call line) calls
      (s.answers calls) := by
  induction calls generalizing s with
  | nil => exact .nil
  | cons call calls ih =>
    have hrest := ih (s.answer call.name call.request).service
    rw [(s.constants_answer call).2] at hrest
    exact .cons (s.tells_of_answer call) hrest

/-- Two runs of one service that differ only in the bodies of messages, and in which corresponding calls
get the same status, write the same lines into the event log. A line tells the kind of its call,
the digest of the session's name, the name of the request and, of a message, the number of the turn
and the limit; nothing that was said or answered is among them. -/
theorem lines_do_not_depend_on_texts (s : ChatService) {calls others : List Call}
    (hcalls : List.Forall₂ Call.SameButSaid calls others)
    (hstatus : (s.answers calls).map (·.response.status) =
      (s.answers others).map (·.response.status)) :
    (s.answers calls).map Answered.lines = (s.answers others).map Answered.lines ∧
      List.Forall₂
        (fun call answered => ∀ line ∈ answered.lines, EventLog.Tells s.salt call line) calls
        (s.answers calls) :=
  ⟨Alike.answers ⟨rfl, rfl, rfl, rfl, rfl⟩ hcalls hstatus, s.tells_of_answers calls⟩

theorem lines_of_two_secrets :
    ∃ script,
      Script.read "(HI) (NONE ((0) (OH))) (MY) (MEMORY MY (0 = A) (0 = B) (0 = C) (0 = D))".toList
        = .ok script ∧
      let run (text : String) :=
        (ofScript ⟨"dev", 0, "INFO", none, true, defaultMaxHops, 1, 2000, true⟩ script).answers
          [⟨"1", .create "a"⟩,
            ⟨"2", .message "a" ("\x7b\"text\":\"" ++ text ++ "\"\x7d").toUTF8.data.toList⟩]
      (run "MY DOG").map (·.response.status) = [200, 200] ∧
        (run "MY DOG").map Answered.lines = (run "HM").map Answered.lines := by
  let run (script : Script) (text : String) :=
    (ofScript ⟨"dev", 0, "INFO", none, true, defaultMaxHops, 1, 2000, true⟩ script).answers
      [⟨"1", .create "a"⟩,
        ⟨"2", .message "a" ("\x7b\"text\":\"" ++ text ++ "\"\x7d").toUTF8.data.toList⟩]
  refine (Script.exists_read_of_any (p := fun script =>
    (run script "MY DOG").map (·.response.status) = [200, 200] ∧
      (run script "HM").map (·.response.status) = [200, 200]) ?_).imp
    fun script h => ⟨h.1, ?_⟩
  · decide +kernel
  · obtain ⟨hdog, hhm⟩ := of_decide_eq_true h.2
    refine ⟨hdog, ?_⟩
    exact (lines_do_not_depend_on_texts _ (.cons (.same _) (.cons (.said ..) .nil))
      (hdog.trans hhm.symm)).1

end ChatService

end Colloquy
