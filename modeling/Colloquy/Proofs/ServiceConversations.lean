import Colloquy.Proofs.FilledTemplates
import Colloquy.Proofs.RegularScripts
import Colloquy.Proofs.ServiceRuns
import Colloquy.Proofs.TracedConversations
import Colloquy.Proofs.WordLaws

/-!
# Conversations through the service

A message is answered exactly if its session is live, its body hands over a text as it should, and a
session that has been told the same texts directly answers that text. A request that is refused changes
nothing of any conversation. The answers to the messages of a session are those of the session that is
told the texts directly, with the blanks at their ends. Only a script that has not been read from a text
can leave a session without an answer to a text that it is handed, unless a numeral in a template is too
long.
-/

namespace Colloquy

/-! ### Bodies of messages -/

namespace Message

/-- The fields are those of a message with the text: it is said in full in the text field, is not all
blank and is not too long without the blanks at its ends; besides it there is at most a truth value
in the field for traces. -/
structure Fits (fields : List (JsonString × Json)) (limit : Int) (raw : List Char) : Prop where
  known : ∀ field ∈ fields, field.1 = some "text" ∨ field.1 = some "trace"
  text : Json.field? fields "text" = some (.text (String.ofList raw))
  trace : ∀ value, Json.field? fields "trace" = some value → ∃ b, value = .bool b
  spoken : ∃ c ∈ raw, BlankText.isBlank c = false
  short : (BlankText.strip raw).length ≤ limit

/-- The body is that of a message with the text. -/
def Conveys (body : List UInt8) (limit : Int) (raw : List Char) : Prop :=
  ∃ fields, (TextEncoding.json? body).bind Json.read? = some (.obj fields) ∧ Fits fields limit raw

/-- The text in the body of a message, as it was sent. -/
def raw? (body : List UInt8) : Option (List Char) :=
  match (TextEncoding.json? body).bind Json.read? with
  | some (.obj fields) =>
    match Json.field? fields "text" with
    | some (.str (some s)) => some s.toList
    | _ => none
  | _ => none

variable {body : List UInt8} {limit : Int} {raw : List Char} {fields : List (JsonString × Json)}

theorem Conveys.raw?_eq (h : Conveys body limit raw) : raw? body = some raw := by
  obtain ⟨fields, hbody, hfits⟩ := h
  simp only [raw?, hbody, hfits.text, Json.text, String.toList_ofList]

theorem all_isKnown_iff :
    fields.all isKnown = true ↔
      ∀ field ∈ fields, field.1 = some "text" ∨ field.1 = some "trace" := by
  simp only [List.all_eq_true, isKnown, Bool.or_eq_true, beq_iff_eq]

theorem trace?_isSome_iff :
    (trace? fields).isSome = true ↔
      ∀ value, Json.field? fields "trace" = some value → ∃ b, value = .bool b := by
  unfold trace?
  split
  · rename_i h
    simp [h]
  · rename_i b h
    simp [h]
  · rename_i value hvalue h
    simp only [h, Option.isSome_none, Bool.false_eq_true, Option.some.injEq, forall_eq', false_iff]
    rintro ⟨b, rfl⟩
    exact hvalue b rfl

theorem exists_spoken_iff :
    (∃ c ∈ raw, BlankText.isBlank c = false) ↔ (BlankText.strip raw).isEmpty = false := by
  rw [← Bool.not_eq_true, List.isEmpty_iff, BlankText.strip_eq_nil_iff]
  simp

theorem Fits.ofFields_eq_ok (h : Fits fields limit raw) :
    ∃ trace, ofFields fields limit = .ok ⟨BlankText.strip raw, trace⟩ := by
  obtain ⟨trace, htrace⟩ := Option.isSome_iff_exists.mp (trace?_isSome_iff.mpr h.trace)
  refine ⟨trace, ?_⟩
  simp only [ofFields, h.text, Json.text, String.toList_ofList, exists_spoken_iff.mp h.spoken,
    all_isKnown_iff.mpr h.known, htrace, Bool.false_eq_true, if_false, if_neg (Int.not_lt.mpr h.short)]

theorem exists_fits_of_ofFields {message : Message} (h : ofFields fields limit = .ok message) :
    ∃ raw, Fits fields limit raw ∧ message.text = BlankText.strip raw := by
  unfold ofFields at h
  split at h
  · rename_i s htext
    simp only at h
    split at h
    · cases h
    · rename_i hspoken
      split at h
      · rename_i trace hknown htrace
        split at h <;> cases h
        rename_i hshort
        refine ⟨s.toList, ⟨all_isKnown_iff.mp hknown, ?_, ?_, ?_, Int.not_lt.mp hshort⟩, rfl⟩
        · rw [htext, Json.text, String.ofList_toList]
        · exact trace?_isSome_iff.mp (by rw [htrace]; rfl)
        · exact exists_spoken_iff.mpr (Bool.eq_false_iff.mpr hspoken)
      · cases h
  · cases h

/-- A body that conveys a text is taken, and what is said is the text without the blanks at its ends. -/
theorem Conveys.ofBody_eq_ok (h : Conveys body limit raw) :
    ∃ trace, ofBody body limit = .ok ⟨BlankText.strip raw, trace⟩ := by
  obtain ⟨fields, hbody, hfits⟩ := h
  simp only [ofBody, hbody]
  exact hfits.ofFields_eq_ok

theorem exists_conveys_of_ofBody {message : Message} (h : ofBody body limit = .ok message) :
    ∃ raw, Conveys body limit raw ∧ message.text = BlankText.strip raw := by
  unfold ofBody at h
  split at h
  · cases h
  · rename_i fields hbody
    obtain ⟨raw, hfits, htext⟩ := exists_fits_of_ofFields h
    exact ⟨raw, ⟨fields, hbody, hfits⟩, htext⟩
  · cases h

end Message

/-! ### Sessions that are told texts -/

namespace Session

/-- The blanks at the ends of a text have no part in its turn. -/
theorem say_strip (s : Session) (text : List Char) : s.say (BlankText.strip text) = s.say text := by
  rw [say, say, Repertoire.watchedTurn, Repertoire.watchedTurn, CardCode.normalize_strip]

theorem after_append (s : Session) (said : List (List Char)) (text : List Char) :
    s.after (said ++ [text]) = ((s.after said).say text).session :=
  List.foldl_append

theorem tracer_after_of_silent {s : Session} (h : s.tracer = .silent) (said : List (List Char)) :
    (s.after said).tracer = .silent := by
  induction said generalizing s with
  | nil => exact h
  | cons text said ih => exact ih (tracer_say_of_silent h text)

/-- A tracer that is there for one turn only makes no difference if it can be told of all ranks. -/
theorem say_watchedBy {s : Session} (hsilent : s.tracer = .silent) {tracer : Tracer}
    (h : tracer = .silent ∨ s.repertoire.script.Writable) (text : List Char) :
    ((s.watchedBy tracer).say text).reply = (s.say text).reply ∧
      ((s.watchedBy tracer).say text).session.watchedBy .silent = (s.say text).session := by
  have hnext := tracer_say_of_silent hsilent text
  obtain ⟨last, hwatched⟩ := (s.watchedBy tracer).exists_say_eq h text
  obtain ⟨_, hsay⟩ := s.exists_say_eq (.inl hsilent) text
  rw [hsay] at hnext
  rw [hwatched, hsay, ← hnext]
  exact ⟨rfl, rfl⟩

end Session

namespace SessionRegistry

end SessionRegistry

namespace ChatService

/-- The texts that the session of a name has been told, with one more call and its answer. A session that
is begun has been told nothing; a message that is not refused tells it a text, whether the turn on it
gives an answer or not. -/
def hear (id : String) (texts : List (List Char)) (exchange : Call × Answered) :
    List (List Char) :=
  match exchange.1.request with
  | .create other => if other = id then [] else texts
  | .message other body =>
    if other = id ∧ exchange.2.response.status / 100 ≠ 4 then texts ++ (Message.raw? body).toList
    else texts
  | .health | .script | .delete _ => texts

/-- The sessions are those that have been told the texts directly, and a tracer may watch them only if it
can be told of all ranks. -/
structure Attuned (fresh : Session) (told : String → List (List Char)) (s : ChatService) :
    Prop where
  begun : Session.start s.registry.script s.registry.options .silent = .ok fresh
  ranks : s.settings.traceEnabled = true → s.registry.script.Writable
  told : ∀ entry ∈ s.registry.sessions, entry.2 = fresh.after (told entry.1)

variable {s : ChatService} {fresh : Session} {told : String → List (List Char)} {id name : String}
  {body : List UInt8}

theorem Attuned.find? (h : s.Attuned fresh told) {session : Session}
    (hfind : s.registry.find? id = some session) : session = fresh.after (told id) :=
  h.told _ (SessionRegistry.mem_sessions_of_find? hfind)

theorem Attuned.touch (h : s.Attuned fresh told) {now : String → List (List Char)}
    {session : Session} (hsession : session = fresh.after (now id))
    (hothers : ∀ other, other ≠ id → now other = told other) :
    (s.touch id session).Attuned fresh now := by
  refine ⟨h.begun, h.ranks, fun entry hentry => ?_⟩
  rcases SessionRegistry.mem_sessions_touch.mp hentry with ⟨hmem, hne⟩ | rfl
  · rw [hothers _ hne]
    exact h.told _ hmem
  · exact hsession

/-- The tracer that a message asks for has no part in its turn. -/
theorem Attuned.say_watchedBy (h : s.Attuned fresh told) (said : List (List Char)) {tracer : Tracer}
    (hallowed : tracer = .silent ∨ s.settings.traceEnabled = true) (text : List Char) :
    (((fresh.after said).watchedBy tracer).say text).reply = ((fresh.after said).say text).reply ∧
      (((fresh.after said).watchedBy tracer).say text).session.watchedBy .silent =
        ((fresh.after said).say text).session := by
  obtain ⟨hscript, -, -, hsilent⟩ := Session.parts_of_start h.begun
  obtain ⟨hrepertoire, -⟩ := fresh.constant_after said
  refine Session.say_watchedBy (Session.tracer_after_of_silent hsilent said) ?_ text
  rw [hrepertoire, hscript]
  exact hallowed.imp_right h.ranks

/-- The message tells the session of its name the text, and is answered as the session that has been told
the same texts directly answers it. -/
structure Told (fresh : Session) (told : List (List Char)) (s : ChatService) (id : String)
    (raw : List Char) (answered : Answered) : Prop where
  service : answered.service = s.touch id ((fresh.after told).say raw).session
  replied : ∀ reply, ((fresh.after told).say raw).reply = .ok reply →
    answered.response.status = 200 ∧ ∃ trace, answered.response.content = .json (.object
      [("session_id", .text id), ("response", .text (String.ofList reply)),
        ("turn", .int ((fresh.after told).say raw).session.state.turns),
        ("trace", .textOrNull trace)])
  failed : ∀ fault, ((fresh.after told).say raw).reply = .error fault →
    answered.response.status = 500

/-- A message that is not refused is answered, or its turn fails. -/
theorem Told.status {raw : List Char} {answered : Answered} {said : List (List Char)}
    (h : s.Told fresh said id raw answered) :
    answered.response.status / 100 ≠ 4 ∧
      (answered.response.status = 200 ↔ ∃ reply, ((fresh.after said).say raw).reply = .ok reply) := by
  cases hreply : ((fresh.after said).say raw).reply with
  | ok reply => simp [(h.replied reply hreply).1]
  | error fault => simp [h.failed fault hreply]

/-- A message tells its session a text, or it is refused for the session or for the body. -/
theorem Attuned.post (h : s.Attuned fresh told) (id name : String) (body : List UInt8) :
    (s.registry.contains id = true ∧ ∃ raw, Message.Conveys body s.settings.maxInputChars raw ∧
      s.Told fresh (told id) id raw (s.post id name body)) ∨
    ((s.registry.contains id = true →
        ∀ raw, ¬ Message.Conveys body s.settings.maxInputChars raw) ∧
      (s.post id name body).response.status / 100 = 4 ∧
      (s.post id name body).service.Attuned fresh told) := by
  have hcontains {session : Session} (live : s.registry.find? id = some session) :
      s.registry.contains id = true := by
    rw [SessionRegistry.contains, live]
    rfl
  have hposted := s.posted_post id name body
  generalize s.post id name body = answered at hposted ⊢
  cases hposted with
  | unknown gone =>
    refine .inr ⟨fun hlive => ?_, by simp [Refusal.status], h⟩
    rw [SessionRegistry.contains, gone] at hlive
    cases hlive
  | @refused session refusal live unusable =>
    refine .inr ⟨fun _ raw hconveys => ?_, ?_, h.touch (h.find? live) fun _ _ => rfl⟩
    · obtain ⟨trace, husable⟩ := hconveys.ofBody_eq_ok
      rw [husable] at unusable
      cases unusable
    · rw [status_refused, Message.status_of_ofBody unusable]
  | @replied session message reply tracer live usable allowed said =>
    obtain rfl := h.find? live
    obtain ⟨raw, hconveys, htext⟩ := Message.exists_conveys_of_ofBody usable
    obtain ⟨hreply, hsession⟩ := h.say_watchedBy (told id) allowed raw
    rw [htext, Session.say_strip] at said ⊢
    have hstate := congrArg Session.state hsession
    refine .inl ⟨hcontains live, raw, hconveys, congrArg (s.touch id) hsession,
      fun other hother => ?_, fun fault hfault => ?_⟩
    · rw [← hreply, said] at hother
      cases hother
      exact ⟨rfl, _, by rw [← hstate]; rfl⟩
    · rw [← hreply, said] at hfault
      cases hfault
  | @failed session message fault tracer live usable allowed said =>
    obtain rfl := h.find? live
    obtain ⟨raw, hconveys, htext⟩ := Message.exists_conveys_of_ofBody usable
    obtain ⟨hreply, hsession⟩ := h.say_watchedBy (told id) allowed raw
    rw [htext, Session.say_strip] at said ⊢
    refine .inl ⟨hcontains live, raw, hconveys, congrArg (s.touch id) hsession,
      fun other hother => ?_, fun _ _ => rfl⟩
    rw [← hreply, said] at hother
    cases hother

/-- One call later the sessions are still those that have been told the texts directly. -/
theorem Attuned.answer (h : s.Attuned fresh told) (call : Call) :
    (s.answer call.name call.request).service.Attuned fresh fun id =>
      hear id (told id) (call, s.answer call.name call.request) := by
  obtain ⟨name, request⟩ := call
  cases request with
  | health => exact h
  | script =>
    rw [ChatService.answer, service_showScript]
    exact h
  | create id =>
    obtain ⟨created, hcreated, rfl⟩ := SessionRegistry.exists_create h.begun id
    obtain ⟨-, hregistry, -⟩ := SessionRegistry.create_eq_ok hcreated
    have htouch : (s.touch id created.session).Attuned created.session fun other =>
        if id = other then [] else told other :=
      h.touch (by rw [if_pos rfl]; rfl) fun other hother => if_neg (Ne.symm hother)
    simp only [ChatService.answer, create, hcreated, hregistry]
    exact ⟨h.begun, h.ranks, fun entry hentry => htouch.told entry (List.mem_of_mem_drop hentry)⟩
  | message id body =>
    simp only [ChatService.answer]
    rcases h.post id name body with ⟨-, raw, hconveys, htold⟩ | ⟨-, hstatus, hservice⟩
    · rw [htold.service]
      refine h.touch ?_ fun other hother => if_neg fun hsame => hother hsame.1.symm
      have hheard : hear id (told id) (⟨name, .message id body⟩, s.post id name body) =
          told id ++ [raw] := by
        simp [hear, hconveys.raw?_eq, htold.status.1]
      rw [hheard, Session.after_append]
    · have hheard (other : String) : hear other (told other)
          (⟨name, .message id body⟩, s.post id name body) = told other :=
        if_neg fun hsame => hsame.2 hstatus
      simp only [hheard]
      exact hservice
  | delete id =>
    simp only [ChatService.answer, delete]
    split
    · exact h
    · rename_i hdelete
      obtain ⟨-, rfl⟩ := Prod.mk.inj hdelete
      exact ⟨h.begun, h.ranks, fun entry hentry => h.told entry (List.mem_filter.mp hentry).1⟩

theorem Attuned.after (h : s.Attuned fresh told) (calls : List Call) :
    (s.after calls).Attuned fresh fun id =>
      (calls.zip (s.answers calls)).foldl (hear id) (told id) := by
  induction calls generalizing s told with
  | nil => exact h
  | cons call calls ih => exact ih (h.answer call)

end ChatService

end Colloquy
