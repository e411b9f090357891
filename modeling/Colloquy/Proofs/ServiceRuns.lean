import Colloquy.ChatService
import Colloquy.Proofs.RegistryOperations

/-!
# Runs of the chat service

Requests are answered one after the other. A message comes to one of four ends: no session has its
name, its body cannot be used, the turn that it asks for gives an answer, or that turn fails. In the
last two the session has taken the turn with the tracer that the message asks for, and nobody watches
it any more.
-/

namespace Colloquy

/-- A request with the name under which it is answered. -/
structure Call where
  name : String
  request : Request

namespace SessionRegistry

theorem touch_touch (r : SessionRegistry) (id : String) (s t : Session) :
    (r.touch id s).touch id t = r.touch id t := by
  have hothers : (r.touch id s).others id = r.others id := by simp [others, touch]
  rw [touch, hothers]
  rfl

end SessionRegistry

/-- A body that is refused is refused for itself, not for want of a session. -/
theorem Message.status_of_ofFields {fields : List (JsonString × Json)} {limit : Int}
    {refusal : Refusal} (h : ofFields fields limit = .error refusal) : refusal.status = 400 := by
  unfold ofFields at h
  split at h
  · simp only at h
    split at h
    · cases h
      rfl
    · split at h
      · split at h <;> cases h
        rfl
      · cases h
        rfl
  · cases h
    rfl

theorem Message.status_of_ofBody {body : List UInt8} {limit : Int} {refusal : Refusal}
    (h : ofBody body limit = .error refusal) : refusal.status = 400 := by
  unfold ofBody at h
  split at h
  · cases h
    rfl
  · exact status_of_ofFields h
  · cases h
    rfl

namespace ChatService

def answers (s : ChatService) : List Call → List Answered
  | [] => []
  | call :: calls =>
    let answered := s.answer call.name call.request
    answered :: answered.service.answers calls

def after (s : ChatService) : List Call → ChatService
  | [] => s
  | call :: calls => (s.answer call.name call.request).service.after calls

def touch (s : ChatService) (id : String) (session : Session) : ChatService :=
  { s with registry := s.registry.touch id session }

theorem touch_touch (s : ChatService) (id : String) (session next : Session) :
    (s.touch id session).touch id next = s.touch id next := by
  rw [touch, touch, SessionRegistry.touch_touch]
  rfl

def replied (s : ChatService) (id name : String) (text : List Char) (spoken : Spoken)
    (reply : Word) : Answered :=
  let state := spoken.session.state
  { response := success (.json (.object
      [("session_id", .text id), ("response", .text (String.ofList reply)),
        ("turn", .int state.turns), ("trace", .textOrNull spoken.session.tracer.text?)])) (some name)
    service := s.touch id (spoken.session.watchedBy .silent)
    notices := Notice.ofEvents spoken.events ++ [s.logged "message" id name
      [("turn", .int state.turns), ("limit", .int state.limit),
        ("text", .text (String.ofList text))]]
    fault := none }

@[simp] theorem status_success (content : Content) (name : Option String) :
    (success content name).status = 200 :=
  rfl

@[simp] theorem status_failed (s : ChatService) (fault : ServiceFault) (notices : List Notice) :
    (s.failed fault notices).response.status = 500 :=
  rfl

@[simp] theorem status_refused (s : ChatService) (refusal : Refusal) (name : String) :
    (s.refused refusal name).response.status = refusal.status :=
  rfl

@[simp] theorem status_replied (s : ChatService) (id name : String) (text : List Char)
    (spoken : Spoken) (reply : Word) : (s.replied id name text spoken reply).response.status = 200 :=
  rfl

inductive Posted (s : ChatService) (id name : String) (body : List UInt8) : Answered → Prop where
  | unknown (gone : s.registry.find? id = none) :
    Posted s id name body (s.refused .unknownSession name)
  | refused {session : Session} {refusal : Refusal} (live : s.registry.find? id = some session)
      (unusable : Message.ofBody body s.settings.maxInputChars = .error refusal) :
    Posted s id name body ((s.touch id session).refused refusal name)
  | replied {session : Session} {message : Message} {reply : Word} (tracer : Tracer)
      (live : s.registry.find? id = some session)
      (usable : Message.ofBody body s.settings.maxInputChars = .ok message)
      (allowed : tracer = .silent ∨ s.settings.traceEnabled = true)
      (said : ((session.watchedBy tracer).say message.text).reply = .ok reply) :
    Posted s id name body
      (s.replied id name message.text ((session.watchedBy tracer).say message.text) reply)
  | failed {session : Session} {message : Message} {fault : Fault} (tracer : Tracer)
      (live : s.registry.find? id = some session)
      (usable : Message.ofBody body s.settings.maxInputChars = .ok message)
      (allowed : tracer = .silent ∨ s.settings.traceEnabled = true)
      (said : ((session.watchedBy tracer).say message.text).reply = .error fault) :
    Posted s id name body
      ((s.touch id (((session.watchedBy tracer).say message.text).session.watchedBy .silent)).failed
        (.turn fault) (Notice.ofEvents ((session.watchedBy tracer).say message.text).events))

/-- A message comes to one of these ends. A tracer watches its turn only if the settings allow it. -/
theorem posted_post (s : ChatService) (id name : String) (body : List UInt8) :
    s.Posted id name body (s.post id name body) := by
  unfold post SessionRegistry.get?
  cases hfind : s.registry.find? id with
  | none => exact .unknown hfind
  | some session =>
    simp only [Option.map_some]
    split
    · rename_i refusal hbody
      exact .refused hfind hbody
    · rename_i message hbody
      unfold converse
      extract_lets traced tracer spoken touched notices
      have hallowed : tracer = .silent ∨ s.settings.traceEnabled = true := by
        by_cases htraced : traced = true
        · exact .inr (Bool.and_eq_true_iff.mp htraced).2
        · exact .inl (if_neg htraced)
      have htouch := s.touch_touch id session (spoken.session.watchedBy .silent)
      split
      · rename_i fault hfault
        have hend : s.Posted id name body _ := .failed tracer hfind hbody hallowed hfault
        rw [← htouch] at hend
        exact hend
      · rename_i reply hreply
        have hend : s.Posted id name body _ := .replied tracer hfind hbody hallowed hreply
        unfold replied at hend
        rw [← htouch] at hend
        exact hend

theorem service_showScript (s : ChatService) : s.showScript.service = s := by
  unfold showScript
  split <;> rfl

theorem constants_answer (s : ChatService) (call : Call) :
    (s.answer call.name call.request).service.settings = s.settings ∧
      (s.answer call.name call.request).service.salt = s.salt := by
  obtain ⟨name, request⟩ := call
  cases request with
  | health => exact ⟨rfl, rfl⟩
  | script =>
    rw [answer, service_showScript]
    exact ⟨rfl, rfl⟩
  | create id =>
    simp only [answer, create]
    split <;> exact ⟨rfl, rfl⟩
  | message id body =>
    have hposted := s.posted_post id name body
    simp only [answer]
    generalize s.post id name body = answered at hposted ⊢
    cases hposted <;> exact ⟨rfl, rfl⟩
  | delete id =>
    simp only [answer, delete]
    split <;> exact ⟨rfl, rfl⟩

end ChatService

end Colloquy
