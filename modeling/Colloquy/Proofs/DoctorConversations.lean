import Colloquy.DoctorScript
import Colloquy.Proofs.RegularScripts
import Colloquy.Proofs.TracedConversations

/-!
# Conversations with the doctor

The DOCTOR script is regular: links lead to keywords with rules, at most three of them follow each other,
every template asks for parts that its pattern makes, and the NONE rule always answers. So a
conversation with the doctor never ends in an error or in a phrase that is there for faulty scripts.
-/

namespace Colloquy

namespace DoctorScript

def linkDepth : Nat := 3

/-- The greatest number of characters of a text for which turns are known to be regular. -/
def textLimit : Nat := 2000

def Verified (s : Script) : Prop :=
  s.Regular linkDepth ∧ s.memoryRule?.isSome = true

instance (s : Script) : Decidable (Verified s) := by
  unfold Verified
  infer_instance

set_option maxRecDepth 100000 in
theorem verified_of_characters :
    ∃ characters, text = String.ofList characters ∧
      (Script.read characters).toOption.any (fun s => Verified s) = true := by
  -- The text is spelled out first: the kernel reads a list of characters far faster than a string.
  refine ⟨?characters, ?spelled, ?verified⟩
  case spelled =>
    unfold text
    exact rfl
  case verified => decide +kernel

theorem exists_load : ∃ script, load = .ok script ∧ Verified script := by
  obtain ⟨characters, htext, hverified⟩ := verified_of_characters
  obtain ⟨script, hread, hscript⟩ := Script.exists_read_of_any hverified
  refine ⟨script, ?_, of_decide_eq_true hscript⟩
  rw [load, htext, String.toList_ofList]
  exact hread

/-- Conversations with the doctor can begin, and in each of them, with canned phrases or without, every
turn on a text of no more than 2000 characters is regular, whatever has been said before. -/
theorem conversations_regular (cannedPhrases : Bool) (tracer : Tracer) :
    ∃ script session, load = .ok script ∧
      Session.start script ⟨cannedPhrases, defaultMaxHops⟩ tracer = .ok session ∧
      ∀ said text, text.length ≤ textLimit →
        ((session.after said).say text).Regular session.repertoire := by
  obtain ⟨script, hload, hregular, hmemory⟩ := exists_load
  have hloaded : script.Loaded := Script.loaded_of_read hload
  obtain ⟨session, hstart⟩ : ∃ session,
      Session.start script ⟨cannedPhrases, defaultMaxHops⟩ tracer = .ok session :=
    Session.exists_start_iff.mpr
      ⟨hloaded.complete.1, hmemory, (by decide : (1 : Int) ≤ defaultMaxHops)⟩
  refine ⟨script, session, hload, hstart, fun said text htext => ?_⟩
  have hsound := Session.sound_start hloaded.steady (.inr hloaded.writable) hstart
  have hnow := hsound.after hloaded.steady said
  obtain ⟨hrepertoire, hoptions⟩ := session.constant_after said
  obtain ⟨-, hsessionOptions, -, -⟩ := Session.parts_of_start hstart
  have hroom : textLimit * (linkDepth + 1) ≤ defaultMaxHops.toNat := by decide
  rw [← hrepertoire]
  refine hnow.regular hloaded.steady hregular ?_
  rw [hoptions, hsessionOptions]
  exact (Nat.mul_le_mul_right _ htext).trans hroom

theorem first_turn_regular :
    ∃ script session, load = .ok script ∧
      Session.start script ⟨true, defaultMaxHops⟩ .silent = .ok session ∧
      (session.say "MEN ARE ALL ALIKE.".toList).Regular session.repertoire :=
  (conversations_regular true .silent).imp fun _ => Exists.imp fun _ ⟨hload, hstart, hturns⟩ =>
    ⟨hload, hstart, hturns [] "MEN ARE ALL ALIKE.".toList (by decide)⟩

end DoctorScript

end Colloquy
