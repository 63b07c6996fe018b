import Syndication.Proofs.Effect
import Syndication.Proofs.Job.Payload
import Syndication.Submission

/-!
# Proofs.Submission.Checks — what is refused before anything is done

A request passes the checks exactly when its targets can be told apart and may stand in keys, and there
is content. Each failed check has an error of its own kind.

## Contents
* `PostRequest.inCalendar_of_ofJson?`              — the instant that is asked for
* `checkTargets_eq_ok_iff`, `validate_eq_ok_iff`   — what passes
* `validate_error`, `authenticate_error`           — kinds of errors
* `exec_submit`, `exec_submitForUser`
-/

namespace Syndication

/-- A request that was read asks for an instant in the calendar, if for any. -/
theorem PostRequest.inCalendar_of_ofJson? {j : Json} {r : PostRequest}
    (h : PostRequest.ofJson? j = some r) : ∀ t ∈ r.postAt, t.InCalendar := by
  simp only [PostRequest.ofJson?, Option.bind_eq_bind, Option.bind_eq_some_iff] at h
  obtain ⟨m, -, _, -, _, -, _, -, _, -, _, -, _, -, _, -, postAt, hpostAt, hr⟩ := h
  rw [← Option.some.inj hr]
  exact fun t ht => (Instant.isHeld_of_optional hpostAt t ht).calendar

namespace Submission

theorem checkTargets_eq_ok_iff (seen targets : List String) :
    checkTargets seen targets = .ok () ↔
      (∀ target ∈ targets, isPathSafe target = true ∧ target ∉ seen) ∧ targets.Nodup := by
  induction targets generalizing seen with
  | nil => simp [checkTargets]
  | cons target rest ih =>
    rw [checkTargets, List.forall_mem_cons, List.nodup_cons]
    by_cases hsafe : isPathSafe target = true
    · by_cases hseen : target ∈ seen
      · simp [hsafe, hseen]
      · rw [if_neg (by simp [hsafe]), if_neg hseen, ih]
        constructor
        · rintro ⟨hrest, hnodup⟩
          refine ⟨⟨⟨hsafe, hseen⟩, ?_⟩, ?_, hnodup⟩
          · intro other hother
            exact ⟨(hrest other hother).1, fun h => (hrest other hother).2 (List.mem_cons_of_mem _ h)⟩
          · intro hmem
            exact (hrest target hmem).2 List.mem_cons_self
        · rintro ⟨⟨-, hrest⟩, hnot, hnodup⟩
          refine ⟨fun other hother => ⟨(hrest other hother).1, fun h => ?_⟩, hnodup⟩
          rcases List.mem_cons.mp h with rfl | h
          · exact hnot hother
          · exact (hrest other hother).2 h
    · simp [hsafe]

theorem checkTargets_error {seen targets : List String} {e : Error}
    (h : checkTargets seen targets = .error e) : ∃ detail, e = .invalidInput detail := by
  induction targets generalizing seen with
  | nil => cases h
  | cons target rest ih =>
    unfold checkTargets at h
    split at h
    · exact ⟨_, (Except.error.inj h).symm⟩
    split at h
    · exact ⟨_, (Except.error.inj h).symm⟩
    · exact ih h

/-- A post can be made if there are targets that can be told apart, and content. -/
theorem validate_eq_ok_iff (targets : List String) (content : PostContent) :
    validate targets content = .ok () ↔ targets ≠ [] ∧
      (∀ target ∈ targets, isPathSafe target = true) ∧ targets.Nodup ∧ content.isEmpty = false := by
  rw [validate]
  by_cases hempty : targets = []
  · simp [hempty]
  rw [if_neg (by simpa using hempty)]
  cases hcheck : checkTargets [] targets with
  | error e =>
    have hnot : ¬ ((∀ target ∈ targets, isPathSafe target = true) ∧ targets.Nodup) := by
      rintro ⟨hsafe, hnodup⟩
      have hok := (checkTargets_eq_ok_iff [] targets).mpr ⟨fun t ht => ⟨hsafe t ht, List.not_mem_nil⟩, hnodup⟩
      rw [hcheck] at hok
      cases hok
    simp only [reduceCtorEq, false_iff, ← and_assoc, not_and]
    intro ⟨⟨_, hsafe⟩, hnodup⟩
    exact absurd ⟨hsafe, hnodup⟩ hnot
  | ok u =>
    obtain ⟨hsafe, hnodup⟩ := (checkTargets_eq_ok_iff [] targets).mp hcheck
    have hsafe : ∀ target ∈ targets, isPathSafe target = true := fun t ht => (hsafe t ht).1
    by_cases hcontent : content.isEmpty = true
    · simp [hcontent]
    · refine iff_of_true ?_ ⟨hempty, hsafe, hnodup, Bool.eq_false_iff.mpr hcontent⟩
      simp [hcontent]

theorem validate_error {targets : List String} {content : PostContent} {e : Error}
    (h : validate targets content = .error e) : ∃ detail, e = .invalidInput detail := by
  unfold validate at h
  split at h
  · exact ⟨_, (Except.error.inj h).symm⟩
  split at h
  · rename_i hcheck
    obtain rfl := Except.error.inj h
    exact checkTargets_error hcheck
  split at h
  · exact ⟨_, (Except.error.inj h).symm⟩
  · cases h

theorem authenticate_error {ring : KeyRing} {c : Credential} {e : Error}
    (h : ring.authenticate c = .error e) : ∃ detail, e = .unauthorized detail := by
  unfold KeyRing.authenticate at h
  split at h
  · exact ⟨_, (Except.error.inj h).symm⟩
  split at h
  · exact ⟨_, (Except.error.inj h).symm⟩
  split at h
  · cases h
  split at h
  · cases h
  · exact ⟨_, (Except.error.inj h).symm⟩

theorem exec_submit (s : Service) (request : PostRequest) :
    (submit request).exec s =
      match s.keys.authenticate request.credential with
      | .error e => (.error e, s)
      | .ok () =>
        match validate request.targets request.content with
        | .error e => (.error e, s)
        | .ok () => (fanOut request.credential.userId request.targets request.content
            request.postAt).exec s := by
  rw [submit, Effect.exec_bind_ok (Effect.exec_get s)]
  cases s.keys.authenticate request.credential with
  | error e => rfl
  | ok u =>
    simp only
    cases validate request.targets request.content <;> rfl

theorem exec_submitForUser (s : Service) (userId : String) (targets : List String)
    (content : PostContent) (postAt : Option Instant) :
    (submitForUser userId targets content postAt).exec s =
      match validate targets content with
      | .error e => (.error e, s)
      | .ok () =>
        if userId.isEmpty then (.error (.invalidInput "user id is required"), s)
        else (fanOut userId targets content postAt).exec s := by
  rw [submitForUser]
  cases validate targets content with
  | error e => rfl
  | ok u =>
    simp only
    split <;> rfl

end Submission
end Syndication
