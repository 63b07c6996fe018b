import Syndication.Proofs.Pipeline.Run

/-!
# Proofs.Pipeline.NoJobLost — no job is lost and no lock is left

Records, messages and locks are changed one after the other, by many hands, and nothing is undone
together. Still a job that has not ended can always be delivered, and what has ended leaves no lock.

## Contents
* `run_noJobLost`
-/

namespace Syndication.Pipeline

open ObjectStore Staging

/-- **No job is lost and no lock leaks.** After any run from an empty service, each job that has not
ended waits, exactly one message of the delivery queue carries it, and its lock is there; a job that has
ended has no lock; and every lock is that of a job that has not ended. -/
theorem run_noJobLost (start p : Pipeline) (hstart : Starts start) (hrun : Run start p) :
    (∀ r ∈ p.service.jobs.records, r.status.isTerminal = false →
      r.status = .queued ∧ p.service.messages.carriers r.jobId = 1 ∧
        (p.service.store.find? (lockKey r.rootId r.target)).isSome = true) ∧
      (∀ r ∈ p.service.jobs.records, r.status.isTerminal = true →
        p.service.store.find? (lockKey r.rootId r.target) = none) ∧
      ∀ root target, (p.service.store.find? (lockKey root target)).isSome = true →
        ∃ r ∈ p.service.jobs.records,
          r.status.isTerminal = false ∧ r.rootId = root ∧ r.target = target := by
  have ho := (inv_run hstart hrun).order
  refine ⟨?_, ?_, ?_⟩
  · intro r hr hopen
    obtain ⟨hqueued, hmessage, hlock, -⟩ := ho.opened r hr hopen
    exact ⟨hqueued, hmessage, hlock⟩
  · intro r hr hended
    exact ho.unlocked hr hended
  · intro root target hlock
    rcases ho.kept _ (startsWith_bundleStart _ _) hlock with
      ⟨n, -, name, hname, heq⟩ | ⟨r, hr, hopen, heq⟩
    · exact absurd heq (lockKey_ne_contentKey (isName_idOf _ n).slash hname target)
    · obtain ⟨hroot, htarget⟩ :=
        (lockKey_inj (ho.records.isName hr).1 (ho.records.target r hr)).mp heq
      exact ⟨r, hr, hopen, hroot.symm, htarget.symm⟩

/-- After one submission two jobs wait, each with its message and its lock. -/
theorem run_noJobLost_submitted :
    ∃ p, Run { service := .started {} Service.sampleKeys } p ∧ p.service.jobs.records.length = 2 ∧
      ∀ r ∈ p.service.jobs.records, r.status.isTerminal = false →
        r.status = .queued ∧ p.service.messages.carriers r.jobId = 1 ∧
          (p.service.store.find? (lockKey r.rootId r.target)).isSome = true := by
  have hrun := Relation.ReflTransGen.single
    (Step.submit { service := .started {} Service.sampleKeys } Service.samplePost
      (by simp [Service.samplePost]))
  exact ⟨_, hrun, by decide +kernel, (run_noJobLost _ _ (starts_started {} _) hrun).1⟩

end Syndication.Pipeline
