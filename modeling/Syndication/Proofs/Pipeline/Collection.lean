import Syndication.Proofs.Pipeline.Run

/-!
# Proofs.Pipeline.Collection — bundles stay as long as they are needed

A bundle is read by every job of its post, and maintenance removes it when the last of them has ended.
Until then what is loaded is what was posted; and after maintenance there is no bundle without a job
that still needs it.

## Contents
* `HasBlob`                       — a bundle of which something is there
* `wellKeyed`, `locked_iff`       — what order says about bundles
* `Collected`, `maintain_spec`    — what maintenance leaves
* `run_bundles`
-/

namespace Syndication.Pipeline

open ObjectStore Staging

/-- Something stands under the identifier of the post. -/
def HasBlob (s : ObjectStore) (root : String) : Prop :=
  ∃ name, (s.find? (contentKey root name)).isSome = true

/-- A job of the post has not ended. -/
def IsNeeded (t : JobTable) (root : String) : Prop :=
  ∃ r ∈ t.records, r.status.isTerminal = false ∧ r.rootId = root

section

variable {s : Service} {posts : List (String × PostContent)}

/-- All that stands among the bundles is of a post. -/
theorem InOrder.wellKeyed (ho : InOrder s posts) : WellKeyed s.store := by
  intro k hfound hk
  rcases ho.kept k hk hfound with ⟨n, -, name, hname, rfl⟩ | ⟨r, hr, -, rfl⟩
  · exact ⟨_, name, isName_idOf _ n, s.issuer.isPathSafe_idOf n, isName_part name hname, rfl⟩
  · obtain ⟨hname, hsafe⟩ := ho.records.isName hr
    exact ⟨r.rootId, _, hname, hsafe, isName_lock (ho.records.target r hr), rfl⟩

/-- A bundle has a blob if a key tells so. -/
theorem InOrder.hasBlob_iff (ho : InOrder s posts) (root : String) :
    HasBlob s.store root ↔ ∃ k, (s.store.find? k).isSome = true ∧ rootOf? k = some root := by
  constructor
  · rintro ⟨name, hfound⟩
    obtain ⟨root', part, hroot, -, hpart, heq⟩ := ho.wellKeyed _ hfound (startsWith_bundleStart _ _)
    obtain ⟨rfl, -⟩ := (contentKey_inj hroot.slash hpart.slash).mp heq
    exact ⟨_, hfound, rootOf?_contentKey hroot.slash⟩
  · rintro ⟨k, hfound, hof⟩
    obtain ⟨root', part, hroot, -, -, rfl⟩ := ho.wellKeyed k hfound (startsWith_of_rootOf? hof)
    rw [rootOf?_contentKey hroot.slash] at hof
    obtain rfl := Option.some.inj hof
    exact ⟨part, hfound⟩

/-- A bundle is locked as long as a job needs it. -/
theorem InOrder.locked_iff (ho : InOrder s posts) (root : String) :
    Locked s.store root ∧ IsName root ↔ IsNeeded s.jobs root := by
  constructor
  · rintro ⟨⟨k, hfound, hstart⟩, hname⟩
    obtain ⟨rest, rfl⟩ := Text.startsWith_iff.mp hstart
    have hlock : rootStart root ++ lockStart ++ rest = lockKey root rest := by
      rw [String.append_assoc]
      rfl
    rw [hlock] at hfound
    rcases ho.kept _ (startsWith_bundleStart _ _) hfound with
      ⟨n, -, name, hpart, heq⟩ | ⟨r, hr, hopen, heq⟩
    · exact absurd heq (lockKey_ne_contentKey (isName_idOf _ n).slash hpart rest)
    · obtain ⟨hroot, -⟩ := (lockKey_inj (ho.records.isName hr).1 (ho.records.target r hr)).mp heq
      exact ⟨r, hr, hopen, hroot.symm⟩
  · rintro ⟨r, hr, hopen, rfl⟩
    refine ⟨⟨lockOf r, (ho.opened r hr hopen).lock, ?_⟩, (ho.records.isName hr).1⟩
    have hlock : lockOf r = rootStart r.rootId ++ lockStart ++ r.target := by
      rw [String.append_assoc]
      rfl
    rw [hlock]
    exact Text.startsWith_append _ _

/-- What was posted is loaded as long as a job needs it. -/
theorem InOrder.load_eq (ho : InOrder s posts) (hget : ∀ k, s.store.outage.get k = false)
    {root : String} (hneeded : IsNeeded s.jobs root) :
    (∃ c, (root, c) ∈ posts) ∧ ∀ c, (root, c) ∈ posts →
      (Staging.load root).exec s.store = (.ok (some c), s.store) := by
  obtain ⟨r, hr, hopen, rfl⟩ := hneeded
  obtain ⟨-, -, -, c, hc, hholds⟩ := ho.opened r hr hopen
  obtain ⟨hname, hsafe⟩ := ho.records.isName hr
  refine ⟨⟨c, hc⟩, ?_⟩
  intro c' hc'
  -- a post is accepted once, so there is only one content
  have heq := List.inj_on_of_nodup_map ho.posts_nodup hc' hc rfl
  rw [(Prod.mk.inj heq).2]
  exact Staging.load_eq ho.sound hget hname hsafe hholds

/-- Maintenance has left exactly the bundles that are needed, and counted what it removed and kept. -/
structure Collected (s s' : Service) (report : SweepReport) : Prop where
  jobs : s'.jobs = s.jobs
  needed : ∀ root, HasBlob s'.store root ↔ IsNeeded s'.jobs root
  removed : ∃ roots : List String, roots.Nodup ∧ report.collected = roots.length ∧
    ∀ root, root ∈ roots ↔ HasBlob s.store root ∧ ¬ HasBlob s'.store root
  kept : ∃ roots : List String, roots.Nodup ∧ report.locked = roots.length ∧
    ∀ root, root ∈ roots ↔ HasBlob s'.store root

/-- **Maintenance** leaves the bundles that are needed and no others, and counts them. -/
theorem InOrder.maintain_spec (ho : InOrder s posts) (hanswers : Answers s.store) (retention : Span) :
    ∃ report s', (Maintenance.maintain retention).exec s = (.ok report, s') ∧
      Collected s s' report.bundles := by
  obtain ⟨before, report, st, after, hbefore, hsweep, hafter, hlater, hlocked, hcollected, hkept⟩ :=
    sweep_inMemory hanswers ho.wellKeyed
  obtain ⟨before', hbefore', hnodup, hmem⟩ := bundles_inMemory hanswers
  obtain ⟨after', hafter', hnodup', hmem'⟩ := bundles_inMemory (hanswers.later hlater)
  obtain rfl : before' = before := Except.ok.inj (Prod.mk.inj (hbefore'.symm.trans hbefore)).1
  obtain rfl : after' = after := Except.ok.inj (Prod.mk.inj (hafter'.symm.trans hafter)).1
  have hswept : InOrder { s with store := st } posts := ho.swept hsweep
  have hexec : (Maintenance.maintain retention).exec s = (.ok ⟨report,
      (s.ledger.prune (Maintenance.cutoffOf s.nowSecs retention)).1,
      (s.windows.cleanup s.nowSecs).1⟩, { s with
        store := st
        ledger := (s.ledger.prune (Maintenance.cutoffOf s.nowSecs retention)).2
        windows := (s.windows.cleanup s.nowSecs).2 }) := by
    rw [Maintenance.maintain, Effect.exec_bind_ok (Effect.exec_get s)]
    simp [hsweep]
  have hblobBefore : ∀ root, root ∈ before' ↔ HasBlob s.store root := by
    intro root
    rw [hmem, ho.hasBlob_iff]
  have hblobAfter : ∀ root, root ∈ after' ↔ HasBlob st root := by
    intro root
    rw [hmem']
    exact (hswept.hasBlob_iff root).symm
  refine ⟨_, _, hexec, rfl, ?_, ?_, after', hnodup', hkept, hblobAfter⟩
  · intro root
    rw [← hblobAfter, hlocked, ho.locked_iff]
  · refine ⟨before'.filter (· ∉ after'), hnodup.filter _, hcollected, ?_⟩
    intro root
    rw [List.mem_filter, decide_eq_true_eq, hblobBefore, hblobAfter]

end

/-- **Collection is safe and complete.** After any run from an empty service over a store in memory:
while any job of a post has not ended, what is loaded is the content that was posted; and maintenance
leaves exactly the bundles of posts with a job that has not ended, its report counting the bundles that
were removed and those that were kept. -/
theorem run_bundles (start p : Pipeline) (hstart : Starts start)
    (hmemory : start.service.store.InMemory)
    (hlist : ∀ k, start.service.store.outage.list k = false) (hrun : Run start p) :
    (∀ root, IsNeeded p.service.jobs root → (∃ c, (root, c) ∈ p.posts) ∧ ∀ c, (root, c) ∈ p.posts →
        (Staging.load root).exec p.service.store = (.ok (some c), p.service.store)) ∧
      ∀ retention, ∃ report s', (Maintenance.maintain retention).exec p.service = (.ok report, s') ∧
        Collected p.service s' report.bundles := by
  obtain ⟨ho, -, -, hlater⟩ := inv_run hstart hrun
  have hget : ∀ k, p.service.store.outage.get k = false := hlater.outage ▸ hstart.get
  have hanswers : Answers p.service.store :=
    Answers.later ⟨hmemory, hlist, hstart.delete⟩ hlater
  exact ⟨fun root hneeded => ho.load_eq hget hneeded, ho.maintain_spec hanswers⟩

/-- After one submission maintenance leaves the bundle, since it is needed. -/
theorem run_bundles_submitted :
    ∃ p, Run { service := .started {} Service.sampleKeys } p ∧ p.posts.length = 1 ∧
      ∃ report s', (Maintenance.maintain Span.zero).exec p.service = (.ok report, s') ∧
        Collected p.service s' report.bundles := by
  have hrun := Relation.ReflTransGen.single
    (Step.submit { service := .started {} Service.sampleKeys } Service.samplePost
      (by simp [Service.samplePost]))
  have hmemory : (Service.started {} Service.sampleKeys).store.InMemory := ⟨{}, rfl⟩
  exact ⟨_, hrun, by decide +kernel,
    (run_bundles _ _ (starts_started {} _) hmemory (fun _ => rfl) hrun).2 Span.zero⟩

end Syndication.Pipeline
