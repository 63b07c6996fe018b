import Mathlib.Data.List.Nodup
import Syndication.Job.Table
import Syndication.Proofs.Effect

/-!
# Proofs.Job.Table — moves change one record

The identifiers of jobs are unique, so a move finds one record at most. If it finds one that may be
moved it changes this record and no other, and if not it changes nothing. A record keeps its
identifiers whatever is done to it, and a terminal status once it has one.

## Contents
* `HasUniqueIds`, `update`
* `get?_eq_some_iff`, `get?_update`, `update_update`
* `move_eq`                       — a move is an update or nothing
* `SameJob`                       — what no move changes
* `insert_eq`, `move_append`      — new records
* `HasEnded`, `Moves`             — what no move undoes
-/

namespace Syndication

namespace JobRecord

/-- The records are of the same job. -/
structure SameJob (r r' : JobRecord) : Prop where
  jobId : r'.jobId = r.jobId
  rootId : r'.rootId = r.rootId
  target : r'.target = r.target

theorem sameJob_claimed (r : JobRecord) (now lease : Int) : SameJob r (r.claimed now lease) :=
  ⟨rfl, rfl, rfl⟩

theorem sameJob_released (r : JobRecord) (error : String) (now : Int) :
    SameJob r (r.released error now) :=
  ⟨rfl, rfl, rfl⟩

theorem sameJob_finished (r : JobRecord) (c : Completion) (now : Int) :
    SameJob r (r.finished c now) :=
  ⟨rfl, rfl, rfl⟩

theorem SameJob.trans {r r' r'' : JobRecord} (h : SameJob r r') (h' : SameJob r' r'') :
    SameJob r r'' :=
  ⟨h'.jobId.trans h.jobId, h'.rootId.trans h.rootId, h'.target.trans h.target⟩

/-- A job that may be taken has not ended. -/
theorem isTerminal_of_isClaimable {r : JobRecord} {now : Int} (h : r.isClaimable now = true) :
    r.status.isTerminal = false := by
  unfold isClaimable at h
  cases hstatus : r.status <;> simp_all [JobStatus.isTerminal]

end JobRecord

namespace JobTable

/-- No two records have one identifier. -/
def HasUniqueIds (t : JobTable) : Prop := (t.records.map (·.jobId)).Nodup

/-- The table with the record of a job changed. -/
def update (t : JobTable) (jobId : String) (change : JobRecord → JobRecord) : JobTable :=
  ⟨t.records.map fun r => if r.jobId = jobId then change r else r⟩

variable {t : JobTable} {jobId : String} {r : JobRecord} {f g : JobRecord → JobRecord}

/-! ## Finding records -/

theorem mem_of_get? (h : t.get? jobId = some r) : r ∈ t.records ∧ r.jobId = jobId :=
  ⟨List.mem_of_find?_eq_some h, by simpa using List.find?_some h⟩

theorem eq_of_jobId (h : t.HasUniqueIds) {r' : JobRecord} (hr : r ∈ t.records)
    (hr' : r' ∈ t.records) (heq : r'.jobId = r.jobId) : r' = r :=
  List.inj_on_of_nodup_map h hr' hr heq

theorem get?_eq_some_iff (h : t.HasUniqueIds) :
    t.get? jobId = some r ↔ r ∈ t.records ∧ r.jobId = jobId := by
  constructor
  · exact mem_of_get?
  · rintro ⟨hr, rfl⟩
    have hsome : (t.get? r.jobId).isSome = true := List.find?_isSome.mpr ⟨r, hr, by simp⟩
    obtain ⟨r', hr'⟩ := Option.isSome_iff_exists.mp hsome
    obtain ⟨hmem, heq⟩ := mem_of_get? hr'
    rw [hr', eq_of_jobId h hr hmem heq]

theorem get?_eq_none_iff : t.get? jobId = none ↔ ∀ r ∈ t.records, r.jobId ≠ jobId := by
  simp [get?]

/-! ## Updates -/

theorem mem_update {r' : JobRecord} :
    r' ∈ (t.update jobId f).records ↔
      ∃ r ∈ t.records, r' = if r.jobId = jobId then f r else r := by
  simp [update, eq_comm]

theorem update_jobIds (hf : ∀ r, (f r).jobId = r.jobId) :
    (t.update jobId f).records.map (·.jobId) = t.records.map (·.jobId) := by
  rw [update, List.map_map]
  apply List.map_congr_left
  intro r _
  simp only [Function.comp_apply]
  split
  · exact hf r
  · rfl

theorem HasUniqueIds.update (h : t.HasUniqueIds) (hf : ∀ r, (f r).jobId = r.jobId) :
    (t.update jobId f).HasUniqueIds := by
  rw [HasUniqueIds, update_jobIds hf]
  exact h

/-- An update changes the record of its job only. -/
theorem get?_update (h : t.HasUniqueIds) (hf : ∀ r, (f r).jobId = r.jobId) (id : String) :
    (t.update jobId f).get? id = if id = jobId then (t.get? id).map f else t.get? id := by
  have hu : (t.update jobId f).HasUniqueIds := h.update hf
  cases hget : t.get? id with
  | none =>
    have hnone : (t.update jobId f).get? id = none := by
      rw [get?_eq_none_iff] at hget ⊢
      intro r' hr' heq
      have hmem : r'.jobId ∈ (t.update jobId f).records.map (·.jobId) := List.mem_map_of_mem hr'
      rw [update_jobIds hf, heq] at hmem
      obtain ⟨r, hr, hid⟩ := List.mem_map.mp hmem
      exact hget r hr hid
    rw [hnone]
    split <;> rfl
  | some r =>
    obtain ⟨hr, rfl⟩ := mem_of_get? hget
    split
    · rename_i heq
      refine (get?_eq_some_iff hu).mpr ⟨mem_update.mpr ⟨r, hr, (if_pos heq).symm⟩, hf r⟩
    · rename_i hne
      exact (get?_eq_some_iff hu).mpr ⟨mem_update.mpr ⟨r, hr, (if_neg hne).symm⟩, rfl⟩

theorem update_update (hf : ∀ r, (f r).jobId = r.jobId) :
    (t.update jobId f).update jobId g = t.update jobId fun r => g (f r) := by
  simp only [update, List.map_map, JobTable.mk.injEq]
  apply List.map_congr_left
  intro r _
  by_cases heq : r.jobId = jobId
  · simp [heq, hf]
  · simp [heq]

/-! ## Moves -/

/-- A move that is not made changes nothing. -/
theorem move_eq_self {may : JobRecord → Bool} (h : (t.move jobId may f).1 = false) :
    (t.move jobId may f).2 = t := by
  obtain ⟨records⟩ := t
  have hnone := List.any_eq_false.mp h
  simp only [move, JobTable.mk.injEq]
  conv => rhs; rw [← List.map_id records]
  refine List.map_congr_left fun r hr => if_neg ?_
  rintro ⟨heq, hmay⟩
  exact hnone r hr (by simp [heq, hmay])

/-- **A move** changes the record of its job if there is one that may be moved, and else nothing. -/
theorem move_eq (h : t.HasUniqueIds) (hget : t.get? jobId = some r) (may : JobRecord → Bool) :
    t.move jobId may f = if may r then (true, t.update jobId f) else (false, t) := by
  obtain ⟨hr, rfl⟩ := mem_of_get? hget
  have honly : ∀ r' ∈ t.records, r'.jobId = r.jobId → r' = r := fun r' hr' => eq_of_jobId h hr hr'
  split
  · rename_i hmay
    refine Prod.ext ?_ ?_
    · exact List.any_eq_true.mpr ⟨r, hr, by simp [hmay]⟩
    · simp only [move, update, JobTable.mk.injEq]
      apply List.map_congr_left
      intro r' hr'
      by_cases heq : r'.jobId = r.jobId
      · simp [honly r' hr' heq, hmay]
      · simp [heq]
  · rename_i hmay
    have hnot : (t.move r.jobId may f).1 = false := by
      apply List.any_eq_false.mpr
      intro r' hr'
      by_cases heq : r'.jobId = r.jobId
      · simp [honly r' hr' heq, hmay]
      · simp [heq]
    exact Prod.ext hnot (move_eq_self hnot)

/-- The record that was written last can be moved, if it is the only one of its job. -/
theorem move_append {may : JobRecord → Bool} (hnew : ∀ r' ∈ t.records, r'.jobId ≠ r.jobId)
    (hmay : may r = true) :
    (⟨t.records ++ [r]⟩ : JobTable).move r.jobId may f = (true, ⟨t.records ++ [f r]⟩) := by
  have hold : (t.records.map fun r' => if r'.jobId = r.jobId ∧ may r' then f r' else r') =
      t.records := by
    conv => rhs; rw [← List.map_id t.records]
    exact List.map_congr_left fun r' hr' => if_neg fun h => hnew r' hr' h.1
  simp [move, hold, hmay]

/-! ## New records -/

/-- A record of a new job is written behind the others. -/
theorem insert_eq (h : ∀ r' ∈ t.records, r'.jobId ≠ r.jobId) :
    (insert r).exec t = (.ok (), ⟨t.records ++ [r]⟩) := by
  have hnone : t.records.any (·.jobId = r.jobId) = false := by
    apply List.any_eq_false.mpr
    intro r' hr'
    simpa using h r' hr'
  rw [insert, Effect.exec_ofFun, hnone]
  rfl

/-- A record of another job is written, or nothing is. -/
theorem exec_insert (r : JobRecord) (t : JobTable) :
    ((insert r).exec t).2 = t ∨
      (((insert r).exec t).2 = ⟨t.records ++ [r]⟩ ∧ ∀ r' ∈ t.records, r'.jobId ≠ r.jobId) := by
  by_cases hnew : ∀ r' ∈ t.records, r'.jobId ≠ r.jobId
  · exact .inr ⟨by rw [insert_eq hnew], hnew⟩
  · left
    push Not at hnew
    obtain ⟨r', hr', heq⟩ := hnew
    have hany : t.records.any (·.jobId = r.jobId) = true :=
      List.any_eq_true.mpr ⟨r', hr', by simpa using heq⟩
    rw [insert, Effect.exec_ofFun, hany]
    rfl

theorem HasUniqueIds.append (h : t.HasUniqueIds) (hnew : ∀ r' ∈ t.records, r'.jobId ≠ r.jobId) :
    (⟨t.records ++ [r]⟩ : JobTable).HasUniqueIds := by
  show ((t.records ++ [r]).map (·.jobId)).Nodup
  rw [List.map_append, List.nodup_append]
  refine ⟨h, List.nodup_singleton _, ?_⟩
  rintro _ hold _ hlast rfl
  obtain ⟨r', hr', heq⟩ := List.mem_map.mp hold
  exact hnew r' hr' (heq.trans (List.mem_singleton.mp hlast))

/-! ## What no move undoes -/

/-- The job has a record that says that it has ended. -/
def HasEnded (t : JobTable) (jobId : String) : Prop :=
  ∃ r ∈ t.records, r.jobId = jobId ∧ r.status.isTerminal = true

/-- Records stay those of their jobs, and what has ended stays as it is. -/
structure Moves (t t' : JobTable) : Prop where
  jobIds : t'.records.map (·.jobId) = t.records.map (·.jobId)
  ended : ∀ r ∈ t.records, r.status.isTerminal = true → r ∈ t'.records

theorem Moves.refl (t : JobTable) : Moves t t := ⟨rfl, fun _ hr _ => hr⟩

theorem Moves.trans {t' t'' : JobTable} (h : Moves t t') (h' : Moves t' t'') : Moves t t'' :=
  ⟨h'.jobIds.trans h.jobIds, fun r hr hended => h'.ended r (h.ended r hr hended) hended⟩

theorem Moves.hasUniqueIds {t' : JobTable} (h : Moves t t') (hunique : t.HasUniqueIds) :
    t'.HasUniqueIds := by
  rw [HasUniqueIds, h.jobIds]
  exact hunique

theorem Moves.hasEnded {t' : JobTable} (h : Moves t t') (hended : t.HasEnded jobId) :
    t'.HasEnded jobId := by
  obtain ⟨r, hr, hid, hterminal⟩ := hended
  exact ⟨r, h.ended r hr hterminal, hid, hterminal⟩

/-- A move that needs a job that has not ended. -/
theorem moves_move {may : JobRecord → Bool} (hmay : ∀ r, may r = true → r.status.isTerminal = false)
    (hf : ∀ r, (f r).jobId = r.jobId) : Moves t (t.move jobId may f).2 where
  jobIds := by
    simp only [move, List.map_map]
    apply List.map_congr_left
    intro r _
    show (if r.jobId = jobId ∧ may r = true then f r else r).jobId = r.jobId
    split
    · exact hf r
    · rfl
  ended := by
    intro r hr hended
    refine List.mem_map.mpr ⟨r, hr, if_neg ?_⟩
    rintro ⟨-, hmoved⟩
    rw [hmay r hmoved] at hended
    cases hended

theorem moves_claim (t : JobTable) (jobId : String) (now lease : Int) :
    Moves t (t.claim jobId now lease).2 :=
  moves_move (fun _ hmay => JobRecord.isTerminal_of_isClaimable hmay) fun _ => rfl

theorem moves_release (t : JobTable) (jobId error : String) (now : Int) :
    Moves t (t.release jobId error now).2 := by
  refine moves_move (fun r hmay => ?_) fun _ => rfl
  rw [beq_iff_eq] at hmay
  rw [hmay]
  rfl

theorem moves_finish (t : JobTable) (jobId : String) (c : Completion) (now : Int) :
    Moves t (t.finish jobId c now).2 :=
  moves_move (fun _ hmay => by simpa using hmay) fun _ => rfl

/-- **A finish** leaves a job that has ended, now or before. -/
theorem hasEnded_finish {r : JobRecord} (hr : r ∈ t.records) {c : Completion}
    (hc : c.status.isTerminal = true) (now : Int) : HasEnded (t.finish r.jobId c now).2 r.jobId := by
  cases hended : r.status.isTerminal with
  | true => exact (moves_finish t r.jobId c now).hasEnded ⟨r, hr, rfl, hended⟩
  | false =>
    refine ⟨r.finished c now, List.mem_map.mpr ⟨r, hr, if_pos ⟨rfl, ?_⟩⟩, rfl, hc⟩
    simp only [hended, Bool.not_false]

/-- A new record keeps the others. -/
theorem insert_spec (r : JobRecord) (h : t.HasUniqueIds) :
    HasUniqueIds ((insert r).exec t).2 ∧
      ∀ jobId, t.HasEnded jobId → HasEnded ((insert r).exec t).2 jobId := by
  rcases exec_insert r t with heq | ⟨heq, hnew⟩
  · rw [heq]
    exact ⟨h, fun _ hended => hended⟩
  · rw [heq]
    refine ⟨h.append hnew, ?_⟩
    rintro jobId ⟨r', hr', hid, hended⟩
    exact ⟨r', List.mem_append_left _ hr', hid, hended⟩

theorem not_hasEnded (h : t.HasUniqueIds) (hget : t.get? jobId = some r)
    (hopen : r.status.isTerminal = false) : ¬ t.HasEnded jobId := by
  rintro ⟨r', hr', hid, hended⟩
  obtain ⟨hr, hid'⟩ := mem_of_get? hget
  rw [eq_of_jobId h hr hr' (hid.trans hid'.symm), hopen] at hended
  cases hended

end JobTable
end Syndication
