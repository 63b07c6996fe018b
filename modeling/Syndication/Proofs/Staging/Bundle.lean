import Syndication.Proofs.Job.Payload
import Syndication.Proofs.Staging.Keys
import Syndication.Proofs.Store.Objects

/-!
# Proofs.Staging.Bundle — staged content is loaded as it was

Content is staged as five objects, and each of them is read back as it was written. Staging touches
the places of these objects only, so a bundle stays as it is while other bundles come and go.

## Contents
* `Holds`                             — a store holds the content of a bundle
* `putAll_spec`, `stage_spec`, `stage_error` — staging
* `load_of_get`, `load_eq`            — loading
* `fst_load_congr`                    — what loading depends on
* `decodeList?_encodeList`
-/

namespace Syndication.Staging

open ObjectStore

variable {s s' : ObjectStore} {root : String}

/-- The store holds this content under an identifier. -/
def Holds (s : ObjectStore) (root : String) (c : PostContent) : Prop :=
  ∀ p ∈ parts c, s.find? (contentKey root p.1) = some p.2

theorem Holds.of_same {c : PostContent} (h : Holds s root c)
    (hsame : ∀ name ∈ partNames, s'.find? (contentKey root name) = s.find? (contentKey root name)) :
    Holds s' root c := by
  intro p hp
  have hname : p.1 ∈ partNames := map_fst_parts c ▸ List.mem_map_of_mem hp
  rw [hsame p.1 hname]
  exact h p hp

theorem checkRoot_eq (h : isPathSafe root = true) : checkRoot root = .ok () := by
  rw [checkRoot, if_pos h]

/-! ## Staging -/

/-- Objects put one after the other: those that were put are there at the end, and nothing else has
changed. -/
theorem putAll_spec {ps : List (String × Bytes)} (hs : s.IsSound) (hnames : (ps.map (·.1)).Nodup)
    {r : Except Error Unit} (h : (putAll root ps).exec s = (r, s')) :
    Later s s' ∧ (∀ k, (∀ p ∈ ps, k ≠ contentKey root p.1) → s'.find? k = s.find? k) ∧
      (r = .ok () → ∀ p ∈ ps, s'.find? (contentKey root p.1) = some p.2) := by
  induction ps generalizing s with
  | nil =>
    obtain ⟨rfl, rfl⟩ := Prod.mk.inj h
    exact ⟨.refl _, fun _ _ => rfl, fun _ p hp => by cases hp⟩
  | cons p ps ih =>
    obtain ⟨name, data⟩ := p
    rw [List.map_cons, List.nodup_cons] at hnames
    rw [putAll, Effect.exec_bind] at h
    rcases hput : (ObjectStore.put (contentKey root name) data).exec s with ⟨e | _, t⟩
    · rw [hput] at h
      obtain ⟨rfl, rfl⟩ := Prod.mk.inj h
      obtain ⟨hlater, ⟨hr, -⟩ | ⟨-, hfind⟩⟩ := put_spec hs hput
      · cases hr
      · exact ⟨hlater, fun k _ => hfind k, fun hr => by cases hr⟩
    · rw [hput] at h
      obtain ⟨hlater, ⟨-, hfind⟩ | ⟨⟨e, hr⟩, -⟩⟩ := put_spec hs hput
      case inr => cases hr
      obtain ⟨hlater', hframe, hthere⟩ := ih (hlater.isSound hs) hnames.2 h
      refine ⟨hlater.trans hlater', ?_, ?_⟩
      · intro k hk
        rw [hframe k fun q hq => hk q (List.mem_cons_of_mem _ hq), hfind,
          if_neg (hk _ List.mem_cons_self)]
      · intro hr q hq
        rcases List.mem_cons.mp hq with rfl | hq
        · -- no later part has this name, so it is not written over
          rw [hframe, hfind, if_pos rfl]
          intro q hq heq
          exact hnames.1 (contentKey_right_inj.mp heq ▸ List.mem_map_of_mem hq)
        · exact hthere hr q hq

/-- **Staging.** Staged content is held, and nothing outside the content of the bundle changes. -/
theorem stage_spec {c : PostContent} (hs : s.IsSound) (hroot : isPathSafe root = true)
    {r : Except Error Unit} (h : (stage root c).exec s = (r, s')) :
    Later s s' ∧ (∀ k, (∀ name ∈ partNames, k ≠ contentKey root name) → s'.find? k = s.find? k) ∧
      (r = .ok () → Holds s' root c) := by
  have hstage : (stage root c).exec s = (putAll root (parts c)).exec s := by
    simp [stage, checkRoot_eq hroot]
  obtain ⟨hlater, hframe, hheld⟩ := putAll_spec hs (map_fst_parts c ▸ by decide) (hstage ▸ h)
  refine ⟨hlater, fun k hk => hframe k fun p hp => hk p.1 ?_, hheld⟩
  exact map_fst_parts c ▸ List.mem_map_of_mem hp

theorem putAll_error {ps : List (String × Bytes)} {e : Error}
    (h : (putAll root ps).exec s = (.error e, s')) : ∃ cause, e = .storage cause := by
  induction ps generalizing s with
  | nil => cases (Prod.mk.inj h).1
  | cons p ps ih =>
    rw [putAll, Effect.exec_bind] at h
    rcases hput : (ObjectStore.put (contentKey root p.1) p.2).exec s with ⟨e' | _, t⟩
    · rw [hput] at h
      obtain rfl := Except.error.inj (Prod.mk.inj h).1
      exact put_error (by rw [hput])
    · rw [hput] at h
      exact ih h

/-- What keeps content from being staged is the store. -/
theorem stage_error {c : PostContent} (hroot : isPathSafe root = true) {e : Error}
    (h : (stage root c).exec s = (.error e, s')) : ∃ cause, e = .storage cause := by
  have hstage : (stage root c).exec s = (putAll root (parts c)).exec s := by
    simp [stage, checkRoot_eq hroot]
  exact putAll_error (hstage ▸ h)

/-! ## Loading -/

theorem decodeList?_encodeList (ss : List String) : decodeList? (encodeList ss) = some ss := by
  rw [decodeList?, encodeList, Json.ofBytes?_compact (Json.Written.texts ss), Option.bind_some,
    Json.asList?_texts]

theorem getText_eq {name text : String}
    (h : (ObjectStore.get (contentKey root name)).exec s = (.ok (some (Utf8.encode text)), s)) :
    (getText root name).exec s = (.ok (some text), s) := by
  simp [getText, h]

theorem getList_eq {name : String} {ss : List String}
    (h : (ObjectStore.get (contentKey root name)).exec s = (.ok (some (encodeList ss)), s)) :
    (getList root name).exec s = (.ok (some ss), s) := by
  simp [getList, h, decodeList?_encodeList]

/-- Content is loaded if each of its parts is read. -/
theorem load_of_get {c : PostContent} (hsafe : isPathSafe root = true)
    (hpart : ∀ p ∈ parts c, (ObjectStore.get (contentKey root p.1)).exec s = (.ok (some p.2), s)) :
    (load root).exec s = (.ok (some c), s) := by
  simp only [parts, List.forall_mem_cons] at hpart
  obtain ⟨htitle, hdescription, hhtml, htags, hmedia, -⟩ := hpart
  simp [load, checkRoot_eq hsafe, getText_eq htitle, getText_eq hdescription, getText_eq hhtml,
    getList_eq htags, getList_eq hmedia]

/-- **What was staged is loaded.** -/
theorem load_eq {c : PostContent} (hs : s.IsSound) (hget : ∀ k, s.outage.get k = false)
    (hroot : IsName root) (hsafe : isPathSafe root = true) (h : Holds s root c) :
    (load root).exec s = (.ok (some c), s) := by
  refine load_of_get hsafe fun p hp => ?_
  have hname : p.1 ∈ partNames := map_fst_parts c ▸ List.mem_map_of_mem hp
  exact get_eq hs (hget _) (isValidKey_contentKey hroot (isName_part _ hname)) (h p hp)

/-- Where no part is, nothing is loaded. -/
theorem load_of_get_none (hsafe : isPathSafe root = true)
    (hpart : ∀ name ∈ partNames, (ObjectStore.get (contentKey root name)).exec s = (.ok none, s)) :
    (load root).exec s = (.ok none, s) := by
  simp only [partNames, List.forall_mem_cons] at hpart
  obtain ⟨htitle, hdescription, hhtml, htags, hmedia, -⟩ := hpart
  simp [load, checkRoot_eq hsafe, getText, getList, htitle, hdescription, hhtml, htags, hmedia]

theorem readOnly_get (key : String) : Effect.ReadOnly (ObjectStore.get key) := fun _ => get_snd

theorem readOnly_getText (root name : String) : Effect.ReadOnly (getText root name) :=
  (readOnly_get _).bind fun _ => .pure _

theorem readOnly_getList (root name : String) : Effect.ReadOnly (getList root name) := by
  apply (readOnly_get _).bind
  intro o
  cases o with
  | none => exact .pure none
  | some data =>
    cases hss : decodeList? data with
    | none => simpa only [hss] using .throw _
    | some ss => simpa only [hss] using .pure _

/-- Loading leaves the store as it is. -/
theorem readOnly_load (root : String) : Effect.ReadOnly (load root) := by
  refine (Effect.ReadOnly.liftM _).bind fun _ => (readOnly_getText _ _).bind fun title =>
    (readOnly_getText _ _).bind fun description => (readOnly_getText _ _).bind fun html =>
    (readOnly_getList _ _).bind fun tags => (readOnly_getList _ _).bind fun media => ?_
  split
  · exact .pure none
  · exact .pure _

/-- What is loaded depends on what is read of the parts. -/
theorem fst_load_congr (h : ∀ name ∈ partNames, ((ObjectStore.get (contentKey root name)).exec s).1 =
    ((ObjectStore.get (contentKey root name)).exec s').1) :
    ((load root).exec s).1 = ((load root).exec s').1 := by
  have htext : ∀ name ∈ partNames, ((getText root name).exec s).1 = ((getText root name).exec s').1 :=
    fun name hname => (readOnly_get _).fst_bind_congr (h name hname) fun _ => rfl
  have hlist : ∀ name ∈ partNames, ((getList root name).exec s).1 = ((getList root name).exec s').1 := by
    intro name hname
    refine (readOnly_get _).fst_bind_congr (h name hname) fun o => ?_
    cases o with
    | none => rfl
    | some data => cases hss : decodeList? data <;> simp only [hss] <;> rfl
  refine (Effect.ReadOnly.liftM _).fst_bind_congr rfl fun _ =>
    (readOnly_getText _ _).fst_bind_congr (htext _ (by decide)) fun title =>
    (readOnly_getText _ _).fst_bind_congr (htext _ (by decide)) fun description =>
    (readOnly_getText _ _).fst_bind_congr (htext _ (by decide)) fun html =>
    (readOnly_getList _ _).fst_bind_congr (hlist _ (by decide)) fun tags =>
    (readOnly_getList _ _).fst_bind_congr (hlist _ (by decide)) fun media => ?_
  split <;> rfl

end Syndication.Staging
