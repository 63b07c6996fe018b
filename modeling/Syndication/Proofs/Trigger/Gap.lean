import Syndication.Proofs.Trigger.Diary

/-!
# Proofs.Trigger.Gap — hours lie between two posts of a trigger

A trigger is stamped before its post is submitted, and the stamp that it had is put back if that fails.
So whatever fails and is tried again, and however the clock is set, the stamp is the second of the latest
post that was submitted, and the next one is not submitted before the gap has passed since. A user who
registers a trigger again, under a name that has become free, begins anew.

## Contents
* `submissions`                     — the posts of a trigger since it was registered
* `FarApart`, `Spaced`, `GapKept`
* `Spaced.of_listed`, `Spaced.of_one`  — what changes little
* `Spaced.registered`, `Spaced.turned`, `Spaced.move`
* `Spaced.throttled_iff`
* `ofCalls_gapKept`
-/

namespace Syndication.Firing.Diary

open TriggerTable

/-! ## What was submitted -/

/-- The turns of a name that were submitted since it was registered, after one more entry. -/
def submitted (name : String × String) (past : List Turn) : Entry → List Turn
  | .registered userId triggerId => if (userId, triggerId) = name then [] else past
  | .considered a =>
    if nameOf a.trigger = name ∧ a.result = .ok .submitted then past ++ [a] else past

/-- **The turns of a trigger that were submitted** since it was registered, in their order. -/
def submissions (name : String × String) (entries : List Entry) : List Turn :=
  entries.foldl (submitted name) []

/-- The later turn came when the gap had passed since the earlier one. -/
def FarApart (a b : Turn) : Prop := a.second + a.trigger.gapHours * 3600 ≤ b.second

/-- **The invariant of the gap.** -/
structure Spaced (d : Diary) : Prop where
  /-- A trigger bears the second of its latest submission, or none if there was none. -/
  stamped : ∀ t ∈ d.service.triggers.triggers,
    t.lastNotifiedAt = (submissions (nameOf t) d.entries).getLast?.map (·.second)
  /-- Any two submissions of a trigger lie its gap apart, for whatever events they were. -/
  spaced : ∀ name, (submissions name d.entries).Pairwise FarApart
  /-- That gap is the one that the trigger has. -/
  constant : ∀ t ∈ d.service.triggers.triggers, ∀ a ∈ submissions (nameOf t) d.entries,
    a.trigger.gapHours = t.gapHours

/-- **The gap is kept**, and no more than that. -/
structure GapKept (d : Diary) : Prop extends Spaced d where
  /-- A turn that leads to no submission changes no trigger, and so no stamp. -/
  untouched : ∀ e, ∀ t ∈ d.service.triggers.triggers,
    ((Firing.consider e t.userId t).exec d.service).1 ≠ .ok .submitted →
      ((Firing.consider e t.userId t).exec d.service).2.triggers = d.service.triggers
  /-- A trigger that is new for a message is put off exactly if one of its submissions lies less than the
  gap back. -/
  throttled : ∀ e, ∀ t ∈ d.service.triggers.triggers,
    ¬ d.service.ledger.HasFired (keyOf e t.userId t) →
      (((Firing.consider e t.userId t).exec d.service).1 = .ok .throttled ↔
        ∃ a ∈ submissions (nameOf t) d.entries, d.service.nowSecs < a.second + t.gapHours * 3600)
  /-- What is written down of an event is what is done for it. -/
  written : ∀ e, (process e).exec d.service =
    (.ok (adding {} (turnsOf e (rowsFor e d.service) d.service)),
      afterTurns e (rowsFor e d.service) d.service)

variable {name : String × String} {entries : List Entry} {x : Entry} {past : List Turn} {a b : Turn}
  {t : Trigger} {d d' : Diary}

theorem submissions_append_singleton :
    submissions name (entries ++ [x]) = submitted name (submissions name entries) x := by
  simp [submissions]

/-- Whoever comes when the gap has passed since the latest comes when it has passed since all. -/
theorem farApart_of_latest (hspaced : past.Pairwise FarApart) (hlast : past.getLast? = some a)
    (hnext : FarApart a b) : ∀ earlier ∈ past, FarApart earlier b := by
  obtain ⟨before, rfl⟩ := List.getLast?_eq_some_iff.mp hlast
  intro earlier hearlier
  rcases List.mem_append.mp hearlier with hbefore | hsame
  · have hpast : FarApart earlier a :=
      (List.pairwise_append.mp hspaced).2.2 earlier hbefore a (List.mem_singleton_self a)
    -- a gap is never negative, so the latest one did not come before the others
    rw [FarApart] at *
    omega
  · rwa [List.mem_singleton.mp hsame]

/-! ## One move -/

/-- A turn that may notify comes when the gap has passed since every submission of its trigger. -/
theorem Spaced.farApart (h : Spaced d) (ht : t ∈ d.service.triggers.triggers)
    (hdue : t.mayNotify d.service.nowSecs = true) (e : TriggerEvent) :
    ∀ a ∈ submissions (nameOf t) d.entries, FarApart a (turnOf e t d.service) := by
  have hstamp := h.stamped t ht
  cases hlast : (submissions (nameOf t) d.entries).getLast? with
  | none =>
    rw [List.getLast?_eq_none_iff.mp hlast]
    simp
  | some latest =>
    refine farApart_of_latest (h.spaced _) hlast ?_
    have hgap : latest.trigger.gapHours = t.gapHours :=
      h.constant t ht latest (List.mem_of_getLast? hlast)
    rw [hlast] at hstamp
    have hpassed : latest.second + t.gapHours * 3600 ≤ d.service.nowSecs := by
      simpa [Trigger.mayNotify, Trigger.nextAllowedAt, hstamp] using hdue
    rw [FarApart, hgap]
    exact hpassed

/-- Nothing is submitted, and no trigger is new or stamped. -/
theorem Spaced.of_listed (h : Spaced d)
    (hlisted : ∀ t ∈ d'.service.triggers.triggers, t ∈ d.service.triggers.triggers)
    (hsame : ∀ name, submissions name d'.entries = submissions name d.entries) : Spaced d' where
  stamped := by
    intro t ht
    rw [hsame]
    exact h.stamped t (hlisted t ht)
  spaced := by
    intro name
    rw [hsame]
    exact h.spaced name
  constant := by
    intro t ht
    rw [hsame]
    exact h.constant t (hlisted t ht)

/-- One name has a trigger that keeps its gap, and nothing is new about the others. -/
theorem Spaced.of_one (h : Spaced d) (new : Trigger)
    (hcases : ∀ t ∈ d'.service.triggers.triggers,
      t = new ∨ t ∈ d.service.triggers.triggers ∧ nameOf t ≠ nameOf new)
    (hothers : ∀ name, nameOf new ≠ name →
      submissions name d'.entries = submissions name d.entries)
    (hstamped : new.lastNotifiedAt = (submissions (nameOf new) d'.entries).getLast?.map (·.second))
    (hspaced : (submissions (nameOf new) d'.entries).Pairwise FarApart)
    (hconstant : ∀ a ∈ submissions (nameOf new) d'.entries, a.trigger.gapHours = new.gapHours) :
    Spaced d' where
  stamped := by
    intro t ht
    rcases hcases t ht with rfl | ⟨hlisted, hne⟩
    · exact hstamped
    · rw [hothers _ hne.symm]
      exact h.stamped t hlisted
  spaced := by
    intro name
    by_cases hname : nameOf new = name
    · exact hname ▸ hspaced
    · rw [hothers name hname]
      exact h.spaced name
  constant := by
    intro t ht
    rcases hcases t ht with rfl | ⟨hlisted, hne⟩
    · exact hconstant
    · rw [hothers _ hne.symm]
      exact h.constant t hlisted

/-- A new trigger has no submissions. -/
theorem Spaced.registered (h : Spaced d) {s : Service} {n : NewTrigger} {triggerId : String}
    {second : Int}
    (hnew : nameOf (n.trigger triggerId second) ∉ d.service.triggers.triggers.map nameOf)
    (htable : s.triggers = d.service.triggers.added (n.trigger triggerId second)) :
    Spaced ⟨s, d.entries ++ [.registered n.userId triggerId]⟩ := by
  have hown : submissions (nameOf (n.trigger triggerId second))
      (d.entries ++ [.registered n.userId triggerId]) = [] :=
    submissions_append_singleton.trans (if_pos rfl)
  refine h.of_one (n.trigger triggerId second) ?_ ?_ ?_ ?_ ?_
  · intro t ht
    rw [htable] at ht
    rcases List.mem_append.mp ht with hlisted | hlast
    · exact .inr ⟨hlisted, fun heq => hnew (heq ▸ List.mem_map_of_mem hlisted)⟩
    · exact .inl (List.mem_singleton.mp hlast)
  · exact fun name hne => submissions_append_singleton.trans (if_neg hne)
  · rw [hown]
    rfl
  · rw [hown]
    exact .nil
  · rw [hown]
    simp

/-- A turn that leads to no submission changes no trigger, and one that does is the latest of its
trigger. -/
theorem Spaced.turned (h : Spaced d) (hexact : Exact d.service.triggers) (e : TriggerEvent)
    (ht : t ∈ d.service.triggers.triggers) : Spaced (d.afterTurn e t) := by
  have hkeep : ∀ name, submissions name (d.afterTurn e t).entries =
      if nameOf t = name ∧ (turnOf e t d.service).result = .ok .submitted then
        submissions name d.entries ++ [turnOf e t d.service]
      else submissions name d.entries :=
    fun name => submissions_append_singleton
  cases turned_consider hexact ht e with
  | passed answer table =>
    refine h.of_listed (fun t' ht' => ?_) fun name => (hkeep name).trans ?_
    · exact (congrArg TriggerTable.triggers table ▸ ht' :)
    · exact if_neg fun hyes => answer hyes.2
  | submitted answer due table =>
    have hown : submissions (nameOf t) (d.afterTurn e t).entries =
        submissions (nameOf t) d.entries ++ [turnOf e t d.service] :=
      (hkeep (nameOf t)).trans (if_pos ⟨rfl, answer⟩)
    have hname : nameOf { t with lastNotifiedAt := some d.service.nowSecs } = nameOf t := rfl
    refine h.of_one { t with lastNotifiedAt := some d.service.nowSecs } ?_ ?_ ?_ ?_ ?_
    · intro t' ht'
      have hmarked : t' ∈
          (d.service.triggers.tryMarkNotified t.userId t.triggerId d.service.nowSecs).2.triggers :=
        table ▸ ht'
      exact (mem_mark_iff hexact ht due).mp hmarked
    · exact fun name hne => (hkeep name).trans (if_neg fun hyes => hne hyes.1)
    · rw [hname, hown, List.getLast?_concat]
      rfl
    · rw [hname, hown, List.pairwise_append]
      refine ⟨h.spaced _, List.pairwise_singleton _ _, fun a ha b hb => ?_⟩
      rw [List.mem_singleton.mp hb]
      exact h.farApart ht due e a ha
    · rw [hname, hown, List.forall_mem_append]
      exact ⟨h.constant t ht, by simp [turnOf]⟩

/-- **A move keeps the gap.** -/
theorem Spaced.move (hexact : Exact d.service.triggers) (h : Spaced d) (hmove : Move d d') :
    Spaced d' := by
  cases hmove with
  | still s triggers interests =>
    exact h.of_listed (fun t ht => triggers ▸ ht) fun _ => rfl
  | registered s n triggerId second new table => exact h.registered new table
  | removed s userId triggerId table =>
    refine h.of_listed (fun t ht => ?_) fun _ => rfl
    rw [table] at ht
    exact (mem_triggers_delete.mp ht).1
  | considered e t live => exact h.turned hexact e live

/-- **A trigger is put off** exactly if one of its submissions lies less than the gap back. -/
theorem Spaced.throttled_iff (h : Spaced d) (hexact : Exact d.service.triggers) {e : TriggerEvent}
    (ht : t ∈ d.service.triggers.triggers)
    (hnew : ¬ d.service.ledger.HasFired (keyOf e t.userId t)) :
    ((Firing.consider e t.userId t).exec d.service).1 = .ok .throttled ↔
      ∃ a ∈ submissions (nameOf t) d.entries,
        d.service.nowSecs < a.second + t.gapHours * 3600 := by
  -- a trigger may notify only if the gap behind every submission is over
  have hpassed : t.mayNotify d.service.nowSecs = true →
      ¬ ∃ a ∈ submissions (nameOf t) d.entries,
        d.service.nowSecs < a.second + t.gapHours * 3600 := by
    rintro hdue ⟨a, ha, hearly⟩
    have hapart : a.second + a.trigger.gapHours * 3600 ≤ d.service.nowSecs := h.farApart ht hdue e a ha
    rw [h.constant t ht a ha] at hapart
    omega
  cases way_consider e t.userId t d.service with
  | old known answer state => exact absurd known hnew
  | throttled new early answer state =>
    refine iff_of_true answer ?_
    rw [fst_mark hexact ht, Trigger.mayNotify, Trigger.nextAllowedAt, h.stamped t ht] at early
    cases hlast : (submissions (nameOf t) d.entries).getLast? with
    | none => simp [hlast] at early
    | some latest =>
      rw [hlast] at early
      exact ⟨latest, List.mem_of_getLast? hlast, by simpa using early⟩
  | submitted new due fired answer =>
    rw [fst_mark hexact ht] at due
    rw [answer]
    exact iff_of_false (by simp) (hpassed due)
  | failed new due cause after fired answer state =>
    rw [fst_mark hexact ht] at due
    rw [answer]
    refine iff_of_false ?_ (hpassed due)
    split <;> simp

/-- Nothing is kept by a service without triggers. -/
theorem spaced_begun (start : Service) : Spaced (begun start) where
  stamped := by simp [begun]
  spaced := fun _ => .nil
  constant := by simp [begun]

/-- **The gap is always kept.** After any registrations, removals, changes of templates and events,
whatever submissions failed and however the clock was set: a trigger bears the second of its latest
submission, or none if there was none; any two submissions of a trigger lie its gap apart, for whatever
events they were; and a turn that leads to no submission leaves all triggers, and so their stamps, as they
were. -/
theorem ofCalls_gapKept (start : Service) (calls : List Call) : GapKept (ofCalls start calls) := by
  obtain ⟨hexact, hkept⟩ := ofCalls_induction start (spaced_begun start)
    (fun _ _ hexact h hmove => h.move hexact hmove) calls
  refine ⟨hkept, fun e t ht hanswer => ?_, fun e t ht => hkept.throttled_iff hexact ht,
    exec_process hexact⟩
  cases turned_consider hexact ht e with
  | submitted answer due table => exact absurd answer hanswer
  | passed answer table => exact table

/-- A service with a template and a platform, at a reading of the clock. -/
def sampleWorld (now : Int) : Service := { Service.started {} [] with
  now := now
  platforms := ⟨[.mock { id := "blog" }]⟩
  triggers := { templates := [⟨"ada", "live", "Live", "Now", 0⟩] } }

/-- A stream that begins. -/
def sampleStream (messageId : String) : TriggerEvent where
  source := "twitch"
  messageId := messageId
  accountType := "Twitch"
  accountId := "7"
  kind := "stream.online"
  occurredAt := ⟨0, 0⟩

-- three events within an hour, of which the second comes a millisecond too early
example : (submissions ("ada", "t1") (ofCalls (sampleWorld 0)
    [.registerAs ⟨"ada", "TWITCH", "7", "live", "blog", 1⟩ "t1",
      .world (sampleWorld 0), .process (sampleStream "m1"),
      .world (sampleWorld 3599999), .process (sampleStream "m2"),
      .world (sampleWorld 3600000), .process (sampleStream "m3")]).entries).map (·.second) =
    [0, 3600] := by decide +kernel

end Syndication.Firing.Diary
