import Syndication.Proofs.Trigger.Attempts
import Syndication.Proofs.Trigger.Interests

/-!
# Proofs.Trigger.Turns — each trigger on an account has its turn

A trigger whose post is not submitted leaves its turn as it came, with the stamp that it had; one whose
post is submitted bears the second. No other trigger is touched, so the triggers of an event stand at
their turns as they stood when the event came. Processing an event therefore comes to considering the
triggers on its account one after the other, each once, and its report counts them.

## Contents
* `fst_mark`, `restore_mark`, `mem_mark_iff`              — stamps made and taken back
* `Way`, `way_consider`, `Turned`, `turned_consider`     — one trigger
* `consider_eq_hopeless_iff`
* `Turn`, `turnsOf`, `afterTurns`, `Live`                 — triggers one after the other
* `told`, `adding`, `length_eq_told`                      — reports
* `exec_process`, `exec_handle`                          — one event, and one message
-/

namespace Syndication

/-! ## Stamps -/

namespace TriggerTable

variable {s : TriggerTable} {t t' : Trigger} {now : Int}

/-- A trigger that may not notify is not stamped. -/
theorem mark_eq_of_false {userId triggerId : String}
    (h : (s.tryMarkNotified userId triggerId now).1 = false) :
    (s.tryMarkNotified userId triggerId now).2 = s := by
  have hsame : s.triggers.map (fun t => if isTrigger userId triggerId t && t.mayNotify now then
      { t with lastNotifiedAt := some now } else t) = s.triggers := by
    refine (List.map_congr_left fun t ht => ?_).trans (List.map_id _)
    exact if_neg (List.any_eq_false.mp h t ht)
  exact congrArg (fun triggers => { s with triggers := triggers }) hsame

/-- The trigger of a name is stamped if its gap has passed. -/
theorem fst_mark (h : Exact s) (ht : t ∈ s.triggers) (now : Int) :
    (s.tryMarkNotified t.userId t.triggerId now).1 = t.mayNotify now := by
  rw [Bool.eq_iff_iff, tryMarkNotified, List.any_eq_true]
  constructor
  · rintro ⟨t', ht', hdue⟩
    rw [Bool.and_eq_true, isTrigger_iff] at hdue
    exact h.eq_of_name ht' ht hdue.1 ▸ hdue.2
  · intro hdue
    exact ⟨t, ht, by simp [isTrigger, hdue]⟩

/-- **A stamp that is taken back** leaves no trace. -/
theorem restore_mark (h : Exact s) (ht : t ∈ s.triggers) :
    (s.tryMarkNotified t.userId t.triggerId now).2.restoreNotified t.userId t.triggerId now
      t.lastNotifiedAt = s := by
  have hsame : ((s.tryMarkNotified t.userId t.triggerId now).2.restoreNotified t.userId t.triggerId now
      t.lastNotifiedAt).triggers = s.triggers := by
    simp only [restoreNotified, tryMarkNotified, List.map_map]
    refine (List.map_congr_left fun t' ht' => ?_).trans (List.map_id _)
    simp only [Function.comp_apply, id_eq]
    by_cases hname : isTrigger t.userId t.triggerId t' = true
    · obtain rfl : t' = t := h.eq_of_name ht' ht (isTrigger_iff.mp hname)
      cases hdue : t'.mayNotify now <;> simp [isTrigger]
    · simp [hname]
  exact congrArg (fun triggers => { s with triggers := triggers }) hsame

/-- One trigger bears the stamp, and the others are those there were. -/
theorem mem_mark_iff (h : Exact s) (ht : t ∈ s.triggers) (hdue : t.mayNotify now = true) :
    t' ∈ (s.tryMarkNotified t.userId t.triggerId now).2.triggers ↔
      t' = { t with lastNotifiedAt := some now } ∨ t' ∈ s.triggers ∧ nameOf t' ≠ nameOf t := by
  simp only [tryMarkNotified, List.mem_map]
  constructor
  · rintro ⟨t₀, ht₀, rfl⟩
    by_cases hname : isTrigger t.userId t.triggerId t₀ = true
    · obtain rfl : t₀ = t := h.eq_of_name ht₀ ht (isTrigger_iff.mp hname)
      exact .inl (if_pos (by rw [hname, hdue, Bool.and_self]))
    · rw [if_neg (by simp [hname])]
      exact .inr ⟨ht₀, mt isTrigger_iff.mpr hname⟩
  · rintro (rfl | ⟨ht', hname⟩)
    · exact ⟨t, ht, if_pos (by simp [isTrigger, hdue])⟩
    · exact ⟨t', ht', if_neg (by simp [mt isTrigger_iff.mp hname])⟩

/-- The triggers of other users are not stamped. -/
theorem ofAccount_mark {userId triggerId other accountType accountId : String} (hne : other ≠ userId) :
    (s.tryMarkNotified userId triggerId now).2.ofAccount other accountType accountId =
      s.ofAccount other accountType accountId := by
  have hother : ∀ t, isOn other accountType accountId t = true → isTrigger userId triggerId t = false := by
    intro t hon
    have huser : t.userId = other := congrArg Interest.userId (isOn_iff.mp hon)
    simp [isTrigger, huser, hne]
  have hsame : ((s.tryMarkNotified userId triggerId now).2.triggers.filter
      (isOn other accountType accountId)) = s.triggers.filter (isOn other accountType accountId) := by
    rw [tryMarkNotified, List.filter_map]
    have hon : (isOn other accountType accountId ∘ fun t =>
        if isTrigger userId triggerId t && t.mayNotify now then { t with lastNotifiedAt := some now }
        else t) = isOn other accountType accountId := by
      funext t
      simp only [Function.comp_apply]
      split <;> rfl
    rw [hon]
    refine (List.map_congr_left fun t ht => ?_).trans (List.map_id _)
    exact if_neg (by simp [hother t (List.mem_filter.mp ht).2])
  rw [ofAccount, hsame, ofAccount]

end TriggerTable

namespace Firing

open Effect TriggerTable

variable {e : TriggerEvent} {userId : String} {t : Trigger} {s : Service} {rows rest : List Trigger}

/-! ## One trigger -/

/-- The ways that considering a trigger takes, with what it answers and leaves. -/
inductive Way (e : TriggerEvent) (userId : String) (t : Trigger) (s : Service)
    (r : Except Error FiringResult) (s' : Service) : Prop
  /-- The trigger has fired for the message. -/
  | old (known : s.ledger.HasFired (keyOf e userId t)) (answer : r = .ok .alreadyFired) (state : s' = s)
  /-- Its gap has not passed. -/
  | throttled (new : ¬ s.ledger.HasFired (keyOf e userId t))
      (early : (s.triggers.tryMarkNotified userId t.triggerId s.nowSecs).1 = false)
      (answer : r = .ok .throttled) (state : s' = forgotten e userId t (readied e userId t s))
  /-- Its post is submitted. -/
  | submitted (new : ¬ s.ledger.HasFired (keyOf e userId t))
      (due : (s.triggers.tryMarkNotified userId t.triggerId s.nowSecs).1 = true)
      (fired : (fire t e).exec (readied e userId t s) = (.ok (), s')) (answer : r = .ok .submitted)
  /-- Its post is tried and not submitted. -/
  | failed (new : ¬ s.ledger.HasFired (keyOf e userId t))
      (due : (s.triggers.tryMarkNotified userId t.triggerId s.nowSecs).1 = true) (cause : Error)
      (after : Service) (fired : (fire t e).exec (readied e userId t s) = (.error cause, after))
      (answer : r = .ok (if isHopeless cause then .hopeless else .failed))
      (state : s' = forgotten e userId t (restored userId t s.nowSecs after))

theorem way_consider (e : TriggerEvent) (userId : String) (t : Trigger) (s : Service) :
    Way e userId t s ((consider e userId t).exec s).1 ((consider e userId t).exec s).2 := by
  by_cases hold : s.ledger.HasFired (keyOf e userId t)
  case pos =>
    rw [exec_consider_old hold]
    exact .old hold rfl rfl
  rw [exec_consider_new hold]
  split
  · rename_i hearly
    exact .throttled hold hearly rfl rfl
  · rename_i hdue
    rw [Bool.not_eq_false] at hdue
    rcases hfire : (fire t e).exec (readied e userId t s) with ⟨cause | u, after⟩
    · exact .failed hold hdue cause after hfire rfl rfl
    · exact .submitted hold hdue hfire rfl

/-- What the turn of a trigger comes to: the post was submitted and the trigger stamped, or it was not and
the triggers are as they were. -/
inductive Turned (t : Trigger) (s : Service) (r : Except Error FiringResult) (s' : Service) : Prop
  | submitted (answer : r = .ok .submitted) (due : t.mayNotify s.nowSecs = true)
      (table : s'.triggers = (s.triggers.tryMarkNotified t.userId t.triggerId s.nowSecs).2)
  | passed (answer : r ≠ .ok .submitted) (table : s'.triggers = s.triggers)

/-- **The turn of a trigger** stamps it if its post is submitted, and else changes no trigger. -/
theorem turned_consider (h : Exact s.triggers) (ht : t ∈ s.triggers.triggers) (e : TriggerEvent) :
    Turned t s ((consider e t.userId t).exec s).1 (afterConsidering e t.userId t s) := by
  have hkept := (fire_spec t e (readied e t.userId t s)).1.triggers
  cases way_consider e t.userId t s with
  | old known answer state => exact .passed (by simp [answer]) (congrArg Service.triggers state)
  | throttled new early answer state =>
    exact .passed (by simp [answer]) ((congrArg Service.triggers state).trans (mark_eq_of_false early))
  | submitted new due fired answer =>
    rw [fired] at hkept
    exact .submitted answer ((fst_mark h ht _).symm.trans due) hkept
  | failed new due cause after fired answer state =>
    rw [fired] at hkept
    refine .passed ?_ ((congrArg Service.triggers state).trans ?_)
    · rw [answer]
      exact mt Except.ok.inj (resultOf_ne cause)
    · -- the submission has left the stamp, which is now taken back
      exact (congrArg (·.restoreNotified t.userId t.triggerId s.nowSecs t.lastNotifiedAt) hkept).trans
        (restore_mark h ht)

theorem exact_consider (h : Exact s.triggers) (ht : t ∈ s.triggers.triggers) (e : TriggerEvent) :
    Exact (afterConsidering e t.userId t s).triggers := by
  cases turned_consider h ht e with
  | submitted answer due table => exact table ▸ h.mark t.userId t.triggerId s.nowSecs
  | passed answer table => exact table ▸ h

/-- **A post is given up** exactly if it is tried and fails with one of the two errors that a retry will not
mend. -/
theorem consider_eq_hopeless_iff : ((consider e userId t).exec s).1 = .ok .hopeless ↔
    ¬ s.ledger.HasFired (keyOf e userId t) ∧
      (s.triggers.tryMarkNotified userId t.triggerId s.nowSecs).1 = true ∧
        ∃ message, ((fire t e).exec (readied e userId t s)).1 = .error (.invalidInput message) ∨
          ((fire t e).exec (readied e userId t s)).1 = .error (.notFound message) := by
  cases way_consider e userId t s with
  | old known answer state =>
    rw [answer]
    exact iff_of_false (by simp) fun h => h.1 known
  | throttled new early answer state =>
    rw [answer]
    exact iff_of_false (by simp) fun h => by simp [early] at h
  | submitted new due fired answer =>
    rw [answer, fired]
    exact iff_of_false (by simp) (by simp)
  | failed new due cause after fired answer state =>
    rw [answer, fired]
    simp only [new, due, not_false_eq_true, true_and, Except.ok.injEq, Except.error.injEq]
    cases cause <;> simp [isHopeless]

/-! ## Triggers one after the other -/

/-- The turn of a trigger for an event. -/
structure Turn where
  event : TriggerEvent
  /-- The trigger as it was read. -/
  trigger : Trigger
  /-- The second that the clock showed. -/
  second : Int
  result : Except Error FiringResult

/-- What is written down for the turn of a trigger. -/
def turnOf (e : TriggerEvent) (t : Trigger) (s : Service) : Turn :=
  ⟨e, t, s.nowSecs, ((consider e t.userId t).exec s).1⟩

/-- What is written down for the turns of triggers. -/
def turnsOf (e : TriggerEvent) : List Trigger → Service → List Turn
  | [], _ => []
  | t :: rest, s => turnOf e t s :: turnsOf e rest (afterConsidering e t.userId t s)

/-- After the turns of triggers. -/
def afterTurns (e : TriggerEvent) (rows : List Trigger) (s : Service) : Service :=
  rows.foldl (fun s t => afterConsidering e t.userId t s) s

theorem turnsOf_append (e : TriggerEvent) (rows rest : List Trigger) (s : Service) :
    turnsOf e (rows ++ rest) s = turnsOf e rows s ++ turnsOf e rest (afterTurns e rows s) := by
  induction rows generalizing s with
  | nil => rfl
  | cons t rows ih => exact congrArg (turnOf e t s :: ·) (ih _)

theorem afterTurns_append (e : TriggerEvent) (rows rest : List Trigger) (s : Service) :
    afterTurns e (rows ++ rest) s = afterTurns e rest (afterTurns e rows s) :=
  List.foldl_append

theorem exec_consider (e : TriggerEvent) (t : Trigger) (s : Service) : ∃ result,
    (turnOf e t s).result = .ok result ∧
      (consider e t.userId t).exec s = (.ok result, afterConsidering e t.userId t s) := by
  obtain ⟨result, hresult⟩ := (attempted_consider e t.userId t s).answered
  exact ⟨result, hresult, Prod.ext hresult rfl⟩

/-- Triggers that stand in a table as they were read, no two of one name. -/
structure Live (rows : List Trigger) (table : TriggerTable) : Prop where
  exact : Exact table
  named : (rows.map nameOf).Nodup
  listed : ∀ t ∈ rows, t ∈ table.triggers

/-- **The turn of one trigger** leaves the others as they were read. -/
theorem Live.next (h : Live (t :: rest) s.triggers) (e : TriggerEvent) :
    Live rest (afterConsidering e t.userId t s).triggers := by
  have ht : t ∈ s.triggers.triggers := h.listed t List.mem_cons_self
  obtain ⟨hfirst, hrest⟩ := List.nodup_cons.mp h.named
  refine ⟨exact_consider h.exact ht e, hrest, fun t' ht' => ?_⟩
  have hlisted : t' ∈ s.triggers.triggers := h.listed t' (List.mem_cons_of_mem _ ht')
  have hname : nameOf t' ≠ nameOf t := fun heq => hfirst (heq ▸ List.mem_map_of_mem ht')
  cases turned_consider h.exact ht e with
  | submitted answer due table => exact table ▸ (mem_mark_iff h.exact ht due).mpr (.inr ⟨hlisted, hname⟩)
  | passed answer table => exact table ▸ hlisted

theorem Live.left (h : Live (rows ++ rest) s.triggers) : Live rows s.triggers where
  exact := h.exact
  named := (List.map_append ▸ h.named).of_append_left
  listed := fun t ht => h.listed t (List.mem_append_left _ ht)

theorem Live.afterTurns (h : Live (rows ++ rest) s.triggers) (e : TriggerEvent) :
    Live rest (Firing.afterTurns e rows s).triggers := by
  induction rows generalizing s with
  | nil => exact h
  | cons t rows ih => exact ih (h.next e)

/-- The turns of a user's triggers leave those of the other users. -/
theorem ofAccount_afterTurns (h : Live rows s.triggers) (hrows : ∀ t ∈ rows, t.userId = userId)
    {other : String} (hne : other ≠ userId) (accountType accountId : String) :
    (afterTurns e rows s).triggers.ofAccount other accountType accountId =
      s.triggers.ofAccount other accountType accountId := by
  induction rows generalizing s with
  | nil => rfl
  | cons t rows ih =>
    rw [List.forall_mem_cons] at hrows
    refine (ih (h.next e) hrows.2).trans ?_
    cases turned_consider h.exact (h.listed t List.mem_cons_self) e with
    | submitted answer due table => exact table ▸ ofAccount_mark (hrows.1 ▸ hne)
    | passed answer table => rw [table]

/-! ## Reports -/

/-- How many turns came to this. -/
def told (result : FiringResult) (turns : List Turn) : Nat := turns.countP (·.result = .ok result)

/-- A report after these turns. A trigger that was given up is not counted. -/
def adding (r : FiringReport) (turns : List Turn) : FiringReport where
  submitted := r.submitted + told .submitted turns
  throttled := r.throttled + told .throttled turns
  alreadyFired := r.alreadyFired + told .alreadyFired turns
  failed := r.failed + told .failed turns

theorem adding_cons {a : Turn} {result : FiringResult} (h : a.result = .ok result) (r : FiringReport)
    (turns : List Turn) : adding r (a :: turns) = adding (r.add result) turns := by
  cases result <;> simp [adding, told, h, FiringReport.add] <;> omega

theorem adding_append (r : FiringReport) (turns turns' : List Turn) :
    adding r (turns ++ turns') = adding (adding r turns) turns' := by
  simp [adding, told, Nat.add_assoc]

/-- **Every turn is counted**, by the report or as given up. -/
theorem length_eq_told (e : TriggerEvent) (rows : List Trigger) (s : Service) :
    rows.length = told .submitted (turnsOf e rows s) + told .throttled (turnsOf e rows s) +
      told .alreadyFired (turnsOf e rows s) + told .failed (turnsOf e rows s) +
        told .hopeless (turnsOf e rows s) := by
  induction rows generalizing s with
  | nil => rfl
  | cons t rest ih =>
    obtain ⟨result, hresult, -⟩ := exec_consider e t s
    have hrest := ih (afterConsidering e t.userId t s)
    simp only [turnsOf, told, List.countP_cons, List.length_cons, hresult] at hrest ⊢
    cases result <;> simp <;> omega

/-! ## One event -/

theorem exec_considerAll (hrows : ∀ t ∈ rows, t.userId = userId) (e : TriggerEvent) (r : FiringReport)
    (s : Service) : (considerAll e userId r rows).exec s =
      (.ok (adding r (turnsOf e rows s)), afterTurns e rows s) := by
  induction rows generalizing r s with
  | nil => rfl
  | cons t rest ih =>
    rw [List.forall_mem_cons] at hrows
    obtain ⟨rfl, hrest⟩ := hrows
    obtain ⟨result, hresult, hexec⟩ := exec_consider e t s
    rw [considerAll, exec_bind_ok hexec, ih hrest, turnsOf, adding_cons hresult]
    rfl

/-- The triggers of users on an account, as they stand now. -/
def rowsOf (table : TriggerTable) (accountType accountId : String) (users : List String) : List Trigger :=
  users.flatMap fun userId => table.ofAccount userId accountType accountId

theorem exec_considerUsers {accountType : String} {users : List String} (hnodup : users.Nodup)
    (h : Live (rowsOf s.triggers accountType e.accountId users) s.triggers) (r : FiringReport) :
    (considerUsers e accountType r users).exec s =
      (.ok (adding r (turnsOf e (rowsOf s.triggers accountType e.accountId users) s)),
        afterTurns e (rowsOf s.triggers accountType e.accountId users) s) := by
  induction users generalizing s r with
  | nil => rfl
  | cons userId users ih =>
    obtain ⟨hfirst, hrest⟩ := List.nodup_cons.mp hnodup
    have hsplit : rowsOf s.triggers accountType e.accountId (userId :: users) =
        s.triggers.ofAccount userId accountType e.accountId ++
          rowsOf s.triggers accountType e.accountId users := List.flatMap_cons
    rw [hsplit] at h ⊢
    have hown : ∀ t ∈ s.triggers.ofAccount userId accountType e.accountId, t.userId = userId := by
      intro t ht
      exact congrArg Interest.userId (mem_ofAccount_iff.mp ht).2
    -- the triggers of the users to come are found as they stood before the first user's turns
    have hothers : rowsOf (afterTurns e (s.triggers.ofAccount userId accountType e.accountId) s).triggers
        accountType e.accountId users = rowsOf s.triggers accountType e.accountId users := by
      refine List.flatMap_congr fun other hother => ?_
      exact ofAccount_afterTurns h.left hown (fun heq => hfirst (heq ▸ hother)) _ _
    have hthen := ih hrest (hothers.symm ▸ h.afterTurns e)
      (adding r (turnsOf e (s.triggers.ofAccount userId accountType e.accountId) s))
    rw [hothers] at hthen
    rw [considerUsers, exec_bind_ok (exec_get s), exec_bind_ok (exec_considerAll hown e r s), hthen,
      turnsOf_append, adding_append, afterTurns_append]

/-- The triggers that an event is for. -/
def rowsFor (e : TriggerEvent) (s : Service) : List Trigger :=
  s.triggers.awaiting (Text.lower e.accountType) e.accountId

theorem live_rowsFor (h : Exact s.triggers) (e : TriggerEvent) : Live (rowsFor e s) s.triggers where
  exact := h
  named := ((awaiting_perm h).map nameOf).nodup_iff.mpr (h.named.sublist (List.filter_sublist.map _))
  listed := fun _ ht => ((mem_awaiting_iff h).mp ht).1

/-- **Processing an event** comes to the turns of the triggers that it is for, and its report counts
them. -/
theorem exec_process (h : Exact s.triggers) (e : TriggerEvent) : (process e).exec s =
    (.ok (adding {} (turnsOf e (rowsFor e s) s)), afterTurns e (rowsFor e s) s) := by
  rw [process, exec_bind_ok (exec_get s)]
  exact exec_considerUsers (nodup_interestedUsers h) (live_rowsFor h e) {}

/-- **Handling a message** comes to processing its event, after which the message is put off or done
with. -/
theorem exec_handle (m : Held) (s : Service) : ∃ messages, ((handle m).exec s).2 =
    { (match TriggerEvent.ofPayload? m.payload with
        | none => s
        | some e => ((process e).exec s).2) with messages := messages } := by
  rw [handle]
  cases TriggerEvent.ofPayload? m.payload with
  | none => exact ⟨_, rfl⟩
  | some e =>
    obtain ⟨r, s', hexec, -⟩ := course_process e s
    simp only [exec_bind_ok hexec, hexec, exec_bind_ok (exec_get s')]
    split
    · exact ⟨_, congrArg Prod.snd (exec_bind_ok (Service.exec_defer s' m _ true))⟩
    · exact ⟨_, congrArg Prod.snd (exec_bind_ok (Service.exec_acknowledge s' m))⟩

end Firing
end Syndication
