import Mathlib.Data.List.Induction
import Syndication.Proofs.Session.Registry

/-!
# Proofs.Session.Crossing — openings and closings that cross

An opening finds its slot, waits until nobody loads the slot, loads it and is answered by the store at
some later time. A closing looks up a slot, flushes the handle in it and comes back to take the key
out of the registry. Between these steps anything may happen: other openings and closings go on, the
store answers as it likes, and buffers change.

However they cross, a slot is filled once, and only the opening that loads it fills it. A slot stays
registered until it is filled, since a closing looks for filled slots only, and a closing takes out
nothing but the slot that it looked up.

## Contents
* `Opening`, `Closing`, `Crossing`     — calls on their way
* `Move`, `step`, `ofMoves`            — their steps, in any order
* `openedAlone_eq`, `closedAlone_eq`   — calls that nothing crosses
* `Whole`                              — registries whose empty slots are registered
* `Turn`, `turn_step`                  — what a move does
* `Coherent`, `coherent_step`, `coherent_ofMoves`
* `left_of_gone`, `Began`              — who takes out a slot
* `waiting_loads`, `next_loads`        — after a load that failed
* `Single`, `ofMoves_single`           — what holds however calls cross
-/

namespace Syndication.Session

open ObjectStore

/-! ## Calls on their way -/

/-- How far an opening has come. -/
inductive OpeningStage where
  /-- The slot has been found. -/
  | found
  /-- The store has been asked. -/
  | loading
  /-- The opening has answered a handle. -/
  | opened (handle : Nat)
  /-- The store could not be read. -/
  | failed (cause : Error)
  /-- The caller has given up. -/
  | abandoned
  deriving DecidableEq

/-- A call that opens a key. -/
structure Opening where
  key : String
  slot : Nat
  stage : OpeningStage
  deriving DecidableEq

/-- How far a closing has come. -/
inductive ClosingStage where
  /-- A slot has been looked up, and a handle was in it. -/
  | found
  /-- The handle has been flushed. -/
  | flushed
  /-- The key has been taken out, or it led to another slot by then. -/
  | ended
  /-- The flush has failed. -/
  | failed (cause : Error)
  deriving DecidableEq

/-- A call that closes a key. It has looked up a slot and the handle in it. -/
structure Closing where
  key : String
  slot : Nat
  handle : Nat
  stage : ClosingStage
  deriving DecidableEq

/-- A registry and the calls on their way, in the order in which they have found their slots. `loads`
are the slots that were loaded, each with its handle. -/
structure Crossing where
  registry : SessionRegistry := {}
  openings : List Opening := []
  closings : List Closing := []
  loads : List (Nat × Nat) := []

/-- A step of a call, or something that happens meanwhile. Calls go by their numbers. -/
inductive Move where
  /-- An opening begins and finds its slot. -/
  | find (key : String)
  /-- An opening takes the handle in its slot, or loads the slot if nobody does. -/
  | enter (opening : Nat)
  /-- The store answers an opening that loads. -/
  | answer (opening : Nat) (data : Except Error (Option Bytes))
  /-- An opening that has not ended is given up. -/
  | abandon (opening : Nat)
  /-- A closing begins and looks up a slot. -/
  | look (key : String)
  /-- A closing flushes its handle, or fails to. -/
  | flush (closing : Nat) (answer : Except Error Unit)
  /-- A closing takes its key out. -/
  | leave (closing : Nat)
  /-- A holder of a handle changes the buffer. -/
  | write (handle : Nat) (data : Bytes)

namespace Crossing

/-- Somebody loads the slot. -/
def isLoading (c : Crossing) (slot : Nat) : Bool :=
  c.openings.any fun o => o.slot = slot ∧ o.stage = .loading

/-- An opening comes to a stage. -/
def openingAt (c : Crossing) (i : Nat) (stage : OpeningStage) : Crossing :=
  { c with openings := c.openings.modify i fun o => { o with stage := stage } }

/-- A closing comes to a stage. -/
def closingAt (c : Crossing) (j : Nat) (stage : ClosingStage) : Crossing :=
  { c with closings := c.closings.modify j fun d => { d with stage := stage } }

/-- An opening has found its slot. -/
def enter (c : Crossing) (i : Nat) (o : Opening) : Crossing :=
  match handleIn? o.slot c.registry with
  | some handle => c.openingAt i (.opened handle)
  | none => if c.isLoading o.slot then c else c.openingAt i .loading

/-- The store has answered an opening. -/
def answered (c : Crossing) (i : Nat) (o : Opening) : Except Error (Option Bytes) → Crossing
  | .ok data =>
    let (handle, r) := fill o.slot o.key (data.getD []) c.registry
    { c.openingAt i (.opened handle) with registry := r, loads := c.loads ++ [(o.slot, handle)] }
  | .error cause => c.openingAt i (.failed cause)

/-- A move changes the crossing if it is the turn of its call, and leaves it otherwise. -/
def step (c : Crossing) : Move → Crossing
  | .find key =>
    if Store.isValidKey (storageKey key) then
      let (slot, r) := locate key c.registry
      { c with registry := r, openings := c.openings ++ [⟨key, slot, .found⟩] }
    else c
  | .enter i =>
    match c.openings[i]? with
    | some o => if o.stage = .found then c.enter i o else c
    | none => c
  | .answer i data =>
    match c.openings[i]? with
    | some o => if o.stage = .loading then c.answered i o data else c
    | none => c
  | .abandon i =>
    match c.openings[i]? with
    | some o => if o.stage = .found ∨ o.stage = .loading then c.openingAt i .abandoned else c
    | none => c
  | .look key =>
    match lookup key c.registry with
    | some (slot, handle) =>
      { c with closings := c.closings ++ [⟨key, slot, handle, .found⟩] }
    | none => c
  | .flush j answer =>
    match c.closings[j]? with
    | some d =>
      if d.stage = .found then
        c.closingAt j (match answer with | .ok () => .flushed | .error cause => .failed cause)
      else c
    | none => c
  | .leave j =>
    match c.closings[j]? with
    | some d =>
      if d.stage = .flushed then
        { c.closingAt j .ended with registry := evict d.key d.slot c.registry }
      else c
    | none => c
  | .write handle data => { c with registry := setContents handle data c.registry }

/-- Moves one after the other. -/
def after (c : Crossing) (moves : List Move) : Crossing := moves.foldl step c

/-- What moves come to in a registry that nobody has used. -/
def ofMoves (moves : List Move) : Crossing := after {} moves

theorem after_concat (c : Crossing) (moves : List Move) (move : Move) :
    c.after (moves ++ [move]) = (c.after moves).step move := by
  rw [after, List.foldl_append]
  rfl

end Crossing

/-! ## Calls that nothing crosses -/

variable {r : SessionRegistry} {key k : String} {slot handle : Nat} {w : SessionWorld}

/-- The answer of an opening that has ended. -/
def OpeningStage.result? : OpeningStage → Option (Except Error Nat)
  | .opened handle => some (.ok handle)
  | .failed cause => some (.error cause)
  | _ => none

/-- An opening that nothing crosses: the store answers what it holds. -/
def openedAlone (key : String) (w : SessionWorld) : Crossing :=
  Crossing.after { registry := w.registry }
    [.find key, .enter 0, .answer 0 ((ObjectStore.get (storageKey key)).exec w.store).1]

/-- **An opening that nothing crosses** does what opening the key does. -/
theorem openedAlone_eq (haccepted : IsAccepted key) :
    (openedAlone key w).registry = ((openKey key).exec w).2.registry ∧
      ∃ stage, (openedAlone key w).openings = [⟨key, (locate key w.registry).1, stage⟩] ∧
        stage.result? = some ((openKey key).exec w).1 := by
  have hvalid : Store.isValidKey (storageKey key) = true := haccepted
  have hlocate : (onRegistry (locate key)).exec w =
      (.ok (locate key w.registry).1, ⟨(locate key w.registry).2, w.store⟩) := rfl
  have hopen : (openKey key).exec w =
      (load (locate key w.registry).1 key).exec ⟨(locate key w.registry).2, w.store⟩ := by
    unfold openKey Store.validateKey
    rw [if_pos hvalid]
    exact Effect.exec_bind_ok hlocate
  unfold openedAlone Crossing.after
  simp only [List.foldl_cons, List.foldl_nil, Crossing.step, if_pos hvalid, List.nil_append,
    List.getElem?_cons_zero, if_true, Crossing.enter]
  rw [hopen]
  cases hin : handleIn? (locate key w.registry).1 (locate key w.registry).2 with
  | some handle =>
    rw [exec_load_of_some hin]
    exact ⟨rfl, .opened handle, rfl, rfl⟩
  | none =>
    have hidle : (Crossing.mk (locate key w.registry).2 [⟨key, (locate key w.registry).1, .found⟩]
        [] []).isLoading (locate key w.registry).1 = false := by
      simp [Crossing.isLoading]
    simp only [hidle, Bool.false_eq_true, if_false]
    rw [exec_load_of_none hin]
    cases ((ObjectStore.get (storageKey key)).exec w.store).1 with
    | ok data => exact ⟨rfl, .opened (locate key w.registry).2.handles.length, rfl, rfl⟩
    | error cause => exact ⟨rfl, .failed cause, rfl, rfl⟩

/-- A closing that nothing crosses: the handle is flushed into the store as it is. -/
def closedAlone (key : String) (w : SessionWorld) : Crossing :=
  Crossing.after { registry := w.registry } (.look key :: match lookup key w.registry with
    | some (_, handle) => [.flush 0 ((flushHandle handle).exec w).1, .leave 0]
    | none => [])

/-- A flush does not change the registry. -/
theorem registry_flushHandle (handle : Nat) (w : SessionWorld) :
    ((flushHandle handle).exec w).2.registry = w.registry := by
  rw [flushHandle, Effect.exec_bind_ok (Effect.exec_get w)]
  cases handle? w.registry handle with
  | none => rfl
  | some h =>
    simp only
    split
    · rfl
    · rw [onStore, Effect.exec_on]

/-- **A closing that nothing crosses** does what closing the key does. -/
theorem closedAlone_eq : (closedAlone key w).registry = ((closeKey key).exec w).2.registry := by
  unfold closedAlone Crossing.after closeKey
  rw [Effect.exec_bind_ok (Effect.exec_get w)]
  cases hlookup : lookup key w.registry with
  | none =>
    simp only [List.foldl_cons, List.foldl_nil, Crossing.step, hlookup]
    rfl
  | some found =>
    obtain ⟨slot, handle⟩ := found
    have hkept := registry_flushHandle handle w
    simp only [List.foldl_cons, List.foldl_nil, Crossing.step, hlookup, List.nil_append,
      List.getElem?_cons_zero, if_true]
    rw [Effect.exec_bind]
    rcases hexec : (flushHandle handle).exec w with ⟨_ | ⟨⟩, w'⟩
    · rw [hexec] at hkept
      exact hkept.symm
    · rw [hexec] at hkept
      exact congrArg (evict key slot) hkept.symm

/-! ## Slots -/

/-- The key that a slot was made for. -/
def keyIn? (slot : Nat) (r : SessionRegistry) : Option String := (r.slots[slot]?).map (·.key)

/-- **A registry in which no empty slot is lost**: a slot that holds no handle is the one that its key
leads to. -/
structure Whole (r : SessionRegistry) : Prop extends Consistent r where
  empty : ∀ {slot key}, keyIn? slot r = some key → handleIn? slot r = none →
    r.registered.lookup key = some slot

theorem lt_of_keyIn? (h : keyIn? slot r = some key) : slot < r.slots.length := by
  obtain ⟨s, hs, -⟩ := Option.map_eq_some_iff.mp h
  exact (List.getElem?_eq_some_iff.mp hs).1

theorem Consistent.keyIn?_of_lookup (hr : Consistent r) (h : r.registered.lookup key = some slot) :
    keyIn? slot r = some key := by
  obtain ⟨s, hs, hkey, -⟩ := hr.slots _ (mem_registered_of_lookup h)
  exact Option.map_eq_some_iff.mpr ⟨s, hs, hkey⟩

/-- The slot that is found is a slot of its key. -/
theorem keyIn?_locate_fst (hr : Consistent r) :
    keyIn? (locate key r).1 (locate key r).2 = some key :=
  (consistent_locate hr).keyIn?_of_lookup locate_fst

theorem keyIn?_locate (h : keyIn? slot r = some k) : keyIn? slot (locate key r).2 = some k := by
  unfold keyIn? at *
  rcases locate_slots key r with heq | ⟨-, heq⟩
  · rw [heq, h]
  · rw [heq, List.getElem?_append_left (lt_of_keyIn? h), h]

/-- A slot was there before another was found, or it is that one. -/
theorem keyIn?_of_locate (h : keyIn? slot (locate key r).2 = some k) :
    keyIn? slot r = some k ∨ k = key ∧ slot = (locate key r).1 := by
  unfold keyIn? at *
  rcases locate_slots key r with heq | ⟨hlast, heq⟩
  · exact .inl (heq ▸ h)
  · rw [heq, List.getElem?_append] at h
    split at h
    · exact .inl h
    · obtain ⟨s, hs, rfl⟩ := Option.map_eq_some_iff.mp h
      have hlt := (List.getElem?_eq_some_iff.mp hs).1
      rw [List.length_singleton] at hlt
      rw [List.mem_singleton.mp (List.mem_of_getElem? hs)]
      exact .inr ⟨rfl, by omega⟩

theorem handleIn?_fill (h : slot < r.slots.length) (data : Bytes) (s : Nat) :
    handleIn? s (fill slot key data r).2 =
      if s = slot then some r.handles.length else handleIn? s r := by
  unfold handleIn? fill
  rw [List.getElem?_modify]
  by_cases hs : slot = s
  · subst hs
    rw [List.getElem?_eq_getElem h]
    simp
  · rw [if_neg fun heq => hs heq.symm]
    cases r.slots[s]? <;> simp [hs]

theorem keyIn?_fill (data : Bytes) (s : Nat) : keyIn? s (fill slot key data r).2 = keyIn? s r := by
  unfold keyIn? fill
  rw [List.getElem?_modify]
  cases r.slots[s]? with
  | none => rfl
  | some x =>
    show some _ = some _
    split <;> rfl

/-- A key that led to a slot leads to it when a slot has been found. -/
theorem registered_locate (h : r.registered.lookup k = some slot) :
    (locate key r).2.registered.lookup k = some slot := by
  rw [lookup_locate]
  split
  · rename_i hk
    rw [locate_eq_self (hk ▸ h)]
  · exact h

/-! ## Registries in which no slot is lost -/

theorem whole_locate (hr : Whole r) : Whole (locate key r).2 where
  toConsistent := consistent_locate hr.toConsistent
  empty := by
    intro slot k hkey hempty
    rw [handleIn?_locate] at hempty
    rcases keyIn?_of_locate hkey with hold | ⟨rfl, rfl⟩
    · exact registered_locate (hr.empty hold hempty)
    · exact locate_fst

theorem whole_fill (hr : Whole r) (hslot : keyIn? slot r = some key)
    (hempty : handleIn? slot r = none) (haccepted : IsAccepted key) (data : Bytes) :
    Whole (fill slot key data r).2 where
  toConsistent := consistent_fill hr.toConsistent (hr.empty hslot hempty) haccepted data
  empty := by
    intro s k hk hs
    rw [keyIn?_fill] at hk
    rw [handleIn?_fill (lt_of_keyIn? hslot)] at hs
    split at hs
    · cases hs
    · exact hr.empty hk hs

theorem keyIn?_evict (s : Nat) : keyIn? s (evict key slot r) = keyIn? s r := by
  rw [keyIn?, evict_slots, keyIn?]

/-- Only a slot that holds a handle may be taken out. -/
theorem whole_evict (hr : Whole r) (hfilled : handleIn? slot r ≠ none) : Whole (evict key slot r) where
  toConsistent := consistent_evict hr.toConsistent
  empty := by
    intro s k hk hs
    rw [keyIn?_evict] at hk
    rw [handleIn?_evict] at hs
    have hlookup := hr.empty hk hs
    rw [lookup_evict, if_neg, hlookup]
    rintro ⟨rfl, hown⟩
    rw [hlookup] at hown
    exact hfilled (Option.some.inj hown ▸ hs)

theorem whole_write (hr : Whole r) (data : Bytes) : Whole (setContents handle data r) where
  toConsistent := consistent_modify hr.toConsistent _
  empty := fun hk hs => hr.empty hk hs

/-! ## What holds of calls on their way -/

/-- An opening holds a slot of its key. A slot that it loads is empty, and a handle that it answers is
the one in the slot. -/
structure Opening.Fits (r : SessionRegistry) (o : Opening) : Prop where
  accepted : IsAccepted o.key
  slot : keyIn? o.slot r = some o.key
  loading : o.stage = .loading → handleIn? o.slot r = none
  opened : ∀ {handle}, o.stage = .opened handle → handleIn? o.slot r = some handle

/-- A closing holds a slot of its key and the handle in it. -/
structure Closing.Fits (r : SessionRegistry) (d : Closing) : Prop where
  slot : keyIn? d.slot r = some d.key
  handle : handleIn? d.slot r = some d.handle

namespace Crossing

/-- **Calls that cross and the registry fit together**. Nobody loads a slot that another loads, and the
slots that hold a handle are those that were loaded, each once. -/
structure Coherent (c : Crossing) : Prop where
  whole : Whole c.registry
  openings : ∀ {i : Nat} {o : Opening}, c.openings[i]? = some o → o.Fits c.registry
  oneLoad : ∀ {i i' : Nat} {o o' : Opening}, c.openings[i]? = some o → c.openings[i']? = some o' →
    o.stage = .loading → o'.stage = .loading → o.slot = o'.slot → i = i'
  closings : ∀ {j : Nat} {d : Closing}, c.closings[j]? = some d → d.Fits c.registry
  loads : ∀ slot, c.loads.filter (·.1 = slot) =
    ((handleIn? slot c.registry).map fun handle => (slot, handle)).toList

variable {c : Crossing} {i j : Nat} {o : Opening} {d : Closing}

theorem coherent_start : Coherent {} where
  whole := ⟨⟨List.nodup_nil, nofun, nofun⟩, nofun⟩
  openings := nofun
  oneLoad := nofun
  closings := nofun
  loads := fun _ => rfl

theorem isLoading_eq_false_iff {slot : Nat} :
    c.isLoading slot = false ↔ ∀ o ∈ c.openings, o.slot = slot → o.stage ≠ .loading := by
  simp [isLoading, List.any_eq_false]

/-- What stands in the list of openings once one of them has come to a stage. -/
theorem getElem?_openingAt {stage : OpeningStage} {k : Nat} {o' : Opening} (hi : c.openings[i]? = some o)
    (h : (c.openingAt i stage).openings[k]? = some o') :
    k = i ∧ o' = { o with stage := stage } ∨ k ≠ i ∧ c.openings[k]? = some o' := by
  unfold openingAt at h
  rw [List.getElem?_modify] at h
  by_cases hk : k = i
  · subst hk
    rw [hi] at h
    exact .inl ⟨rfl, by simpa using h.symm⟩
  · have hne : i ≠ k := fun heq => hk heq.symm
    exact .inr ⟨hk, by simpa [hne] using h⟩

theorem getElem?_closingAt {stage : ClosingStage} {k : Nat} {d' : Closing} (hj : c.closings[j]? = some d)
    (h : (c.closingAt j stage).closings[k]? = some d') :
    k = j ∧ d' = { d with stage := stage } ∨ k ≠ j ∧ c.closings[k]? = some d' := by
  unfold closingAt at h
  rw [List.getElem?_modify] at h
  by_cases hk : k = j
  · subst hk
    rw [hj] at h
    exact .inl ⟨rfl, by simpa using h.symm⟩
  · have hne : j ≠ k := fun heq => hk heq.symm
    exact .inr ⟨hk, by simpa [hne] using h⟩

/-! ## What a move does -/

/-- **What a move does**: nothing, as when it is not the turn of its call, or else one of these. -/
inductive Turn (c : Crossing) : Move → Crossing → Prop where
  | rest {move : Move} : Turn c move c
  | find {key : String} (haccepted : IsAccepted key) :
      Turn c (.find key) { c with
        registry := (locate key c.registry).2
        openings := c.openings ++ [⟨key, (locate key c.registry).1, .found⟩] }
  | take {i : Nat} {o : Opening} {handle : Nat} (hi : c.openings[i]? = some o) (hstage : o.stage = .found)
      (hin : handleIn? o.slot c.registry = some handle) :
      Turn c (.enter i) (c.openingAt i (.opened handle))
  | load {i : Nat} {o : Opening} (hi : c.openings[i]? = some o) (hstage : o.stage = .found)
      (hempty : handleIn? o.slot c.registry = none) (hidle : c.isLoading o.slot = false) :
      Turn c (.enter i) (c.openingAt i .loading)
  | fill {i : Nat} {o : Opening} (hi : c.openings[i]? = some o) (hstage : o.stage = .loading)
      (data : Option Bytes) : Turn c (.answer i (.ok data)) (c.answered i o (.ok data))
  | fail {i : Nat} {o : Opening} (hi : c.openings[i]? = some o) (hstage : o.stage = .loading)
      (cause : Error) : Turn c (.answer i (.error cause)) (c.openingAt i (.failed cause))
  | abandon {i : Nat} {o : Opening} (hi : c.openings[i]? = some o)
      (hstage : o.stage = .found ∨ o.stage = .loading) :
      Turn c (.abandon i) (c.openingAt i .abandoned)
  | look {key : String} {slot handle : Nat} (hlookup : lookup key c.registry = some (slot, handle)) :
      Turn c (.look key) { c with closings := c.closings ++ [⟨key, slot, handle, .found⟩] }
  | flush {j : Nat} {d : Closing} (hj : c.closings[j]? = some d) (hstage : d.stage = .found) :
      Turn c (.flush j (.ok ())) (c.closingAt j .flushed)
  | flushFail {j : Nat} {d : Closing} (hj : c.closings[j]? = some d) (hstage : d.stage = .found)
      (cause : Error) : Turn c (.flush j (.error cause)) (c.closingAt j (.failed cause))
  | leave {j : Nat} {d : Closing} (hj : c.closings[j]? = some d) (hstage : d.stage = .flushed) :
      Turn c (.leave j) { c.closingAt j .ended with registry := evict d.key d.slot c.registry }
  | write {handle : Nat} {data : Bytes} :
      Turn c (.write handle data) { c with registry := setContents handle data c.registry }

theorem turn_enter (hi : c.openings[i]? = some o) (hstage : o.stage = .found) :
    Turn c (.enter i) (c.enter i o) := by
  unfold enter
  cases hin : handleIn? o.slot c.registry with
  | some handle => exact .take hi hstage hin
  | none =>
    simp only
    split
    · exact .rest
    · rename_i hidle
      exact .load hi hstage hin (Bool.eq_false_iff.mpr hidle)

theorem turn_answer (hi : c.openings[i]? = some o) (hstage : o.stage = .loading)
    (data : Except Error (Option Bytes)) : Turn c (.answer i data) (c.answered i o data) := by
  cases data with
  | ok data => exact .fill hi hstage data
  | error cause => exact .fail hi hstage cause

theorem turn_step (c : Crossing) (move : Move) : Turn c move (c.step move) := by
  cases move with
  | find key =>
    simp only [step]
    split
    · exact .find ‹_›
    · exact .rest
  | enter i =>
    simp only [step]
    split
    · split
      · exact turn_enter ‹_› ‹_›
      · exact .rest
    · exact .rest
  | answer i data =>
    simp only [step]
    split
    · split
      · exact turn_answer ‹_› ‹_› data
      · exact .rest
    · exact .rest
  | abandon i =>
    simp only [step]
    split
    · split
      · exact .abandon ‹_› ‹_›
      · exact .rest
    · exact .rest
  | look key =>
    simp only [step]
    split
    · exact .look ‹_›
    · exact .rest
  | flush j answer =>
    simp only [step]
    split
    · split
      · cases answer with
        | ok answer => exact .flush ‹_› ‹_›
        | error cause => exact .flushFail ‹_› ‹_› cause
      · exact .rest
    · exact .rest
  | leave j =>
    simp only [step]
    split
    · split
      · exact .leave ‹_› ‹_›
      · exact .rest
    · exact .rest
  | write handle data => exact .write

/-! ## What a move keeps -/

theorem coherent_find (hc : Coherent c) (haccepted : IsAccepted key) : Coherent { c with
    registry := (locate key c.registry).2
    openings := c.openings ++ [⟨key, (locate key c.registry).1, .found⟩] } := by
  refine ⟨whole_locate hc.whole, ?_, ?_, ?_, ?_⟩
  · intro i o hi
    rw [List.getElem?_append] at hi
    split at hi
    · have ho := hc.openings hi
      exact ⟨ho.accepted, keyIn?_locate ho.slot, fun h => handleIn?_locate.trans (ho.loading h),
        fun h => handleIn?_locate.trans (ho.opened h)⟩
    · obtain rfl := List.mem_singleton.mp (List.mem_of_getElem? hi)
      exact ⟨haccepted, keyIn?_locate_fst hc.whole.toConsistent, nofun, nofun⟩
  · intro i i' o o' hi hi' ho ho' hslot
    -- the new opening does not load
    have hold : ∀ {i : Nat} {o : Opening}, (c.openings ++
        [⟨key, (locate key c.registry).1, .found⟩])[i]? = some o → o.stage = .loading →
          c.openings[i]? = some o := by
      intro i o hi ho
      rw [List.getElem?_append] at hi
      split at hi
      · exact hi
      · rw [List.mem_singleton.mp (List.mem_of_getElem? hi)] at ho
        cases ho
    exact hc.oneLoad (hold hi ho) (hold hi' ho') ho ho' hslot
  · intro j d hj
    have hd := hc.closings hj
    exact ⟨keyIn?_locate hd.slot, handleIn?_locate.trans hd.handle⟩
  · intro slot
    simp only [handleIn?_locate]
    exact hc.loads slot

/-- An opening comes to a stage: it may load if the slot is empty and nobody loads it, and answer what the
slot holds. -/
theorem coherent_openingAt (hc : Coherent c) (hi : c.openings[i]? = some o) {stage : OpeningStage}
    (hloading : stage = .loading → handleIn? o.slot c.registry = none ∧ c.isLoading o.slot = false)
    (hopened : ∀ handle, stage = .opened handle → handleIn? o.slot c.registry = some handle) :
    Coherent (c.openingAt i stage) := by
  have ho := hc.openings hi
  refine ⟨hc.whole, ?_, ?_, hc.closings, hc.loads⟩
  · intro k o' hk
    rcases getElem?_openingAt hi hk with ⟨-, rfl⟩ | ⟨-, hold⟩
    · exact ⟨ho.accepted, ho.slot, fun h => (hloading h).1, fun h => hopened _ h⟩
    · exact hc.openings hold
  · intro k k' o₁ o₂ hk hk' h₁ h₂ hslot
    rcases getElem?_openingAt hi hk with ⟨rfl, rfl⟩ | ⟨-, hold⟩ <;>
      rcases getElem?_openingAt hi hk' with ⟨rfl, rfl⟩ | ⟨-, hold'⟩
    · rfl
    · exact absurd h₂ (isLoading_eq_false_iff.mp (hloading h₁).2 o₂ (List.mem_of_getElem? hold') hslot.symm)
    · exact absurd h₁ (isLoading_eq_false_iff.mp (hloading h₂).2 o₁ (List.mem_of_getElem? hold) hslot)
    · exact hc.oneLoad hold hold' h₁ h₂ hslot

/-- **A load that succeeds** fills the slot, which nobody else was loading. -/
theorem coherent_loaded (hc : Coherent c) (hi : c.openings[i]? = some o) (hstage : o.stage = .loading)
    (data : Option Bytes) : Coherent (c.answered i o (.ok data)) := by
  have ho := hc.openings hi
  have hempty := ho.loading hstage
  have hlt := lt_of_keyIn? ho.slot
  have hfilled : ∀ s, handleIn? s (fill o.slot o.key (data.getD []) c.registry).2 =
      if s = o.slot then some c.registry.handles.length else handleIn? s c.registry :=
    handleIn?_fill hlt _
  -- a handle that was in a slot is in it still
  have hkept : ∀ s handle, handleIn? s c.registry = some handle →
      handleIn? s (fill o.slot o.key (data.getD []) c.registry).2 = some handle := by
    intro s handle hs
    rw [hfilled, if_neg, hs]
    rintro rfl
    rw [hempty] at hs
    cases hs
  refine ⟨whole_fill hc.whole ho.slot hempty ho.accepted _, ?_, ?_, ?_, ?_⟩
  · intro k o' hk
    rcases getElem?_openingAt hi hk with ⟨-, rfl⟩ | ⟨hne, hold⟩
    · refine ⟨ho.accepted, (keyIn?_fill _ _).trans ho.slot, nofun, ?_⟩
      intro handle h
      rw [← OpeningStage.opened.inj h]
      exact (hfilled _).trans (if_pos rfl)
    · have ho' := hc.openings hold
      refine ⟨ho'.accepted, (keyIn?_fill _ _).trans ho'.slot, ?_, fun h => hkept _ _ (ho'.opened h)⟩
      intro h
      refine (hfilled _).trans ((if_neg ?_).trans (ho'.loading h))
      exact fun hslot => hne (hc.oneLoad hold hi h hstage hslot)
  · intro k k' o₁ o₂ hk hk' h₁ h₂ hslot
    rcases getElem?_openingAt hi hk with ⟨rfl, rfl⟩ | ⟨-, hold⟩
    · cases h₁
    rcases getElem?_openingAt hi hk' with ⟨rfl, rfl⟩ | ⟨-, hold'⟩
    · cases h₂
    exact hc.oneLoad hold hold' h₁ h₂ hslot
  · intro j d hj
    have hd := hc.closings hj
    exact ⟨(keyIn?_fill _ _).trans hd.slot, hkept _ _ hd.handle⟩
  · intro slot
    show (c.loads ++ [_]).filter _ = ((handleIn? slot (fill _ _ _ _).2).map _).toList
    rw [List.filter_append, hc.loads, hfilled]
    by_cases hslot : slot = o.slot
    · subst hslot
      simp [hempty]
    · have hne : ¬ o.slot = slot := fun heq => hslot heq.symm
      simp [hslot, hne]

theorem coherent_look (hc : Coherent c) (hlookup : lookup key c.registry = some (slot, handle)) :
    Coherent { c with closings := c.closings ++ [⟨key, slot, handle, .found⟩] } := by
  rw [lookup_eq] at hlookup
  obtain ⟨slot', hslot, hin⟩ := Option.bind_eq_some_iff.mp hlookup
  obtain ⟨handle', hhandle, hpair⟩ := Option.map_eq_some_iff.mp hin
  obtain ⟨rfl, rfl⟩ := Prod.mk.inj hpair
  refine ⟨hc.whole, hc.openings, hc.oneLoad, ?_, hc.loads⟩
  intro j d hj
  rw [List.getElem?_append] at hj
  split at hj
  · exact hc.closings hj
  · rw [List.mem_singleton.mp (List.mem_of_getElem? hj)]
    exact ⟨hc.whole.keyIn?_of_lookup hslot, hhandle⟩

theorem coherent_closingAt (hc : Coherent c) (hj : c.closings[j]? = some d) (stage : ClosingStage) :
    Coherent (c.closingAt j stage) := by
  refine ⟨hc.whole, hc.openings, hc.oneLoad, ?_, hc.loads⟩
  intro k d' hk
  rcases getElem?_closingAt hj hk with ⟨-, rfl⟩ | ⟨-, hold⟩
  · have hd := hc.closings hj
    exact ⟨hd.slot, hd.handle⟩
  · exact hc.closings hold

/-- **A closing takes out** a slot that holds a handle. -/
theorem coherent_left (hc : Coherent c) (hj : c.closings[j]? = some d) :
    Coherent { c.closingAt j .ended with registry := evict d.key d.slot c.registry } := by
  have hc' := coherent_closingAt hc hj .ended
  have hfilled : handleIn? d.slot c.registry ≠ none := by
    rw [(hc.closings hj).handle]
    exact Option.some_ne_none _
  refine ⟨whole_evict hc.whole hfilled, ?_, hc'.oneLoad, ?_, ?_⟩
  · intro i o hi
    have ho := hc'.openings hi
    exact ⟨ho.accepted, (keyIn?_evict _).trans ho.slot, fun h => (handleIn?_evict _).trans (ho.loading h),
      fun h => (handleIn?_evict _).trans (ho.opened h)⟩
  · intro k d' hk
    have hd' := hc'.closings hk
    exact ⟨(keyIn?_evict _).trans hd'.slot, (handleIn?_evict _).trans hd'.handle⟩
  · intro s
    show _ = ((handleIn? s (evict _ _ _)).map _).toList
    rw [handleIn?_evict]
    exact hc.loads s

theorem coherent_write (hc : Coherent c) (data : Bytes) :
    Coherent { c with registry := setContents handle data c.registry } where
  whole := whole_write hc.whole data
  openings := fun hi => ⟨(hc.openings hi).accepted, (hc.openings hi).slot, (hc.openings hi).loading,
    (hc.openings hi).opened⟩
  oneLoad := hc.oneLoad
  closings := fun hj => ⟨(hc.closings hj).slot, (hc.closings hj).handle⟩
  loads := hc.loads

/-- **One move** keeps calls and registry together. -/
theorem coherent_step (hc : Coherent c) (move : Move) : Coherent (c.step move) := by
  have hturn := turn_step c move
  generalize c.step move = c' at hturn ⊢
  cases hturn with
  | rest => exact hc
  | find haccepted => exact coherent_find hc haccepted
  | take hi hstage hin => exact coherent_openingAt hc hi nofun fun _ h => by cases h; exact hin
  | load hi hstage hempty hidle => exact coherent_openingAt hc hi (fun _ => ⟨hempty, hidle⟩) nofun
  | fill hi hstage data => exact coherent_loaded hc hi hstage data
  | fail hi hstage cause => exact coherent_openingAt hc hi nofun nofun
  | abandon hi hstage => exact coherent_openingAt hc hi nofun nofun
  | look hlookup => exact coherent_look hc hlookup
  | flush hj hstage => exact coherent_closingAt hc hj _
  | flushFail hj hstage cause => exact coherent_closingAt hc hj _
  | leave hj hstage => exact coherent_left hc hj
  | write => exact coherent_write hc _

/-- **Any number of moves**, in any order, keeps calls and registry together. -/
theorem coherent_ofMoves (moves : List Move) : Coherent (ofMoves moves) := by
  induction moves using List.reverseRecOn with
  | nil => exact coherent_start
  | append_singleton moves move ih =>
    rw [ofMoves, after_concat]
    exact coherent_step ih move

/-! ## Who takes out a slot -/

/-- Only its own slot is taken out with a key. -/
theorem eq_of_evicted {k : String} {s : Nat} (hslot : r.registered.lookup k = some s)
    (hgone : (evict key slot r).registered.lookup k ≠ some s) : key = k ∧ slot = s := by
  rw [lookup_evict] at hgone
  split at hgone
  · rename_i hown
    obtain ⟨rfl, hown⟩ := hown
    exact ⟨rfl, Option.some.inj (hown.symm.trans hslot)⟩
  · exact absurd hslot hgone

/-- **A slot is taken out** by a closing of its key that holds it and has flushed the handle in it. -/
theorem left_of_gone {move : Move} (hslot : c.registry.registered.lookup key = some slot)
    (hgone : (c.step move).registry.registered.lookup key ≠ some slot) :
    ∃ j d, move = .leave j ∧ c.closings[j]? = some d ∧ d.key = key ∧ d.slot = slot ∧
      d.stage = .flushed := by
  have hturn := turn_step c move
  generalize c.step move = c' at hturn hgone
  cases hturn with
  | find haccepted => exact absurd (registered_locate hslot) hgone
  | leave hj hstage =>
    obtain ⟨hkey, hown⟩ := eq_of_evicted hslot hgone
    exact ⟨_, _, rfl, hj, hkey, hown, hstage⟩
  | _ => exact absurd hslot hgone

/-- A closing was there before a move, with the same slot, or it begins with the move. -/
theorem closing_step {move : Move} (hj : (c.step move).closings[j]? = some d) :
    (∃ d₀, c.closings[j]? = some d₀ ∧ d = { d₀ with stage := d.stage } ∧
      (d.stage = .flushed → d₀.stage = .flushed ∨ move = .flush j (.ok ()))) ∨
    (move = .look d.key ∧ lookup d.key c.registry = some (d.slot, d.handle) ∧ d.stage = .found ∧
      c.closings.length = j) := by
  have hsame : c.closings[j]? = some d → (∃ d₀, c.closings[j]? = some d₀ ∧
      d = { d₀ with stage := d.stage } ∧
        (d.stage = .flushed → d₀.stage = .flushed ∨ move = .flush j (.ok ()))) :=
    fun hold => ⟨d, hold, rfl, .inl⟩
  have hturn := turn_step c move
  generalize c.step move = c' at hturn hj
  cases hturn with
  | look hlookup =>
    rw [List.getElem?_append] at hj
    split at hj
    · exact .inl (hsame hj)
    · rename_i hle
      have hlt := (List.getElem?_eq_some_iff.mp hj).1
      rw [List.length_singleton] at hlt
      obtain rfl := List.mem_singleton.mp (List.mem_of_getElem? hj)
      exact .inr ⟨rfl, hlookup, rfl, by omega⟩
  | flush hk hstage =>
    rcases getElem?_closingAt hk hj with ⟨rfl, rfl⟩ | ⟨-, hold⟩
    · exact .inl ⟨_, hk, rfl, fun _ => .inr rfl⟩
    · exact .inl (hsame hold)
  | flushFail hk hstage cause =>
    rcases getElem?_closingAt hk hj with ⟨rfl, rfl⟩ | ⟨-, hold⟩
    · exact .inl ⟨_, hk, rfl, nofun⟩
    · exact .inl (hsame hold)
  | leave hk hstage =>
    rcases getElem?_closingAt hk hj with ⟨rfl, rfl⟩ | ⟨-, hold⟩
    · exact .inl ⟨_, hk, rfl, nofun⟩
    · exact .inl (hsame hold)
  | _ => exact .inl (hsame hj)

/-- A closing began with looking up its slot and the handle in it. If it has flushed that handle, it has
done so since. -/
def Began (moves : List Move) (j : Nat) (d : Closing) : Prop :=
  ∃ earlier later, moves = earlier ++ .look d.key :: later ∧
    lookup d.key (ofMoves earlier).registry = some (d.slot, d.handle) ∧
    (ofMoves earlier).closings.length = j ∧ (d.stage = .flushed → .flush j (.ok ()) ∈ later)

theorem began_ofMoves (moves : List Move) :
    ∀ {j : Nat} {d : Closing}, (ofMoves moves).closings[j]? = some d → Began moves j d := by
  induction moves using List.reverseRecOn with
  | nil => nofun
  | append_singleton moves move ih =>
    intro j d hj
    rw [ofMoves, after_concat] at hj
    rcases closing_step hj with ⟨d₀, hold, hd, hflushed⟩ | ⟨rfl, hlookup, hfound, hlength⟩
    · obtain ⟨earlier, later, rfl, hlookup, hlength, hlater⟩ := ih hold
      rw [hd]
      refine ⟨earlier, later ++ [move], by simp, hlookup, hlength, ?_⟩
      intro hstage
      rcases hflushed hstage with hbefore | rfl
      · exact List.mem_append_left _ (hlater hbefore)
      · exact List.mem_append_right _ (List.mem_singleton_self _)
    · refine ⟨moves, [], rfl, hlookup, hlength, ?_⟩
      rw [hfound]
      nofun

/-! ## Loading again -/

/-- An opening loads its slot if that is empty and nobody loads it. -/
theorem enter_loads (hi : c.openings[i]? = some o) (hstage : o.stage = .found)
    (hempty : handleIn? o.slot c.registry = none) (hidle : c.isLoading o.slot = false) :
    c.step (.enter i) = c.openingAt i .loading := by
  simp only [step, hi, hstage, if_true, enter, hempty, hidle, Bool.false_eq_true, if_false]

theorem openingAt_self (hi : c.openings[i]? = some o) (stage : OpeningStage) :
    (c.openingAt i stage).openings[i]? = some { o with stage := stage } := by
  unfold openingAt
  rw [List.getElem?_modify, hi]
  simp

/-- An opening of a key that is registered finds the slot of that key. -/
theorem find_eq (haccepted : IsAccepted key) (hslot : c.registry.registered.lookup key = some slot) :
    c.step (.find key) = { c with openings := c.openings ++ [⟨key, slot, .found⟩] } := by
  have hvalid : Store.isValidKey (storageKey key) = true := haccepted
  simp only [step, if_pos hvalid, locate_eq_self hslot]

/-- An opening is answered a new handle that holds what the store has given. -/
theorem answer_loaded (hi : c.openings[i]? = some o) (hstage : o.stage = .loading)
    (data : Option Bytes) :
    (c.step (.answer i (.ok data))).openings[i]? =
        some { o with stage := .opened c.registry.handles.length } ∧
      contents (c.step (.answer i (.ok data))).registry c.registry.handles.length = data.getD [] := by
  simp only [step, hi, hstage, if_true, answered]
  refine ⟨openingAt_self hi _, ?_⟩
  rw [contents, handle?, fill]
  simp

theorem step_failed (hi : c.openings[i]? = some o) (hstage : o.stage = .loading) (cause : Error) :
    c.step (.answer i (.error cause)) = c.openingAt i (.failed cause) := by
  simp only [step, hi, hstage, if_true, answered]

/-- A load that fails leaves the slot to others. -/
theorem idle_of_failed (hc : Coherent c) (hi : c.openings[i]? = some o) (hstage : o.stage = .loading)
    (cause : Error) : (c.step (.answer i (.error cause))).isLoading o.slot = false := by
  rw [step_failed hi hstage, isLoading_eq_false_iff]
  intro o' ho' hslot h
  obtain ⟨k, hk⟩ := List.mem_iff_getElem?.mp ho'
  rcases getElem?_openingAt hi hk with ⟨-, rfl⟩ | ⟨hne, hold⟩
  · cases h
  · exact hne (hc.oneLoad hold hi h hstage hslot)

/-- The slot of an opening that loads is the one that its key leads to. -/
theorem Coherent.lookup_of_loading (hc : Coherent c) (hi : c.openings[i]? = some o)
    (hstage : o.stage = .loading) : c.registry.registered.lookup o.key = some o.slot :=
  hc.whole.empty (hc.openings hi).slot ((hc.openings hi).loading hstage)

/-- **After a load that failed**, who waits for the slot may load it. -/
theorem waiting_loads (hc : Coherent c) (hi : c.openings[i]? = some o) (hstage : o.stage = .loading)
    (cause : Error) {k : Nat} {o' : Opening} (hk : c.openings[k]? = some o') (hwaits : o'.stage = .found)
    (hslot : o'.slot = o.slot) :
    ((c.step (.answer i (.error cause))).step (.enter k)).openings[k]? =
      some { o' with stage := .loading } := by
  have hidle := idle_of_failed hc hi hstage cause
  have hempty := (hc.openings hi).loading hstage
  have hne : i ≠ k := by
    rintro rfl
    rw [hi] at hk
    rw [← Option.some.inj hk, hstage] at hwaits
    cases hwaits
  rw [step_failed hi hstage] at hidle ⊢
  have hk' : (c.openingAt i (.failed cause)).openings[k]? = some o' := by
    unfold openingAt
    rw [List.getElem?_modify, hk]
    simp [hne]
  rw [enter_loads hk' hwaits (hslot ▸ hempty) (hslot ▸ hidle)]
  exact openingAt_self hk' .loading

/-- **After a load that failed**, the next opening finds the same slot, loads it and is answered. -/
theorem next_loads (hc : Coherent c) (hi : c.openings[i]? = some o) (hstage : o.stage = .loading)
    (cause : Error) (data : Option Bytes) {again : Crossing}
    (hagain : again = c.after [.answer i (.error cause), .find o.key, .enter c.openings.length,
      .answer c.openings.length (.ok data)]) :
    again.openings[c.openings.length]? = some ⟨o.key, o.slot, .opened c.registry.handles.length⟩ ∧
      contents again.registry c.registry.handles.length = data.getD [] := by
  have hidle := idle_of_failed hc hi hstage cause
  have hempty := (hc.openings hi).loading hstage
  have hfind := find_eq (c := c.openingAt i (.failed cause)) (hc.openings hi).accepted
    (hc.lookup_of_loading hi hstage)
  rw [hagain]
  simp only [after, List.foldl_cons, List.foldl_nil]
  rw [step_failed hi hstage] at hidle ⊢
  obtain ⟨c', hc'⟩ : ∃ c', c' = (c.openingAt i (.failed cause)).step (.find o.key) := ⟨_, rfl⟩
  rw [hfind] at hc'
  -- the next opening stands behind the others
  have hnext : c'.openings[c.openings.length]? = some ⟨o.key, o.slot, .found⟩ := by
    have hlength : (c.openingAt i (.failed cause)).openings.length = c.openings.length :=
      List.length_modify _ _ _
    rw [hc', ← hlength, List.getElem?_concat_length]
  have hregistry : c'.registry = c.registry := by rw [hc']; rfl
  have hfree : c'.isLoading o.slot = false := by
    rw [isLoading_eq_false_iff] at hidle ⊢
    intro o' ho'
    rw [hc'] at ho'
    rcases List.mem_append.mp ho' with hold | hlast
    · exact hidle o' hold
    · rw [List.mem_singleton.mp hlast]
      exact fun _ => nofun
  rw [hfind, ← hc', enter_loads hnext rfl (hregistry ▸ hempty) hfree, ← hregistry]
  exact answer_loaded (openingAt_self hnext .loading) rfl data

/-! ## However calls cross -/

/-- **What holds however calls cross**, whatever moves have been made. -/
structure Single (moves : List Move) : Prop where
  /-- At most one slot is registered for a key. -/
  oneSlot (key : String) : ((ofMoves moves).registry.registered.filter (·.1 = key)).length ≤ 1
  /-- Openings that found the same slot answer the same handle. -/
  oneHandle : ∀ o ∈ (ofMoves moves).openings, ∀ o' ∈ (ofMoves moves).openings, ∀ {h h' : Nat},
    o.slot = o'.slot → o.stage = .opened h → o'.stage = .opened h' → h = h'
  /-- A handle that is answered has been loaded into the slot, and nothing else ever was. -/
  loadedOnce : ∀ o ∈ (ofMoves moves).openings, ∀ {h : Nat}, o.stage = .opened h →
    (ofMoves moves).loads.filter (·.1 = o.slot) = [(o.slot, h)]
  /-- A slot that was found is registered while it is loaded, and as long as no load has succeeded. -/
  keptTillLoaded : ∀ o ∈ (ofMoves moves).openings,
    (o.stage = .loading ∨ ∀ e ∈ (ofMoves moves).loads, e.1 ≠ o.slot) →
    (ofMoves moves).registry.registered.lookup o.key = some o.slot
  /-- A slot is taken out by a closing that has flushed the handle in it. The closing had looked up this
  slot, so the slot had been made by then. -/
  leftByOwner : ∀ {key : String} {slot : Nat} (move : Move),
    (ofMoves moves).registry.registered.lookup key = some slot →
    (ofMoves (moves ++ [move])).registry.registered.lookup key ≠ some slot →
    ∃ j handle earlier later, move = .leave j ∧ moves = earlier ++ .look key :: later ∧
      lookup key (ofMoves earlier).registry = some (slot, handle) ∧
      slot < (ofMoves earlier).registry.slots.length ∧
      (ofMoves earlier).closings.length = j ∧ .flush j (.ok ()) ∈ later ∧
      handleIn? slot (ofMoves moves).registry = some handle
  /-- Who waits for a slot may load it once a load has failed. -/
  waitingLoads : ∀ {i k : Nat} {o o' : Opening} (cause : Error), (ofMoves moves).openings[i]? = some o →
    o.stage = .loading → (ofMoves moves).openings[k]? = some o' → o'.stage = .found → o'.slot = o.slot →
    (ofMoves (moves ++ [.answer i (.error cause), .enter k])).openings[k]? =
      some { o' with stage := .loading }
  /-- The next opening after a load that failed finds the same slot, loads it and is answered. -/
  nextLoads : ∀ {i : Nat} {o : Opening} (cause : Error) (data : Option Bytes),
    (ofMoves moves).openings[i]? = some o → o.stage = .loading →
    ∃ again handle, again = ofMoves (moves ++ [.answer i (.error cause), .find o.key,
        .enter (ofMoves moves).openings.length, .answer (ofMoves moves).openings.length (.ok data)]) ∧
      again.openings[(ofMoves moves).openings.length]? = some ⟨o.key, o.slot, .opened handle⟩ ∧
      contents again.registry handle = data.getD []

theorem Coherent.oneSlot (hc : Coherent c) (key : String) :
    (c.registry.registered.filter (·.1 = key)).length ≤ 1 := by
  have hcount := List.nodup_iff_count_le_one.mp hc.whole.nodup key
  rw [List.count, List.countP_map, List.countP_eq_length_filter] at hcount
  exact hcount

theorem Coherent.loadedOnce (hc : Coherent c) (hi : c.openings[i]? = some o) {h : Nat}
    (hstage : o.stage = .opened h) : c.loads.filter (·.1 = o.slot) = [(o.slot, h)] := by
  rw [hc.loads, (hc.openings hi).opened hstage]
  rfl

/-- **Live handles stay single** however openings and closings cross. -/
theorem ofMoves_single (moves : List Move) : Single moves := by
  have hc := coherent_ofMoves moves
  refine ⟨hc.oneSlot, ?_, ?_, ?_, ?_, ?_, ?_⟩
  · intro o ho o' ho' h h' hslot hstage hstage'
    obtain ⟨i, hi⟩ := List.mem_iff_getElem?.mp ho
    obtain ⟨i', hi'⟩ := List.mem_iff_getElem?.mp ho'
    have hin := (hc.openings hi).opened hstage
    rw [hslot, (hc.openings hi').opened hstage'] at hin
    exact (Option.some.inj hin).symm
  · intro o ho h hstage
    obtain ⟨i, hi⟩ := List.mem_iff_getElem?.mp ho
    exact hc.loadedOnce hi hstage
  · rintro o ho (hstage | hnever)
    all_goals obtain ⟨i, hi⟩ := List.mem_iff_getElem?.mp ho
    · exact hc.lookup_of_loading hi hstage
    refine hc.whole.empty (hc.openings hi).slot ?_
    cases hin : handleIn? o.slot (ofMoves moves).registry with
    | none => rfl
    | some handle =>
      have hloaded : (o.slot, handle) ∈ (ofMoves moves).loads.filter (·.1 = o.slot) := by
        rw [hc.loads, hin]
        exact List.mem_singleton_self _
      exact absurd rfl (hnever _ (List.mem_filter.mp hloaded).1)
  · intro key slot move hslot hgone
    rw [ofMoves, after_concat] at hgone
    obtain ⟨j, d, rfl, hj, rfl, rfl, hflushed⟩ := left_of_gone hslot hgone
    obtain ⟨earlier, later, hmoves, hlookup, hlength, hlater⟩ := began_ofMoves moves hj
    have hmade : d.slot < (ofMoves earlier).registry.slots.length := by
      rw [lookup_eq] at hlookup
      obtain ⟨slot, hregistered, hin⟩ := Option.bind_eq_some_iff.mp hlookup
      obtain ⟨handle, -, hpair⟩ := Option.map_eq_some_iff.mp hin
      rw [← (Prod.mk.inj hpair).1]
      exact lt_of_keyIn? ((coherent_ofMoves earlier).whole.keyIn?_of_lookup hregistered)
    exact ⟨j, d.handle, earlier, later, rfl, hmoves, hlookup, hmade, hlength, hlater hflushed,
      (hc.closings hj).handle⟩
  · intro i k o o' cause hi hstage hk hwaits hslot
    rw [ofMoves, after, List.foldl_append]
    exact waiting_loads hc hi hstage cause hk hwaits hslot
  · intro i o cause data hi hstage
    refine ⟨_, _, rfl, next_loads hc hi hstage cause data ?_⟩
    rw [ofMoves, after, List.foldl_append]
    rfl

-- A closing that comes during a load finds nothing to close, and the openings share one handle.
example :
    (ofMoves [.find "k", .enter 0, .look "k", .find "k", .enter 1, .answer 0 (.ok none),
      .enter 1]).openings.map (·.stage) = [.opened 0, .opened 0] := by
  decide

-- Of two closings the second comes back after the key was opened again, and leaves the new slot alone.
example :
    (ofMoves [.find "k", .enter 0, .answer 0 (.ok none), .look "k", .look "k", .flush 0 (.ok ()), .leave 0,
      .find "k", .enter 1, .answer 1 (.ok none), .flush 1 (.ok ()), .leave 1]).registry.registered =
        [("k", 1)] := by
  decide

end Crossing

end Syndication.Session
