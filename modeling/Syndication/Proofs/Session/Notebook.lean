import Mathlib.Logic.Function.Basic
import Syndication.Proofs.Session.Usage

/-!
# Proofs.Session.Notebook — sessions are a durable map

What sessions hold can be told from a notebook that knows of no handles, slots and stores. Of every key it
notes what its buffer holds while it is open, and every buffer that was written; what a key keeps is the
latest of these. As long as handles are used only while they are held, every call does to the registry and
the store what its entries do to the notebook.

## Contents
* `Notebook`, `Entry`, `Notebook.after`            — the map
* `IsHeld`, `Careful`, `entriesOf`, `notebookOf`   — what is noted of a run
* `Refines`, `refines_after`, `refines_ofCalls`
* `Faithful`, `ofCalls_faithful`
-/

namespace Syndication.Session

open ObjectStore

/-! ## The map -/

/-- What is noted of sessions. -/
structure Notebook where
  /-- What was kept before. -/
  before : String → Option Bytes
  /-- The buffers that were written, the latest first. -/
  written : List (String × Bytes)
  /-- The buffers of the keys that are open. -/
  current : String → Option Bytes

/-- Something that happened to the session of a key, or to all sessions. -/
inductive Entry where
  | opened (key : String)
  | replaced (key : String) (data : Bytes)
  | extended (key : String) (data : Bytes)
  | flushed (key : String)
  | closed (key : String)
  | restarted

/-- The key that an entry is about. -/
def Entry.key? : Entry → Option String
  | .opened key | .replaced key _ | .extended key _ | .flushed key | .closed key => some key
  | .restarted => none

namespace Notebook

variable {n : Notebook} {key k : String} {data : Bytes}

/-- Nothing is open and nothing has been written. -/
def blank (before : String → Option Bytes) : Notebook := ⟨before, [], fun _ => none⟩

/-- The buffer of a key that was written last, or else what was kept before. -/
def stored (n : Notebook) (key : String) : Option Bytes := (n.written.lookup key).or (n.before key)

/-- What the opening of a key finds: its buffer while it is open, or else what is stored, or nothing. -/
def found (n : Notebook) (key : String) : Bytes := (n.current key).getD ((n.stored key).getD [])

/-- The buffer of one key put in place of what it was. -/
def set (n : Notebook) (key : String) (buffer : Option Bytes) : Notebook :=
  { n with current := Function.update n.current key buffer }

/-- The buffer of a key written, unless it is empty. -/
def write (n : Notebook) (key : String) : Notebook :=
  match n.current key with
  | some data => if data = [] then n else { n with written := (key, data) :: n.written }
  | none => n

/-- What an entry comes to. -/
def after (n : Notebook) : Entry → Notebook
  | .opened key => n.set key (some (n.found key))
  | .replaced key data => n.set key (some data)
  | .extended key data => n.set key ((n.current key).map (· ++ data))
  | .flushed key => n.write key
  | .closed key => (n.write key).set key none
  | .restarted => { n with current := fun _ => none }

@[simp] theorem stored_set (buffer : Option Bytes) (k : String) :
    (n.set key buffer).stored k = n.stored k := rfl

theorem current_set (buffer : Option Bytes) (k : String) :
    (n.set key buffer).current k = if k = key then buffer else n.current k :=
  Function.update_apply n.current key buffer k

@[simp] theorem current_write (k : String) : (n.write key).current k = n.current k := by
  unfold write
  split
  · split <;> rfl
  · rfl

theorem stored_write (h : n.current key = some data) (k : String) :
    (n.write key).stored k = if data ≠ [] ∧ k = key then some data else n.stored k := by
  rw [write, h]
  by_cases hempty : data = []
  · simp [hempty]
  · simp only [hempty, if_false, stored, Store.lookup_cons_eq]
    by_cases hkey : k = key <;> simp [hkey, hempty]

theorem write_of_none (h : n.current key = none) : n.write key = n := by
  rw [write, h]

/-- An entry about a key changes nothing of another key. -/
theorem after_other {e : Entry} (he : e.key? = some key) (hk : k ≠ key) :
    (n.after e).stored k = n.stored k ∧ (n.after e).current k = n.current k := by
  have hwrite : (n.write key).stored k = n.stored k := by
    cases hcurrent : n.current key with
    | none => rw [write_of_none hcurrent]
    | some data => rw [stored_write hcurrent, if_neg fun h => hk h.2]
  cases e with
  | restarted => cases he
  | _ =>
    obtain rfl := Option.some.inj he
    simp [after, current_set, hk, hwrite]

theorem foldl_other {entries : List Entry} (h : ∀ e ∈ entries, e.key? = some key) (hk : k ≠ key) :
    (entries.foldl after n).stored k = n.stored k ∧ (entries.foldl after n).current k = n.current k := by
  induction entries generalizing n with
  | nil => exact ⟨rfl, rfl⟩
  | cons e entries ih =>
    obtain ⟨hstored, hcurrent⟩ := after_other (n := n) (h e List.mem_cons_self) hk
    obtain ⟨hstored', hcurrent'⟩ := ih (n := n.after e) fun e he => h e (List.mem_cons_of_mem _ he)
    exact ⟨hstored'.trans hstored, hcurrent'.trans hcurrent⟩

/-- A buffer that is written among others stays what is stored. -/
theorem stored_foldl_flushed {keys : List String} (hcurrent : n.current k = some data) (hdata : data ≠ [])
    (hk : k ∈ keys ∨ n.stored k = some data) :
    ((keys.map .flushed).foldl after n).stored k = some data := by
  induction keys generalizing n with
  | nil => exact hk.resolve_left List.not_mem_nil
  | cons key rest ih =>
    refine ih ((current_write k).trans hcurrent) ?_
    by_cases hkey : k = key
    · subst hkey
      exact .inr ((stored_write hcurrent k).trans (if_pos ⟨hdata, rfl⟩))
    · refine hk.imp (fun hmem => (List.mem_cons.mp hmem).resolve_left hkey) fun hstored => ?_
      exact (after_other (e := .flushed key) rfl hkey).1.trans hstored

end Notebook

/-! ## What is noted of a run -/

namespace Usage

/-- The call uses no handle, or one that is held. -/
def IsHeld (u : Usage) : Call → Prop
  | .setContents handle _ | .append handle _ | .flush handle | .close handle => handle ∈ u.held
  | .openKey _ | .closeKey _ | .flushAll | .restart => True

/-- Handles are used only while they are held. -/
def Careful (u : Usage) : List Call → Prop
  | [] => True
  | c :: calls => u.IsHeld c ∧ (u.after c).Careful calls

instance decidableIsHeld (u : Usage) : DecidablePred u.IsHeld
  | .setContents handle _ | .append handle _ | .flush handle | .close handle =>
    inferInstanceAs (Decidable (handle ∈ u.held))
  | .openKey _ | .closeKey _ | .flushAll | .restart => inferInstanceAs (Decidable True)

instance decidableCareful : (u : Usage) → DecidablePred u.Careful
  | _, [] => inferInstanceAs (Decidable True)
  | u, c :: calls =>
    have := decidableCareful (u.after c) calls
    inferInstanceAs (Decidable (u.IsHeld c ∧ (u.after c).Careful calls))

/-- The call is answered, and not with a failure. -/
def succeeds (u : Usage) : Call → Bool
  | .openKey key => ((openKey key).exec u.toSessionWorld).1.isOk
  | .flush handle => ((flushHandle handle).exec u.toSessionWorld).1.isOk
  | .close handle => ((closeHandle handle).exec u.toSessionWorld).1.isOk
  | .closeKey key => ((Session.closeKey key).exec u.toSessionWorld).1.isOk
  | .flushAll => (Session.flushAll.exec u.toSessionWorld).1.isOk
  | .setContents _ _ | .append _ _ | .restart => true

/-- What is noted of a call. -/
def entriesOf (u : Usage) : Call → List Entry
  | .openKey key => if u.succeeds (.openKey key) then [.opened key] else []
  | .setContents handle data => [.replaced (keyOf u.registry handle) data]
  | .append handle data => [.extended (keyOf u.registry handle) data]
  | .flush handle => if u.succeeds (.flush handle) then [.flushed (keyOf u.registry handle)] else []
  | .close handle => if u.succeeds (.close handle) then [.closed (keyOf u.registry handle)] else []
  | .closeKey key => if u.succeeds (.closeKey key) then [.closed key] else []
  | .flushAll => ((flushedOf u.toSessionWorld (live u.registry)).map (keyOf u.registry)).map .flushed
  | .restart => [.restarted]

/-- What is noted of calls, in order. -/
def log (u : Usage) : List Call → List Entry
  | [] => []
  | c :: calls => u.entriesOf c ++ (u.after c).log calls

/-- The notebook of calls on a store on which nothing has been opened yet. -/
def notebookOf (start : ObjectStore) (calls : List Call) : Notebook :=
  ((unused start).log calls).foldl Notebook.after (.blank fun key => start.find? (storageKey key))

end Usage

/-! ## Refinement -/

/-- What the buffer of a key holds while it is open. -/
def buffer? (r : SessionRegistry) (key : String) : Option Bytes := (liveHandle? key r).map (contents r)

/-- **The registry and the store hold what is noted.** -/
structure Refines (w : SessionWorld) (n : Notebook) : Prop where
  stored : ∀ key, w.store.find? (storageKey key) = n.stored key
  current : ∀ key, buffer? w.registry key = n.current key

theorem storageKey_inj {key key' : String} : storageKey key = storageKey key' ↔ key = key' :=
  String.append_right_inj _

variable {w w' : SessionWorld} {n : Notebook} {key k : String} {handle : Nat} {start : ObjectStore}

theorem buffer?_of_live {r : SessionRegistry} (h : liveHandle? key r = some handle) :
    buffer? r key = some (contents r handle) := by
  rw [buffer?, h]
  rfl

namespace Refines

theorem of_same (h : Refines w n) (hfind : ∀ k, w'.store.find? k = w.store.find? k)
    (hbuffer : ∀ key, buffer? w'.registry key = buffer? w.registry key) : Refines w' n where
  stored := fun key => (hfind _).trans (h.stored key)
  current := fun key => (hbuffer key).trans (h.current key)

theorem opened {answer : Except Error Nat} (h : Refines w n) (hw : Consistent w.registry)
    (hstore : w.store.IsSound) (hopened : Opened key w answer w') :
    Refines w' ((if answer.isOk then [.opened key] else []).foldl Notebook.after n) := by
  cases hopened with
  | shared handle live =>
    refine ⟨h.stored, fun k => ?_⟩
    show _ = (n.set key _).current k
    rw [Notebook.current_set, Notebook.found, ← h.current, ← h.current]
    split
    · rename_i hkey
      rw [hkey, buffer?_of_live live]
      rfl
    · rfl
  | loaded r data unopened read handles generation live =>
    refine ⟨h.stored, fun k => ?_⟩
    show buffer? r k = (n.set key _).current k
    have hdata : n.stored key = data := by rw [← h.stored, find?_of_get hstore read]
    rw [Notebook.current_set, Notebook.found, ← h.current, ← h.current, hdata, buffer?, live]
    split
    · rw [buffer?, unopened, Option.map_some, contents_added handles, if_pos rfl]
      rfl
    · -- the handles that were live are not the new one
      refine Option.map_congr fun old hold => ?_
      obtain ⟨x, hx, -⟩ := hw.handle?_of_live hold
      have hlt := (List.getElem?_eq_some_iff.mp hx).1
      rw [contents_added handles, if_neg (by omega)]
  | failed e r handles generation live cause =>
    exact h.of_same (fun _ => rfl) fun k => by rw [buffer?, live, contents_congr handles]; rfl

theorem modified (h : Refines w n) (hw : Consistent w.registry)
    (hlive : liveHandle? key w.registry = some handle) (change : Bytes → Bytes) :
    Refines ⟨modify handle change w.registry, w.store⟩ (n.set key ((n.current key).map change)) := by
  refine ⟨h.stored, fun k => ?_⟩
  obtain ⟨x, hx, -⟩ := hw.handle?_of_live hlive
  have hlt : handle < w.registry.handles.length := (List.getElem?_eq_some_iff.mp hx).1
  rw [Notebook.current_set, buffer?, liveHandle?_modify]
  split
  · rename_i hkey
    rw [← h.current, buffer?, hkey, hlive, Option.map_some, contents_modify change hlt, if_pos rfl]
    rfl
  · -- two keys have two handles, so the buffer of another key is another one
    rename_i hkey
    rw [← h.current, buffer?]
    refine Option.map_congr fun other hother => ?_
    have hne : handle ≠ other := by
      rintro rfl
      exact hkey ((hw.keyOf_of_live hother).symm.trans (hw.keyOf_of_live hlive))
    rw [contents_modify change hlt, if_neg hne]

theorem flushed (h : Refines w n) (hw : Consistent w.registry)
    (hlive : liveHandle? key w.registry = some handle) (hflush : Flushed handle w (.ok ()) w') :
    Refines w' (n.write key) := by
  have hcurrent : n.current key = some (contents w.registry handle) := by
    rw [← h.current, buffer?_of_live hlive]
  refine ⟨fun k => ?_, fun k => ?_⟩
  · rw [hflush.find?_ok, hw.keyOf_of_live hlive, Notebook.stored_write hcurrent, h.stored]
    simp only [storageKey_inj]
  · rw [hflush.registry, Notebook.current_write, h.current]

theorem unflushed {e : Error} (h : Refines w n) (hflush : Flushed handle w (.error e) w') : Refines w' n :=
  h.of_same hflush.find?_error fun _ => by rw [hflush.registry]

theorem closed (h : Refines w n) (hw : Consistent w.registry) (hclosed : Closed key w (.ok ()) w') :
    Refines w' (n.after (.closed key)) := by
  cases hclosed with
  | nothing unopened =>
    have hcurrent : n.current key = none := by rw [← h.current, buffer?, unopened]; rfl
    rw [Notebook.after, Notebook.write_of_none hcurrent]
    refine ⟨h.stored, fun k => ?_⟩
    rw [Notebook.current_set, h.current]
    split
    · rename_i hkey
      rw [hkey, hcurrent]
    · rfl
  | closed handle flushed r live flush handles generation ended =>
    have hwritten : Refines flushed (n.write key) := h.flushed hw live flush
    refine ⟨hwritten.stored, fun k => ?_⟩
    show buffer? r k = _
    rw [Notebook.after, Notebook.current_set, buffer?, ended, contents_congr handles]
    split
    · rfl
    · rw [Notebook.current_write, ← h.current, buffer?]

theorem restarted (h : Refines w n) : Refines ⟨restart w.registry, w.store⟩ (n.after .restarted) :=
  ⟨h.stored, fun _ => rfl⟩

theorem flushing {answer : Except Error Unit} (h : Refines w n) (hw : Consistent w.registry)
    (hlive : liveHandle? key w.registry = some handle) (hflush : Flushed handle w answer w') :
    Refines w' ((if answer.isOk then [.flushed key] else []).foldl Notebook.after n) := by
  cases answer with
  | ok _ => exact h.flushed hw hlive hflush
  | error e => exact h.unflushed hflush

theorem closing {answer : Except Error Unit} (h : Refines w n) (hw : Consistent w.registry)
    (hclosed : Closed key w answer w') :
    Refines w' ((if answer.isOk then [.closed key] else []).foldl Notebook.after n) := by
  cases answer with
  | ok _ => exact h.closed hw hclosed
  | error e =>
    cases hclosed with
    | failed handle _ _ live flush => exact h.unflushed flush

/-- Flushing live handles one after the other. -/
theorem flushedEach {handles done : List Nat} {answer : Except Error Unit} (h : Refines w n)
    (hw : Consistent w.registry) (hflush : FlushedEach handles w answer done w')
    (hlive : ∀ handle ∈ handles, ∃ key, liveHandle? key w.registry = some handle) :
    Refines w' (((done.map (keyOf w.registry)).map .flushed).foldl Notebook.after n) := by
  induction hflush generalizing n with
  | nil => exact h
  | failed flush => exact h.unflushed flush
  | @next handle rest done w w' w'' answer flush others ih =>
    obtain ⟨key, hkey⟩ := hlive handle List.mem_cons_self
    have hregistry : w'.registry = w.registry := flush.registry
    have hothers := ih (h.flushed hw hkey flush) (hregistry ▸ hw) fun other hother =>
      hregistry ▸ hlive other (List.mem_cons_of_mem _ hother)
    -- a flush leaves the registry, so the other handles are of the keys they were of
    rw [hregistry] at hothers
    rw [List.map_cons, List.map_cons, List.foldl_cons, hw.keyOf_of_live hkey]
    exact hothers

end Refines

/-! ## Runs -/

namespace Usage

variable {u : Usage}

theorem isCurrent_of_held (hu : Inv start u) (h : handle ∈ u.held) : isCurrent u.registry handle = true := by
  obtain ⟨x, hx, -, hgeneration⟩ := hu.consistent.handle?_of_live ((hu.held handle).mp h)
  rw [isCurrent, hx]
  exact decide_eq_true hgeneration

/-- **Every call does what is noted of it.** -/
theorem refines_after (hstart : start.IsSound) (hu : Inv start u) (h : Refines u.toSessionWorld n) (c : Call)
    (hheld : u.IsHeld c) :
    Refines (u.after c).toSessionWorld ((u.entriesOf c).foldl Notebook.after n) := by
  have hstore : u.store.IsSound := hu.bundles.later.isSound hstart
  cases c with
  | openKey key => exact h.opened hu.consistent hstore (opened_openKey hu.consistent key).1
  | setContents handle data =>
    have hlive := (hu.held handle).mp hheld
    have hmodified := h.modified hu.consistent hlive fun _ => data
    rw [← h.current, buffer?_of_live hlive] at hmodified
    exact hmodified
  | append handle data => exact h.modified hu.consistent ((hu.held handle).mp hheld) _
  | flush handle =>
    exact h.flushing hu.consistent ((hu.held handle).mp hheld) (flushed_flushHandle hstore handle)
  | close handle =>
    -- the key of a handle that is held leads back to it
    have hclose : (closeHandle handle).exec u.toSessionWorld =
        (Session.closeKey (keyOf u.registry handle)).exec u.toSessionWorld := by
      rw [exec_closeHandle, if_pos (isCurrent_of_held hu hheld)]
    have hclosed := (closed_closeKey hu.consistent hstore (keyOf u.registry handle)).1
    rw [← hclose] at hclosed
    exact h.closing hu.consistent hclosed
  | closeKey key =>
    exact h.closing hu.consistent (closed_closeKey hu.consistent hstore key).1
  | flushAll =>
    simp only [after, exec_flushAll]
    exact h.flushedEach hu.consistent (flushedEach_flushEach hstore _) fun handle hlive =>
      (mem_live_iff hu.consistent).mp hlive
  | restart => exact h.restarted

theorem refines_log (hstart : start.IsSound) (hu : Inv start u) (h : Refines u.toSessionWorld n)
    {calls : List Call} (hcareful : u.Careful calls) :
    Refines (calls.foldl after u).toSessionWorld ((u.log calls).foldl Notebook.after n) := by
  induction calls generalizing u n with
  | nil => exact h
  | cons c calls ih =>
    rw [log, List.foldl_append, List.foldl_cons]
    exact ih (inv_after hstart hu c) (refines_after hstart hu h c hcareful.1) hcareful.2

/-- **Every run does what is noted of it.** -/
theorem refines_ofCalls (hstart : start.IsSound) {calls : List Call}
    (hcareful : (unused start).Careful calls) :
    Refines (ofCalls start calls).toSessionWorld (notebookOf start calls) :=
  refines_log hstart (inv_unused start) ⟨fun _ => rfl, fun _ => rfl⟩ hcareful

/-- The key that a call is about. -/
def keyOf? (u : Usage) : Call → Option String
  | .openKey key | .closeKey key => some key
  | .setContents handle _ | .append handle _ | .flush handle | .close handle => some (keyOf u.registry handle)
  | .flushAll | .restart => none

theorem key?_of_mem_entriesOf {c : Call} (hc : u.keyOf? c = some key) :
    ∀ e ∈ u.entriesOf c, e.key? = some key := by
  intro e he
  cases c with
  | flushAll | restart => cases hc
  | setContents | append =>
    rw [List.mem_singleton.mp he]
    exact hc
  | openKey | flush | close | closeKey =>
    rw [List.mem_singleton.mp (List.mem_ite_nil_right.mp he).2]
    exact hc

/-! ## Calls that succeed -/

/-- A call fails only if the store does, or if it opens a key that cannot be opened. -/
theorem succeeds_of_reliable (hstart : start.IsSound) (hreliable : Reliable start) (hu : Inv start u)
    {c : Call} (hc : ∀ key, c = .openKey key → IsAccepted key) : u.succeeds c = true := by
  have hstore : u.store.IsSound := hu.bundles.later.isSound hstart
  have hreliable : Reliable u.store := hreliable.later hu.bundles.later
  have hflush handle := (flushed_flushHandle (w := u.toSessionWorld) hstore handle).ok hu.consistent hreliable
  have hclose key := (closed_closeKey hu.consistent hstore key).1.ok hu.consistent hreliable
  cases c with
  | setContents | append | restart => rfl
  | openKey key =>
    have hopened := (opened_openKey hu.consistent key).1
    rw [succeeds]
    cases hanswer : ((openKey key).exec u.toSessionWorld).1 with
    | ok handle => rfl
    | error e =>
      rw [hanswer] at hopened
      have haccepted := hc key rfl
      obtain ⟨-, hread⟩ := hopened.cause.resolve_left (not_not_intro haccepted)
      rw [hreliable.get_ok haccepted] at hread
      cases hread
  | flush handle => rw [succeeds, hflush]; rfl
  | close handle =>
    rw [succeeds, exec_closeHandle]
    split
    · rw [hclose]; rfl
    · rw [hflush]; rfl
  | closeKey key => rw [succeeds, hclose]; rfl
  | flushAll =>
    rw [succeeds, exec_flushAll, (flushedEach_flushEach hstore _).ok hu.consistent hreliable]
    rfl

theorem flushEach_of_succeeds (h : u.succeeds .flushAll = true) :
    ((flushEach (live u.registry)).exec u.toSessionWorld).1 = .ok () := by
  rw [succeeds, exec_flushAll, Effect.isOk_map] at h
  cases hanswer : ((flushEach (live u.registry)).exec u.toSessionWorld).1 with
  | ok _ => rfl
  | error e =>
    rw [hanswer] at h
    cases h

/-! ## A durable map -/

/-- **Sessions are a durable map**, after calls on the store `start` of which `n` was noted. -/
structure Faithful (start : ObjectStore) (u : Usage) (n : Notebook) : Prop where
  /-- An opening finds the buffer of the key while it is open, and else what the key keeps. -/
  opening : ∀ key handle, ((openKey key).exec u.toSessionWorld).1 = .ok handle →
    contents ((openKey key).exec u.toSessionWorld).2.registry handle = n.found key
  /-- The buffers of keys that are open are those of the handles that are held. -/
  holding : ∀ key data, n.current key = some data ↔
    ∃ handle ∈ u.held, keyOf u.registry handle = key ∧ contents u.registry handle = data
  /-- What a key keeps is in the store. -/
  stored : ∀ key, u.store.find? (storageKey key) = n.stored key
  /-- All buffers are written when all are flushed. -/
  flushedAll : u.succeeds .flushAll = true → ∀ key data, n.current key = some data → data ≠ [] →
    (u.after .flushAll).store.find? (storageKey key) = some data
  /-- A call about one key changes nothing that another key holds. -/
  other : ∀ c key, u.IsHeld c → u.keyOf? c = some key → ∀ k, k ≠ key →
    (u.after c).store.find? (storageKey k) = u.store.find? (storageKey k) ∧
      buffer? (u.after c).registry k = buffer? u.registry k
  /-- Staged bundles and their locks are as they were. -/
  bundles : SameBundles start u.store
  /-- Calls fail only if the store does. -/
  succeeds : Reliable start → ∀ c, (∀ key, c = .openKey key → IsAccepted key) → u.succeeds c = true

theorem Faithful.of_refines (hstart : start.IsSound) (hu : Inv start u) (h : Refines u.toSessionWorld n) :
    Faithful start u n where
  opening := by
    intro key handle hanswer
    have hopened := (opened_openKey hu.consistent key).1
    have hafter := h.opened hu.consistent (hu.bundles.later.isSound hstart) hopened
    rw [hanswer] at hopened hafter
    have hcurrent : some (contents _ handle) = (n.set key _).current key :=
      (buffer?_of_live hopened.live).symm.trans (hafter.current key)
    rw [Notebook.current_set, if_pos rfl] at hcurrent
    exact Option.some.inj hcurrent
  holding := by
    intro key data
    rw [← h.current, buffer?, Option.map_eq_some_iff]
    constructor
    · rintro ⟨handle, hlive, hdata⟩
      exact ⟨handle, hu.held_of_live hlive, hu.consistent.keyOf_of_live hlive, hdata⟩
    · rintro ⟨handle, hheld, rfl, hdata⟩
      exact ⟨handle, (hu.held handle).mp hheld, hdata⟩
  stored := h.stored
  flushedAll := by
    intro hok key data hcurrent hdata
    have hafter := refines_after hstart hu h .flushAll trivial
    have hflush := flushedEach_flushEach (hu.bundles.later.isSound hstart) (live u.registry)
    rw [hafter.stored, entriesOf, hflush.done_eq (flushEach_of_succeeds hok)]
    -- a buffer has a live handle, and all of those are flushed
    refine Notebook.stored_foldl_flushed hcurrent hdata (.inl ?_)
    rw [← h.current, buffer?, Option.map_eq_some_iff] at hcurrent
    obtain ⟨handle, hlive, -⟩ := hcurrent
    exact List.mem_map.mpr ⟨handle, (mem_live_iff hu.consistent).mpr ⟨key, hlive⟩,
      hu.consistent.keyOf_of_live hlive⟩
  other := by
    intro c key hheld hc k hk
    have hafter := refines_after hstart hu h c hheld
    obtain ⟨hstored, hcurrent⟩ := Notebook.foldl_other (n := n) (key?_of_mem_entriesOf hc) hk
    rw [hafter.stored, hafter.current, h.stored, h.current]
    exact ⟨hstored, hcurrent⟩
  bundles := hu.bundles
  succeeds := fun hreliable c hc => succeeds_of_reliable hstart hreliable hu hc

/-- **Session buffers refine a durable map.** Keys are opened, changed, flushed and closed in any order, by
any number of holders and through any number of registries: as long as handles are used only while they
are held, an opening finds what the notebook says, and the store holds it. -/
theorem ofCalls_faithful (hstart : start.IsSound) (calls : List Call)
    (hcareful : (unused start).Careful calls) :
    Faithful start (ofCalls start calls) (notebookOf start calls) :=
  .of_refines hstart (inv_ofCalls hstart calls) (refines_ofCalls hstart hcareful)

/-- A login is changed by two holders and kept over the end of a registry; an empty buffer is not kept. -/
theorem ofCalls_faithful_restarted :
    let u := ofCalls .inMemory [.openKey "k", .append 0 [108], .openKey "k", .append 0 [111], .openKey "m",
      .flushAll, .restart, .openKey "k", .setContents 2 [], .close 2]
    ((openKey "k").exec u.toSessionWorld).1 = .ok 3 ∧
      contents ((openKey "k").exec u.toSessionWorld).2.registry 3 = [108, 111] := by
  intro u
  have hfaithful := ofCalls_faithful inMemory_isSound [.openKey "k", .append 0 [108], .openKey "k",
    .append 0 [111], .openKey "m", .flushAll, .restart, .openKey "k", .setContents 2 [], .close 2]
    (by decide +kernel)
  have hanswer : ((openKey "k").exec u.toSessionWorld).1 = .ok 3 := by rfl
  exact ⟨hanswer, (hfaithful.opening "k" 3 hanswer).trans (by decide +kernel)⟩

end Usage
end Syndication.Session
