import Syndication.Proofs.Session.Notebook
import Syndication.Proofs.Store.Alike

/-!
# Proofs.Session.Own — the session of one key

What can be told of the session of a key is the buffer of its live handle, if there is one, and what the
store answers under its key. Who opens the session, puts something behind its buffer and writes it back
is answered from this alone, and changes this alone.

## Contents
* `IsTidy`, `SameSession`, `OnlySession`
* `atOpening`, `noteIn`, `Noted`, `noted_noteIn` — a note in a session, from opening to writing
* `noteIn_congr`, `onlySession_noteIn`
-/

namespace Syndication.Session

open ObjectStore

/-- The registry is in order, and so is the store. -/
structure IsTidy (w : SessionWorld) : Prop where
  registry : Consistent w.registry
  store : w.store.IsTidy

/-- The session of a key is in one world as in another. -/
structure SameSession (key : String) (w w' : SessionWorld) : Prop where
  buffer : buffer? w.registry key = buffer? w'.registry key
  stored : AlikeAt (storageKey key) w.store w'.store

/-- No session has changed but that of a key. -/
structure OnlySession (key : String) (w w' : SessionWorld) : Prop where
  tidy : IsTidy w → IsTidy w'
  buffers : ∀ k, k ≠ key → buffer? w'.registry k = buffer? w.registry k
  store : OnlyAt [storageKey key] w.store w'.store

variable {key k : String} {line data : Bytes} {handle : Nat} {w w' w'' : SessionWorld}

theorem OnlySession.refl (key : String) (w : SessionWorld) : OnlySession key w w :=
  ⟨id, fun _ _ => rfl, .refl _ _⟩

/-! ## A note -/

/-- What an opening finds: the buffer of the key, or else what is stored. -/
def atOpening (key : String) (w : SessionWorld) : Except Error Bytes :=
  match Store.validateKey (storageKey key) with
  | .error e => .error e
  | .ok () =>
    match buffer? w.registry key with
    | some data => .ok data
    | none => ((ObjectStore.get (storageKey key)).exec w.store).1.map (·.getD [])

/-- A note put behind what a session holds, which is then written back. -/
def noteIn (key : String) (line : Bytes) : Effect SessionWorld Unit := do
  let handle ← openKey key
  onRegistry fun r => ((), append handle line r)
  flushHandle handle

/-- **What a note comes to.** If the session can be opened, its buffer is what was found and the note, and
the answer is that of the store to this buffer. -/
inductive Noted (key : String) (line : Bytes) (w : SessionWorld) : Except Error Unit → SessionWorld → Prop
  | refused (e : Error) (r : SessionRegistry) (cause : atOpening key w = .error e) (order : Consistent r)
      (buffers : ∀ k, buffer? r k = buffer? w.registry k) : Noted key line w (.error e) ⟨r, w.store⟩
  | written (r : SessionRegistry) (data : Bytes) (opened : atOpening key w = .ok data)
      (order : Consistent r)
      (buffers : ∀ k, buffer? r k = if k = key then some (data ++ line) else buffer? w.registry k) :
      Noted key line w ((ObjectStore.put (storageKey key) (data ++ line)).exec w.store).1
        ⟨r, ((ObjectStore.put (storageKey key) (data ++ line)).exec w.store).2⟩

theorem validateKey_storageKey (h : IsAccepted key) : Store.validateKey (storageKey key) = .ok () := if_pos h

theorem atOpening_of_accepted (h : IsAccepted key) : atOpening key w = match buffer? w.registry key with
    | some data => .ok data
    | none => ((ObjectStore.get (storageKey key)).exec w.store).1.map (·.getD []) := by
  rw [atOpening, validateKey_storageKey h]

/-- A buffer with something in it is put under its key. -/
theorem exec_flushHandle {generation : Nat} (h : handle? w.registry handle = some ⟨key, data, generation⟩)
    (hfilled : data ≠ []) : (flushHandle handle).exec w =
      (((ObjectStore.put (storageKey key) data).exec w.store).1,
        ⟨w.registry, ((ObjectStore.put (storageKey key) data).exec w.store).2⟩) := by
  have hempty : data.isEmpty = false := by simpa using hfilled
  rw [flushHandle, Effect.exec_bind_ok (Effect.exec_get w), h]
  simp only [hempty]
  rfl

/-- A notebook that notes what is there. -/
theorem refines_self (w : SessionWorld) :
    Refines w ⟨fun k => w.store.find? (storageKey k), [], buffer? w.registry⟩ :=
  ⟨fun _ => rfl, fun _ => rfl⟩

/-- The buffers that are there after an opening. -/
theorem Opened.buffers (hw : IsTidy w) (haccepted : IsAccepted key)
    (h : Opened key w (.ok handle) w') : ∃ data, atOpening key w = .ok data ∧ w'.store = w.store ∧
      ∀ k, buffer? w'.registry k = if k = key then some data else buffer? w.registry k := by
  have hcurrent := ((refines_self w).opened hw.registry hw.store.isSound h).current
  simp only [Except.isOk, Except.toBool, if_true, List.foldl_cons, List.foldl_nil, Notebook.after,
    Notebook.current_set] at hcurrent
  refine ⟨_, ?_, ?_, hcurrent⟩
  · rw [atOpening_of_accepted haccepted]
    cases h with
    | shared handle live => simp [Notebook.found, buffer?_of_live live]
    | loaded r data unopened read handles generation live =>
      have hnone : buffer? w.registry key = none := by rw [buffer?, unopened]; rfl
      have hstored := find?_of_get hw.store.isSound read
      simp [Notebook.found, Notebook.stored, hnone, read, hstored, Except.map]
  · cases h with
    | shared handle live => rfl
    | loaded r data unopened read handles generation live => rfl

/-- The buffer of a live handle is changed and no other. -/
theorem buffer?_modify (hw : Consistent w.registry) (hlive : liveHandle? key w.registry = some handle)
    (change : Bytes → Bytes) (k : String) : buffer? (modify handle change w.registry) k =
      if k = key then (buffer? w.registry key).map change else buffer? w.registry k := by
  rw [((refines_self w).modified hw hlive change).current, Notebook.current_set]

theorem noted_noteIn (hw : IsTidy w) (key : String) (hline : line ≠ []) :
    Noted key line w ((noteIn key line).exec w).1 ((noteIn key line).exec w).2 := by
  by_cases haccepted : IsAccepted key
  case neg =>
    have hvalid : Store.validateKey (storageKey key) = .error (.storage (.invalidKey (storageKey key))) :=
      if_neg haccepted
    have hopen : (openKey key).exec w = (.error (.storage (.invalidKey (storageKey key))), w) := by
      rw [openKey, hvalid]
      rfl
    rw [noteIn, Effect.exec_bind, hopen]
    exact .refused _ w.registry (by rw [atOpening, hvalid]) hw.registry fun _ => rfl
  obtain ⟨hopened, horder⟩ := opened_openKey hw.registry key
  rw [noteIn, Effect.exec_bind]
  rcases hexec : (openKey key).exec w with ⟨e | handle, w₁⟩
  · rw [hexec] at hopened horder
    cases hopened with
    | failed e r handles generation live cause =>
      obtain ⟨hunopened, hread⟩ := cause.resolve_left (not_not_intro haccepted)
      refine .refused e r ?_ horder fun k => by rw [buffer?, live, contents_congr handles]; rfl
      rw [atOpening_of_accepted haccepted, buffer?, hunopened, Option.map_none, hread]
      rfl
  · rw [hexec] at hopened horder
    have horder : Consistent w₁.registry := horder
    have hopened : Opened key w (.ok handle) w₁ := hopened
    obtain ⟨data, hfound, hstore, hbuffers⟩ := hopened.buffers hw haccepted
    have hlive : liveHandle? key w₁.registry = some handle := hopened.live
    obtain ⟨x, hx, hkey, -⟩ := horder.handle?_of_live hlive
    have hdata : x.buffer = data := by
      have hown := (buffer?_of_live hlive).symm.trans ((hbuffers key).trans (if_pos rfl))
      rw [contents, hx] at hown
      exact Option.some.inj hown
    -- the note goes behind the buffer of the handle, and what is written is that buffer
    have hnote : (onRegistry fun r => ((), append handle line r)).exec w₁ =
        (.ok (), ⟨append handle line w₁.registry, w₁.store⟩) := rfl
    have hnoted : handle? (append handle line w₁.registry) handle =
        some ⟨key, data ++ line, x.generation⟩ := by
      rw [append, handle?_modify, hx, ← hdata, ← hkey]
      simp
    have hflush := exec_flushHandle (w := ⟨append handle line w₁.registry, w₁.store⟩) hnoted
      (List.append_ne_nil_of_right_ne_nil data hline)
    simp only [Effect.exec_bind_ok hnote, hflush]
    rw [hstore]
    refine .written _ data hfound (consistent_modify horder _) fun k => ?_
    rw [append, buffer?_modify horder hlive, hbuffers, hbuffers, if_pos rfl]
    split <;> rfl

/-! ## What a note depends on, and what it changes -/

theorem atOpening_congr (hw : IsTidy w) (hw' : IsTidy w') (htakes : w.store.Takes (storageKey key))
    (h : SameSession key w w') : atOpening key w = atOpening key w' := by
  rw [atOpening, atOpening, h.buffer, get_congr hw.store hw'.store htakes h.stored]

/-- **A note** depends on the session alone, and so does what it leaves there. -/
theorem noteIn_congr (hw : IsTidy w) (hw' : IsTidy w') (htakes : w.store.Takes (storageKey key))
    (h : SameSession key w w') (hline : line ≠ []) :
    ((noteIn key line).exec w).1 = ((noteIn key line).exec w').1 ∧
      SameSession key ((noteIn key line).exec w).2 ((noteIn key line).exec w').2 := by
  have hfound := atOpening_congr hw hw' htakes h
  have hnoted := noted_noteIn hw key hline
  have hnoted' := noted_noteIn hw' key hline
  generalize (noteIn key line).exec w = answer at hnoted ⊢
  generalize (noteIn key line).exec w' = answer' at hnoted' ⊢
  obtain ⟨a, v⟩ := answer
  obtain ⟨a', v'⟩ := answer'
  -- both openings come to the same, so a note that is refused here is not written there
  cases hnoted with
  | refused e r cause order buffers =>
    cases hnoted' with
    | refused e' r' cause' order' buffers' =>
      rw [cause, cause'] at hfound
      obtain rfl := Except.error.inj hfound
      exact ⟨rfl, (buffers key).trans (h.buffer.trans (buffers' key).symm), h.stored⟩
    | written r' data' opened' order' buffers' =>
      rw [cause, opened'] at hfound
      cases hfound
  | written r data opened order buffers =>
    cases hnoted' with
    | refused e' r' cause' order' buffers' =>
      rw [opened, cause'] at hfound
      cases hfound
    | written r' data' opened' order' buffers' =>
      rw [opened, opened'] at hfound
      obtain rfl := Except.ok.inj hfound
      obtain ⟨hanswer, hstored⟩ := put_congr hw.store hw'.store htakes h.stored (data ++ line)
      refine ⟨hanswer, ?_, hstored⟩
      rw [buffers, buffers', if_pos rfl, if_pos rfl]

/-- **A note** changes the session alone. -/
theorem onlySession_noteIn (hw : IsTidy w) (key : String) (hline : line ≠ []) :
    OnlySession key w ((noteIn key line).exec w).2 := by
  have hnoted := noted_noteIn hw key hline
  generalize (noteIn key line).exec w = answer at hnoted ⊢
  obtain ⟨a, v⟩ := answer
  cases hnoted with
  | refused e r cause order buffers => exact ⟨fun _ => ⟨order, hw.store⟩, fun k _ => buffers k, .refl _ _⟩
  | written r data opened order buffers =>
    have honly := onlyAt_put hw.store (storageKey key) (data ++ line)
    refine ⟨fun _ => ⟨order, honly.tidy hw.store⟩, fun k hk => ?_, honly⟩
    rw [buffers, if_neg hk]

end Syndication.Session
