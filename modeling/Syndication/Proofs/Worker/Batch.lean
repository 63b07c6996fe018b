import Syndication.Proofs.Worker.Own

/-!
# Proofs.Worker.Batch — the order of a batch does not matter

Strangers are messages that have nothing in common that is written. In a batch of strangers each message
is handled as if it were alone: it finds what is its own as it was before the batch, and leaves it as it
stays. So whatever the order, the messages come to the same outcomes, and the services that are left
differ in the order of rows only.

## Contents
* `handleAllBy`, `handleAllBy_deliver`
* `Strangers`, `TouchesOnly.sameFor`
* `handleAllBy_spec`                  — each message is handled as if it were alone
* `SameButOrder`, `handleAllBy_perm`  — orders agree
-/

namespace Syndication.Worker

open ObjectStore Session Staging

/-- Handles messages one after the other, with platforms that are called in this way. -/
def handleAllBy (deliver : Deliver) : List Held → Effect Service (List (Except Error Outcome))
  | [] => pure []
  | m :: rest => do
    let outcome ← (handleBy deliver m).settle
    let others ← handleAllBy deliver rest
    return outcome :: others

theorem handleAllBy_deliver (messages : List Held) :
    handleAllBy Platform.deliver messages = handleAll messages := by
  induction messages with
  | nil => rfl
  | cons m rest ih => rw [handleAllBy, handleAll, handleBy_deliver, ih]

/-- The messages have nothing in common that is written. -/
structure Strangers (own : String → String) (x y : Task) : Prop where
  id : x.held.id ≠ y.held.id
  job : x.job.jobId ≠ y.job.jobId
  target : x.job.target ≠ y.job.target
  session : Store.Apart (Store.segments (storageKey (own x.job.target)))
    (Store.segments (storageKey (own y.job.target)))

section

variable {own : String → String} {deliver : Deliver} {x y : Task} {batch batch' : List Task}
  {s s' t u : Service}

theorem Strangers.symm (h : Strangers own x y) : Strangers own y x :=
  ⟨h.id.symm, h.job.symm, h.target.symm, h.session.symm⟩

namespace SameFor

theorem symm (h : SameFor own x s t) : SameFor own x t s where
  config := h.config.symm
  settings := h.settings.symm
  now := h.now.symm
  jobs := h.jobs.symm
  messages := h.messages.symm
  windows := h.windows.symm
  platform := h.platform.symm
  session := ⟨h.session.buffer.symm, h.session.stored.symm⟩
  lock := h.lock.symm
  content := fun name hname => (h.content name hname).symm

theorem trans (h : SameFor own x s t) (h' : SameFor own x t u) : SameFor own x s u where
  config := h.config.trans h'.config
  settings := h.settings.trans h'.settings
  now := h.now.trans h'.now
  jobs := h.jobs.trans h'.jobs
  messages := h.messages.trans h'.messages
  windows := h.windows.trans h'.windows
  platform := h.platform.trans h'.platform
  session := ⟨h.session.buffer.trans h'.session.buffer, h.session.stored.trans h'.session.stored⟩
  lock := h.lock.trans h'.lock
  content := fun name hname => (h.content name hname).trans (h'.content name hname)

end SameFor

/-- Locks of different targets stand apart. -/
theorem apart_locks (hne : x.job.target ≠ y.job.target) :
    Store.Apart (Store.segments (lockKey x.job.rootId x.job.target))
      (Store.segments (lockKey y.job.rootId y.job.target)) := by
  refine apart_contentKey x.placed.root y.placed.root (isName_lock x.placed.target)
    (isName_lock y.placed.target) fun heq => hne ?_
  exact ((lockKey_inj y.placed.root y.placed.target).mp heq).2

/-- What lies apart from locks and sessions lies apart from all that is written. -/
theorem apart_writes {key : String}
    (hlock : ∀ y ∈ batch, Store.Apart (Store.segments key)
      (Store.segments (lockKey y.job.rootId y.job.target)))
    (hsession : ∀ y ∈ batch, Store.Apart (Store.segments key)
      (Store.segments (storageKey (own y.job.target)))) :
    ∀ k ∈ batch.flatMap (Task.writes own), Store.Apart (Store.segments key) (Store.segments k) := by
  intro k hk
  obtain ⟨y, hy, hkey⟩ := List.mem_flatMap.mp hk
  rcases List.mem_pair.mp hkey with rfl | rfl
  · exact hlock y hy
  · exact hsession y hy

/-- **What strangers do** is nothing to a message. -/
theorem TouchesOnly.sameFor (h : TouchesOnly own batch s s')
    (hstrange : ∀ y ∈ batch, Strangers own x y) : SameFor own x s s' where
  config := by rw [h.work]
  settings := by rw [h.work]
  now := by rw [h.work]
  jobs := (h.jobs _ fun y hy => (hstrange y hy).job).symm
  messages := (h.messages _ fun y hy => (hstrange y hy).id).symm
  windows := (h.windows _ fun y hy => (hstrange y hy).target).symm
  platform := (h.platforms _ fun y hy => (hstrange y hy).target).symm
  session := by
    constructor
    case buffer =>
      refine (h.buffers _ fun y hy heq => (hstrange y hy).session.ne ?_).symm
      rw [heq]
    case stored =>
      apply h.store.alike
      apply apart_writes
      · exact fun _ _ => (apart_storageKey _ _ _).symm
      · exact fun y hy => (hstrange y hy).session
  lock := by
    apply h.store.alike
    apply apart_writes
    · exact fun y hy => apart_locks (hstrange y hy).target
    · exact fun _ _ => apart_storageKey _ _ _
  content := by
    intro name hname
    apply h.store.alike
    apply apart_writes
    · exact fun y _ => apart_lockKey x.placed.root hname y.placed
    · exact fun _ _ => apart_storageKey _ _ _

/-- **Each message of a batch of strangers is handled as if it were alone.** -/
theorem handleAllBy_spec (hlocal : IsLocal own deliver) (hserves : ∀ x ∈ batch, Serves own x s)
    (hstrange : batch.Pairwise (Strangers own)) :
    ∃ s', (handleAllBy deliver (batch.map Task.held)).exec s =
        (.ok (batch.map fun x => ((handleBy deliver x.held).exec s).1), s') ∧
      TouchesOnly own batch s s' ∧
      ∀ x ∈ batch, SameFor own x ((handleBy deliver x.held).exec s).2 s' := by
  induction batch generalizing s with
  | nil =>
    refine ⟨s, rfl, .refl _ _ _, ?_⟩
    intro x hx
    cases hx
  | cons x rest ih =>
    obtain ⟨hfirst, hrest⟩ := List.pairwise_cons.mp hstrange
    have honly := (confined_handleBy hlocal x).only (hserves x List.mem_cons_self)
    have hserves' : ∀ y ∈ rest, Serves own y ((handleBy deliver x.held).exec s).2 :=
      fun y hy => honly.serves (hserves y (List.mem_cons_of_mem _ hy))
    obtain ⟨s', hexec, honly', hsame⟩ := ih hserves' hrest
    -- the others find what is their own as it was before the first
    have halone : ∀ y ∈ rest,
        ((handleBy deliver y.held).exec s).1 =
          ((handleBy deliver y.held).exec ((handleBy deliver x.held).exec s).2).1 ∧
        SameFor own y ((handleBy deliver y.held).exec s).2
          ((handleBy deliver y.held).exec ((handleBy deliver x.held).exec s).2).2 := by
      intro y hy
      have hstill : SameFor own y s ((handleBy deliver x.held).exec s).2 :=
        honly.sameFor fun z hz => List.mem_singleton.mp hz ▸ (hfirst y hy).symm
      exact (confined_handleBy hlocal y).same (hserves y (List.mem_cons_of_mem _ hy)) (hserves' y hy)
        hstill
    refine ⟨s', ?_, ?_, ?_⟩
    · rw [List.map_cons, handleAllBy, Effect.exec_settle_bind, Effect.exec_bind_ok hexec]
      have houtcomes : rest.map (fun y => ((handleBy deliver y.held).exec s).1) = rest.map fun y =>
          ((handleBy deliver y.held).exec ((handleBy deliver x.held).exec s).2).1 :=
        List.map_congr_left fun y hy => (halone y hy).1
      rw [List.map_cons, houtcomes]
      rfl
    · exact (honly.mono (by simp)).trans (honly'.mono (List.subset_cons_self _ _))
    · intro y hy
      rcases List.mem_cons.mp hy with rfl | hy
      · exact honly'.sameFor hfirst
      · exact (halone y hy).2.trans (hsame y hy)

/-! ## Orders agree -/

/-- The services are the same but for the order of rows: they have the same records, messages and budget
windows, the same objects, the same platforms, and open sessions with the same buffers. -/
structure SameButOrder (s t : Service) : Prop where
  work : OnlyWork s t
  jobs : s.jobs.records.Perm t.jobs.records
  messages : s.messages.messages.Perm t.messages.messages
  nextId : s.messages.nextId = t.messages.nextId
  nextReceipt : s.messages.nextReceipt = t.messages.nextReceipt
  windows : s.windows.windows.Perm t.windows.windows
  platforms : ∀ id, s.platforms.get? id = t.platforms.get? id
  buffers : ∀ key, buffer? s.sessions key = buffer? t.sessions key
  objects : ∀ key, s.store.find? key = t.store.find? key

theorem OnlyWork.symm (h : OnlyWork s s') : OnlyWork s' s := by
  unfold OnlyWork at h ⊢
  rw [h]

/-- What is the own of one message is the same, and so is what is nobody's. -/
theorem agree_of_owners {κ γ : Type} {view view' : κ → γ} (key : Task → κ)
    (hown : ∀ x ∈ batch, view (key x) = view' (key x))
    (hrest : ∀ k, (∀ x ∈ batch, k ≠ key x) → view k = view' k) (k : κ) : view k = view' k := by
  by_cases h : ∃ x ∈ batch, k = key x
  · obtain ⟨x, hx, rfl⟩ := h
    exact hown x hx
  · exact hrest k fun x hx heq => h ⟨x, hx, heq⟩

/-- Services in which the same is left of each message's own, and nothing else was touched. -/
theorem sameButOrder (ht : TouchesOnly own batch s t) (hu : TouchesOnly own batch s u)
    (hsame : ∀ x ∈ batch, SameFor own x t u) : SameButOrder t u := by
  have hjobs : ∀ k, t.jobs.part k = u.jobs.part k :=
    agree_of_owners _ (fun x hx => (hsame x hx).jobs) fun k hk => (ht.jobs k hk).trans (hu.jobs k hk).symm
  have hmessages : ∀ id, t.messages.part id = u.messages.part id :=
    agree_of_owners _ (fun x hx => (hsame x hx).messages) fun id hid =>
      (ht.messages id hid).trans (hu.messages id hid).symm
  have hwindows : ∀ k, t.windows.part k = u.windows.part k :=
    agree_of_owners _ (fun x hx => (hsame x hx).windows) fun k hk =>
      (ht.windows k hk).trans (hu.windows k hk).symm
  refine ⟨ht.work.symm.trans hu.work, ?_, ?_, ?_, ?_, ?_, ?_, ?_, ?_⟩
  -- tables that agree part by part have the same rows, in whatever order
  · exact perm_of_parts JobRecord.jobId fun k => congrArg JobTable.records (hjobs k)
  · exact perm_of_parts Message.id fun id => congrArg MessageTable.messages (hmessages id)
  · show (t.messages.part 0).nextId = (u.messages.part 0).nextId
    rw [hmessages]
  · show (t.messages.part 0).nextReceipt = (u.messages.part 0).nextReceipt
    rw [hmessages]
  · exact perm_of_parts RateWindow.target fun k => congrArg RateWindows.windows (hwindows k)
  · exact agree_of_owners _ (fun x hx => (hsame x hx).platform) fun k hk =>
      (ht.platforms k hk).trans (hu.platforms k hk).symm
  · exact agree_of_owners _ (fun x hx => (hsame x hx).session.buffer) fun k hk =>
      (ht.buffers k hk).trans (hu.buffers k hk).symm
  · intro k
    by_cases h : k ∈ batch.flatMap (Task.writes own)
    · obtain ⟨x, hx, hkey⟩ := List.mem_flatMap.mp h
      rcases List.mem_pair.mp hkey with rfl | rfl
      · exact (hsame x hx).lock.find?_eq
      · exact (hsame x hx).session.stored.find?_eq
    · exact (ht.store.find k h).trans (hu.store.find k h).symm

/-- **The order of a batch of strangers does not matter.** Each message comes to what it comes to alone,
and the services that are left differ in the order of rows only. -/
theorem handleAllBy_perm (hlocal : IsLocal own deliver) (hserves : ∀ x ∈ batch, Serves own x s)
    (hstrange : batch.Pairwise (Strangers own)) (hperm : batch'.Perm batch) :
    ∃ t u, (handleAllBy deliver (batch.map Task.held)).exec s =
        (.ok (batch.map fun x => ((handleBy deliver x.held).exec s).1), t) ∧
      (handleAllBy deliver (batch'.map Task.held)).exec s =
        (.ok (batch'.map fun x => ((handleBy deliver x.held).exec s).1), u) ∧
      SameButOrder t u := by
  have hserves' : ∀ x ∈ batch', Serves own x s := fun x hx => hserves x (hperm.subset hx)
  have hstrange' : batch'.Pairwise (Strangers own) :=
    (hperm.pairwise_iff fun h => h.symm).mpr hstrange
  obtain ⟨t, hexec, ht, hsame⟩ := handleAllBy_spec hlocal hserves hstrange
  obtain ⟨u, hexec', hu, hsame'⟩ := handleAllBy_spec hlocal hserves' hstrange'
  refine ⟨t, u, hexec, hexec', sameButOrder ht (hu.mono hperm.subset) fun x hx => ?_⟩
  exact (hsame x hx).symm.trans (hsame' x (hperm.symm.subset hx))

end

end Syndication.Worker
