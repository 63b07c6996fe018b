import Syndication.Api
import Syndication.Proofs.Pipeline.Run

/-!
# Proofs.Pipeline.Passes — what the programs do is made of steps

A worker takes a batch and handles it message by message; a trigger worker considers one trigger after
the other for each event of its batch. Either pass, when nothing comes in between, is a run of the
pipeline, and so is a request to post something, of which any instant that could be read is one of the
calendar. So what holds after every step of every run holds after every pass and every request.

## Contents
* `IsRun`                                   — a program that succeeds and is a run
* `isRun_workerPass`, `isRun_firingPass`
* `run_submitPost`                          — a request to post something
-/

namespace Syndication.Pipeline

variable {p : Pipeline} {α β : Type}

/-- The program succeeds on the state of the service, and what it does is a run. What is held stays
held, and posts may be accepted. -/
def IsRun (p : Pipeline) (program : Effect Service α) : Prop :=
  ∃ a s posts, program.exec p.service = (.ok a, s) ∧ Run p { p with service := s, posts := posts }

namespace IsRun

theorem pure (a : α) : IsRun p (Pure.pure a) := ⟨a, p.service, p.posts, rfl, .refl⟩

theorem get : IsRun p (MonadState.get : Effect Service Service) :=
  ⟨p.service, p.service, p.posts, rfl, .refl⟩

/-- One program after the other. -/
theorem bind {m : Effect Service α} {f : α → Effect Service β} (hm : IsRun p m)
    (hf : ∀ a s posts, IsRun { p with service := s, posts := posts } (f a)) : IsRun p (m >>= f) := by
  obtain ⟨a, s, posts, hexec, hrun⟩ := hm
  obtain ⟨b, s', posts', hexec', hrun'⟩ := hf a s posts
  refine ⟨b, s', posts', ?_, hrun.trans hrun'⟩
  rw [Effect.exec_bind_ok hexec]
  exact hexec'

/-- A step, whatever its answer. -/
theorem settle {m : Effect Service α} {posts : List (String × PostContent)}
    (hstep : Step p { p with service := (m.exec p.service).2, posts := posts }) : IsRun p m.settle :=
  ⟨_, _, posts, Effect.exec_settle m p.service, .single hstep⟩

/-- A step that answers. -/
theorem step {m : Effect Service α} {a : α} {posts : List (String × PostContent)}
    (hexec : m.exec p.service = (.ok a, (m.exec p.service).2))
    (hstep : Step p { p with service := (m.exec p.service).2, posts := posts }) : IsRun p m :=
  ⟨a, _, posts, hexec, .single hstep⟩

end IsRun

/-! ## Workers -/

theorem isRun_handleAll {batch : List Held} (h : ∀ m ∈ batch, m ∈ p.deliveries) :
    IsRun p (Worker.handleAll batch) := by
  induction batch generalizing p with
  | nil => exact .pure []
  | cons m batch ih =>
    rw [List.forall_mem_cons] at h
    have hfirst : IsRun p (Worker.handle m).settle := .settle (.work p m h.1)
    apply hfirst.bind
    intro outcome s posts
    have hrest : IsRun { p with service := s, posts := posts } (Worker.handleAll batch) := ih h.2
    exact hrest.bind fun _ _ _ => .pure _

/-- **A pass of a worker** is a run in which the worker takes messages and handles each of them. -/
theorem isRun_workerPass (p : Pipeline) :
    ∃ n s p', (Worker.runOnce).exec p.service = (.ok n, s) ∧ Run p p' ∧ p'.service = s := by
  have htake := Step.takeDeliveries p p.service.settings.batchSize p.service.settings.visibilityTimeout
  -- what is handled is what has just been taken
  obtain ⟨outcomes, s, posts, hexec, hrun⟩ := isRun_handleAll (p := { p with
      service := ((Service.dequeue MessageTable.deliveryQueue p.service.settings.batchSize
        p.service.settings.visibilityTimeout).exec p.service).2
      deliveries := p.deliveries ++ (p.service.messages.dequeue MessageTable.deliveryQueue
        p.service.now p.service.settings.batchSize p.service.settings.visibilityTimeout).1 })
    fun m hm => List.mem_append_right p.deliveries hm
  have hpass : ∃ n, (Worker.runOnce).exec p.service = (.ok n, s) := by
    rw [Worker.runOnce, Effect.exec_bind_ok (Effect.exec_get _),
      Effect.exec_bind_ok (Service.exec_dequeue _ _ _ _)]
    exact ⟨_, Effect.exec_bind_ok hexec⟩
  obtain ⟨n, hpass⟩ := hpass
  exact ⟨n, s, _, hpass, (Relation.ReflTransGen.single htake).trans hrun, rfl⟩

/-! ## Triggers -/

/-- Considering a trigger never fails. -/
theorem isRun_consider (e : TriggerEvent) (userId : String) (t : Trigger) :
    IsRun p (Firing.consider e userId t) := by
  have hspec := Firing.consider_spec e userId t p.service
  have hstep := Step.consider p e userId t
  generalize hanswer : (Firing.consider e userId t).exec p.service = answer at hspec hstep
  obtain ⟨result, s'⟩ := answer
  cases hspec with
  | passed result silent same => exact ⟨result, s', _, hanswer, .single hstep⟩
  | tried template result found same issuer post told same' =>
    exact ⟨result, s', _, hanswer, .single hstep⟩

theorem isRun_considerAll (e : TriggerEvent) (userId : String) (triggers : List Trigger)
    (report : FiringReport) : IsRun p (Firing.considerAll e userId report triggers) := by
  induction triggers generalizing p report with
  | nil => exact .pure report
  | cons t rest ih => exact (isRun_consider e userId t).bind fun _ _ _ => ih _

theorem isRun_considerUsers (e : TriggerEvent) (accountType : String) (users : List String)
    (report : FiringReport) : IsRun p (Firing.considerUsers e accountType report users) := by
  induction users generalizing p report with
  | nil => exact .pure report
  | cons userId rest ih =>
    apply IsRun.get.bind
    intro service _ _
    exact (isRun_considerAll e userId _ report).bind fun report _ _ => ih report

theorem isRun_process (e : TriggerEvent) : IsRun p (Firing.process e) :=
  IsRun.get.bind fun _ _ _ => isRun_considerUsers e _ _ {}

/-- An event is processed, and its message is put off or done with. -/
theorem isRun_handleEvent {m : Held} (h : m ∈ p.events) : IsRun p (Firing.handle m) := by
  have hacknowledge : ∀ (s : Service) (posts : List (String × PostContent)),
      IsRun { p with service := s, posts := posts } (Service.acknowledge m) := fun s posts =>
    .step (Service.exec_acknowledge s m) (.acknowledgeEvent { p with service := s, posts := posts } m h)
  unfold Firing.handle
  split
  · exact (hacknowledge p.service p.posts).bind fun _ _ _ => .pure _
  rename_i e _
  apply (isRun_process e).bind
  intro report s posts
  apply IsRun.get.bind
  intro service s posts
  simp only
  split
  · have hdefer : IsRun { p with service := s, posts := posts }
        (Service.defer m (service.settings.retry.interval m.dequeueCount) true) :=
      .step (Service.exec_defer s m _ true)
        (.deferEvent { p with service := s, posts := posts } m h _ true)
    exact hdefer.bind fun _ _ _ => .pure report
  · exact (hacknowledge s posts).bind fun _ _ _ => .pure report

theorem isRun_handleEvents {batch : List Held} (h : ∀ m ∈ batch, m ∈ p.events) :
    IsRun p (Firing.handleAll batch) := by
  induction batch generalizing p with
  | nil => exact .pure []
  | cons m batch ih =>
    rw [List.forall_mem_cons] at h
    obtain ⟨report, s, posts, hexec, hrun⟩ := isRun_handleEvent h.1
    have hfirst : IsRun p (Firing.handle m).settle :=
      ⟨.ok report, s, posts, by rw [Effect.exec_settle, hexec], hrun⟩
    apply hfirst.bind
    intro outcome s posts
    have hrest : IsRun { p with service := s, posts := posts } (Firing.handleAll batch) := ih h.2
    exact hrest.bind fun _ _ _ => .pure _

/-- **A pass of a trigger worker** is a run in which events are taken and their triggers considered. -/
theorem isRun_firingPass (p : Pipeline) :
    ∃ n s p', (Firing.runOnce).exec p.service = (.ok n, s) ∧ Run p p' ∧ p'.service = s := by
  have htake := Step.takeEvents p p.service.settings.batchSize p.service.settings.visibilityTimeout
  obtain ⟨reports, s, posts, hexec, hrun⟩ := isRun_handleEvents (p := { p with
      service := ((Service.dequeue MessageTable.triggerQueue p.service.settings.batchSize
        p.service.settings.visibilityTimeout).exec p.service).2
      events := p.events ++ (p.service.messages.dequeue MessageTable.triggerQueue
        p.service.now p.service.settings.batchSize p.service.settings.visibilityTimeout).1 })
    fun m hm => List.mem_append_right p.events hm
  have hpass : ∃ n, (Firing.runOnce).exec p.service = (.ok n, s) := by
    rw [Firing.runOnce, Effect.exec_bind_ok (Effect.exec_get _),
      Effect.exec_bind_ok (Service.exec_dequeue _ _ _ _)]
    exact ⟨_, Effect.exec_bind_ok hexec⟩
  obtain ⟨n, hpass⟩ := hpass
  exact ⟨n, s, _, hpass, (Relation.ReflTransGen.single htake).trans hrun, rfl⟩

/-! ## Requests -/

/-- **A request to post something** is a run, whatever its body is. -/
theorem run_submitPost (p : Pipeline) (body : Bytes) :
    ∃ p', Run p p' ∧ p'.service = (Api.submitPost body p.service).2 := by
  unfold Api.submitPost
  split
  · exact ⟨p, .refl, rfl⟩
  · rename_i request hread
    obtain ⟨j, -, hrequest⟩ := Option.bind_eq_some_iff.mp hread
    have hstep := Step.submit p request (PostRequest.inCalendar_of_ofJson? hrequest)
    refine ⟨_, .single hstep, ?_⟩
    split <;> simp only [*]

end Syndication.Pipeline
