import Syndication.Platform.Registry
import Syndication.Proofs.Session.Own

/-!
# Proofs.Platform.Own — a platform answers from what is its own

A platform is local when its answer to a delivery depends on the delivery, on what the platform has
become through its own earlier calls, and on its own session, and when a delivery writes no session but
that one. Mocks and hooks are local: a mock notes jobs in a session under its identifier, and a hook
keeps none.

## Contents
* `IsLocal`             — deliveries that depend on what is the platform's own
* `isLocal_deliver`     — mocks and hooks
-/

namespace Syndication

open Session

/-- A way to deliver: the answer to a delivery that may take so long, and what the call leaves of the
platform and the sessions. -/
abbrev Deliver := Platform → Delivery → Span → SessionWorld → DeliveryResult × Platform × SessionWorld

/-- **Platforms are local**: the answer to a delivery, and what the call leaves of the platform and of its
session, depend on the delivery, the platform and its session. No other session is written. -/
structure IsLocal (own : String → String) (deliver : Deliver) : Prop where
  id : ∀ p d limit w, (deliver p d limit w).2.1.id = p.id
  same : ∀ p d limit {w w'}, IsTidy w → IsTidy w' → w.store.Takes (storageKey (own p.id)) →
    SameSession (own p.id) w w' →
      (deliver p d limit w).1 = (deliver p d limit w').1 ∧
      (deliver p d limit w).2.1 = (deliver p d limit w').2.1 ∧
      SameSession (own p.id) (deliver p d limit w).2.2 (deliver p d limit w').2.2
  only : ∀ p d limit {w}, IsTidy w → OnlySession (own p.id) w (deliver p d limit w).2.2

namespace Mock

variable {m : Mock} {w w' : SessionWorld}

/-- The note of a job. -/
def line (jobId : String) : Bytes := Utf8.encode jobId ++ [0x0A]

theorem line_ne_nil (jobId : String) : line jobId ≠ [] :=
  List.append_ne_nil_of_right_ne_nil _ (List.cons_ne_nil _ _)

theorem note_eq (m : Mock) (jobId : String) :
    m.note jobId = if m.recordsSession then noteIn m.sessionKey (line jobId) else pure () := by
  unfold note
  split <;> rfl

theorem note_congr (jobId : String) (hw : IsTidy w) (hw' : IsTidy w')
    (htakes : w.store.Takes (storageKey m.sessionKey)) (h : SameSession m.sessionKey w w') :
    ((m.note jobId).exec w).1 = ((m.note jobId).exec w').1 ∧
      SameSession m.sessionKey ((m.note jobId).exec w).2 ((m.note jobId).exec w').2 := by
  rw [note_eq]
  split
  · exact noteIn_congr hw hw' htakes h (line_ne_nil jobId)
  · exact ⟨rfl, h⟩

theorem onlySession_note (jobId : String) (hw : IsTidy w) :
    OnlySession m.sessionKey w ((m.note jobId).exec w).2 := by
  rw [note_eq]
  split
  · exact onlySession_noteIn hw _ (line_ne_nil jobId)
  · exact .refl _ _

/-- A mock's answer, and what the call leaves of the mock. -/
theorem deliver_congr (d : Delivery) (limit : Span) (hw : IsTidy w) (hw' : IsTidy w')
    (htakes : w.store.Takes (storageKey m.sessionKey)) (h : SameSession m.sessionKey w w') :
    (m.deliver d limit w).1 = (m.deliver d limit w').1 ∧
      (m.deliver d limit w).2.1 = (m.deliver d limit w').2.1 ∧
      SameSession m.sessionKey (m.deliver d limit w).2.2 (m.deliver d limit w').2.2 := by
  obtain ⟨hanswer, hsession⟩ := note_congr d.job.jobId hw hw' htakes h
  simp only [deliver]
  split
  · exact ⟨rfl, rfl, h⟩
  split
  · exact ⟨rfl, rfl, h⟩
  rcases hexec : (m.note d.job.jobId).exec w with ⟨e | ⟨⟩, v⟩ <;>
    rcases hexec' : (m.note d.job.jobId).exec w' with ⟨e' | ⟨⟩, v'⟩ <;>
    rw [hexec, hexec'] at hanswer hsession
  · obtain rfl := Except.error.inj hanswer
    exact ⟨rfl, rfl, hsession⟩
  · cases hanswer
  · cases hanswer
  · exact ⟨rfl, rfl, hsession⟩

theorem onlySession_deliver (d : Delivery) (limit : Span) (hw : IsTidy w) :
    OnlySession m.sessionKey w (m.deliver d limit w).2.2 := by
  have hnote := onlySession_note (m := m) d.job.jobId hw
  simp only [deliver]
  split
  · exact .refl _ _
  split
  · exact .refl _ _
  split
  · rename_i hexec
    rwa [hexec] at hnote
  · rename_i hexec
    rwa [hexec] at hnote

theorem id_deliver (m : Mock) (d : Delivery) (limit : Span) (w : SessionWorld) :
    (m.deliver d limit w).2.1.id = m.id := by
  simp only [deliver]
  split
  · rfl
  split
  · rfl
  split <;> rfl

end Mock

theorem Hook.id_deliver (h : Hook) (d : Delivery) (limit : Span) : (h.deliver d limit).2.id = h.id := by
  unfold Hook.deliver
  split
  · rfl
  simp only
  split
  · rfl
  split
  · rfl
  split
  · rfl
  split <;> rfl

namespace Platform

/-- The session under the identifier of a platform. -/
def ownSession (id : String) : String := "mock/" ++ id

/-- **Mocks and hooks are local.** -/
theorem isLocal_deliver : IsLocal ownSession Platform.deliver where
  id := by
    intro p d limit w
    cases p with
    | mock m => exact m.id_deliver d limit w
    | hook h => exact h.id_deliver d limit
  same := by
    intro p d limit w w' hw hw' htakes h
    cases p with
    | mock m =>
      obtain ⟨hanswer, hplatform, hsession⟩ := m.deliver_congr d limit hw hw' htakes h
      exact ⟨hanswer, congrArg Platform.mock hplatform, hsession⟩
    | hook _ => exact ⟨rfl, rfl, h⟩
  only := by
    intro p d limit w hw
    cases p with
    | mock m => exact m.onlySession_deliver d limit hw
    | hook _ => exact .refl _ _

end Platform

end Syndication
