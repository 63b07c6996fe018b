import Syndication.Error

/-!
# Effect — steps that change a state and may fail

A step takes a state to an answer and a state. When it fails, the state it leaves is the one reached
so far: what was done before the failure stays done, since the stores a step writes to have no
common transaction.

## Contents
* `Effect σ α`   — a step over states `σ`
* `Effect.on`    — a step on a part of a larger state
* `Effect.settle` — a step with its failure as an answer
-/

namespace Syndication

/-- A step over states `σ` that answers with `α` or fails. -/
abbrev Effect (σ α : Type) := ExceptT Error (StateM σ) α

namespace Effect

/-- The answer of a step and the state it leaves. -/
def exec {σ α : Type} (m : Effect σ α) (s : σ) : Except Error α × σ := m.run.run s

/-- The step that a function from states to answers and states describes. -/
def ofFun {σ α : Type} (f : σ → Except Error α × σ) : Effect σ α := fun s => f s

/-- A step on the part of a state that `get` reads and `put` replaces. -/
def on {σ τ α : Type} (get : σ → τ) (put : σ → τ → σ) (m : Effect τ α) : Effect σ α :=
  ofFun fun s => let (r, t) := m.exec (get s); (r, put s t)

/-- The step with its failure, if any, as an answer. -/
def settle {σ α : Type} (m : Effect σ α) : Effect σ (Except Error α) :=
  ofFun fun s => let (r, s) := m.exec s; (.ok r, s)

end Effect
end Syndication
