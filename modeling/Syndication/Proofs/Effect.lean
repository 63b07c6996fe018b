import Syndication.Effect

/-!
# Proofs.Effect — what a step does, read off its parts

Each combinator of steps has one equation for `exec`. They are `simp` lemmas that run a program
symbolically: a sequence becomes a case distinction on the answer of its first step, and a step on a
part of a state leaves the rest as it was.

## Contents
* `toOption_eq_some`, `isOk_map`     — answers that succeed
* `exec_pure`, `exec_bind`, `exec_map`, `exec_throw`, `exec_get`, `exec_ofFun`, `exec_on`,
  `exec_settle`, `exec_liftM`
* `exec_bind_ok`                     — sequences whose first answer is known
* `exec_settle_bind`                 — a settled step in front of a sequence
* `ReadOnly`                         — steps that leave the state as it is
* `Leads`                            — steps that lead to a related state
-/

namespace Syndication.Effect

variable {σ τ α β : Type}

/-- An answer that succeeds is the value that is left when failures are dropped. -/
theorem toOption_eq_some {ε : Type} {x : Except ε α} {a : α} : x.toOption = some a ↔ x = .ok a := by
  cases x <;> simp [Except.toOption]

theorem isOk_map {ε : Type} (f : α → β) (x : Except ε α) : (x.map f).isOk = x.isOk := by
  cases x <;> rfl

@[simp] theorem exec_pure (a : α) (s : σ) : exec (pure a : Effect σ α) s = (.ok a, s) := rfl

@[simp] theorem exec_throw (e : Error) (s : σ) :
    exec (throw e : Effect σ α) s = (.error e, s) := rfl

@[simp] theorem exec_get (s : σ) : exec (get : Effect σ σ) s = (.ok s, s) := rfl

@[simp] theorem exec_ofFun (f : σ → Except Error α × σ) (s : σ) : exec (ofFun f) s = f s := rfl

/-- **Sequences.** The second step runs on what the first one leaves, unless that one fails. -/
@[simp] theorem exec_bind (m : Effect σ α) (f : α → Effect σ β) (s : σ) :
    exec (m >>= f) s =
      match exec m s with
      | (.ok a, s') => exec (f a) s'
      | (.error e, s') => (.error e, s') := by
  have hrun : exec (m >>= f) s = (ExceptT.bindCont f (exec m s).1 : StateM σ _) (exec m s).2 := rfl
  rw [hrun]
  rcases exec m s with ⟨r, s'⟩
  cases r <;> rfl

theorem exec_bind_ok {m : Effect σ α} {f : α → Effect σ β} {s s' : σ} {a : α}
    (h : exec m s = (.ok a, s')) : exec (m >>= f) s = exec (f a) s' := by
  rw [exec_bind, h]

@[simp] theorem exec_on (get : σ → τ) (put : σ → τ → σ) (m : Effect τ α) (s : σ) :
    exec (on get put m) s = ((exec m (get s)).1, put s (exec m (get s)).2) := rfl

@[simp] theorem exec_settle (m : Effect σ α) (s : σ) :
    exec m.settle s = (.ok (exec m s).1, (exec m s).2) := rfl

/-- A settled step never fails: what follows it runs on the state it leaves. -/
theorem exec_settle_bind (m : Effect σ α) (f : Except Error α → Effect σ β) (s : σ) :
    exec (m.settle >>= f) s = exec (f (exec m s).1) (exec m s).2 := by
  rw [exec_bind, exec_settle]

@[simp] theorem exec_map (f : α → β) (m : Effect σ α) (s : σ) :
    exec (f <$> m) s =
      match exec m s with
      | (.ok a, s') => (.ok (f a), s')
      | (.error e, s') => (.error e, s') := by
  rw [← bind_pure_comp, exec_bind]
  rcases exec m s with ⟨e | a, s'⟩ <;> rfl

/-- The answer changed, the state is that of the step. -/
theorem exec_map_eq (f : α → β) (m : Effect σ α) (s : σ) :
    exec (f <$> m) s = ((exec m s).1.map f, (exec m s).2) := by
  rw [exec_map]
  rcases exec m s with ⟨e | a, s'⟩ <;> rfl

/-- An answer that is computed from nothing leaves the state as it is. -/
@[simp] theorem exec_liftM (x : Except Error α) (s : σ) :
    exec (liftM x : Effect σ α) s = (x, s) := rfl

/-! ## Steps that only read -/

/-- The step leaves every state as it is. -/
def ReadOnly (m : Effect σ α) : Prop := ∀ s, (exec m s).2 = s

namespace ReadOnly

theorem pure (a : α) : ReadOnly (Pure.pure a : Effect σ α) := fun _ => rfl

theorem throw (e : Error) : ReadOnly (MonadExcept.throw e : Effect σ α) := fun _ => rfl

theorem liftM (x : Except Error α) : ReadOnly (MonadLiftT.monadLift x : Effect σ α) := fun _ => rfl

/-- Sequences of steps that only read. -/
theorem bind {m : Effect σ α} {f : α → Effect σ β} (hm : ReadOnly m) (hf : ∀ a, ReadOnly (f a)) :
    ReadOnly (m >>= f) := by
  intro s
  have hs := hm s
  rw [exec_bind]
  rcases h : exec m s with ⟨e | a, s'⟩
  · rwa [h] at hs
  · rw [h] at hs
    obtain rfl : s' = s := hs
    exact hf a s'

/-- What is answered after a step that only reads depends on what that step answers, and no more on the
state than what comes after it does. -/
theorem fst_bind_congr {m : Effect σ α} {f : α → Effect σ β} (hm : ReadOnly m) {s t : σ}
    (hanswer : (exec m s).1 = (exec m t).1) (hf : ∀ a, (exec (f a) s).1 = (exec (f a) t).1) :
    (exec (m >>= f) s).1 = (exec (m >>= f) t).1 := by
  have hs := hm s
  have ht := hm t
  rw [exec_bind, exec_bind]
  rcases hexec : exec m s with ⟨e | a, s'⟩ <;> rcases hexec' : exec m t with ⟨e' | a', t'⟩ <;>
    rw [hexec] at hs hanswer <;> rw [hexec'] at ht hanswer
  · exact congrArg Except.error (Except.error.inj hanswer)
  · cases hanswer
  · cases hanswer
  · obtain rfl := Except.ok.inj hanswer
    obtain rfl : s' = s := hs
    obtain rfl : t' = t := ht
    exact hf a

end ReadOnly

/-! ## Steps that lead to a related state -/

/-- Wherever the step starts, `R` relates the state to the one that it leaves. -/
def Leads (R : σ → σ → Prop) (m : Effect σ α) : Prop := ∀ s, R s (exec m s).2

namespace Leads

variable {R : σ → σ → Prop}

theorem settle {m : Effect σ α} (h : Leads R m) : Leads R m.settle := h

/-- Sequences, for a relation that can be chained. -/
theorem bind (htrans : ∀ ⦃s t u⦄, R s t → R t u → R s u) {m : Effect σ α} {f : α → Effect σ β}
    (hm : Leads R m) (hf : ∀ a, Leads R (f a)) : Leads R (m >>= f) := by
  intro s
  have hfirst := hm s
  rw [exec_bind]
  rcases h : exec m s with ⟨e | a, t⟩
  · rwa [h] at hfirst
  · rw [h] at hfirst
    exact htrans hfirst (hf a t)

end Leads

end Syndication.Effect
