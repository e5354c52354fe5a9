/-
# Running emissions

Emissions and computations on the disk are state transformers that may fail and
keep their state when they do. This module says what running one of them gives,
step by step, so that later proofs do not unfold the monad.

Key definitions:
* `exec`: the result of a computation and the state it leaves.
-/
import Stencil.Emit.Basic

namespace Stencil

/-- Run a computation: its result, and the state it leaves. -/
def exec {σ α : Type} (m : ExceptT CompileError (StateM σ) α) (s : σ) :
    Except CompileError α × σ := m.run.run s

section
variable {σ α β : Type}

@[simp] theorem exec_pure (a : α) (s : σ) :
    exec (pure a : ExceptT CompileError (StateM σ) α) s = (.ok a, s) := rfl

@[simp] theorem exec_throw (e : CompileError) (s : σ) :
    exec (throw e : ExceptT CompileError (StateM σ) α) s = (.error e, s) := rfl

@[simp] theorem exec_get (s : σ) :
    exec (get : ExceptT CompileError (StateM σ) σ) s = (.ok s, s) := rfl

@[simp] theorem exec_set (s' s : σ) :
    exec (set s' : ExceptT CompileError (StateM σ) PUnit) s = (.ok ⟨⟩, s') := rfl

@[simp] theorem exec_modify (f : σ → σ) (s : σ) :
    exec (modify f : ExceptT CompileError (StateM σ) PUnit) s = (.ok ⟨⟩, f s) := rfl

theorem exec_bind (m : ExceptT CompileError (StateM σ) α)
    (f : α → ExceptT CompileError (StateM σ) β) (s : σ) :
    exec (m >>= f) s =
      match exec m s with
      | (.ok a, s') => exec (f a) s'
      | (.error e, s') => (.error e, s') := by
  unfold exec
  rw [ExceptT.run_bind, StateT.run_bind]
  rcases m.run.run s with ⟨r, s'⟩
  cases r <;> rfl

/-- A sequence succeeds exactly if both parts do. -/
theorem exec_bind_eq_ok {m : ExceptT CompileError (StateM σ) α}
    {f : α → ExceptT CompileError (StateM σ) β} {s s' : σ} {b : β} :
    exec (m >>= f) s = (.ok b, s') ↔
      ∃ a t, exec m s = (.ok a, t) ∧ exec (f a) t = (.ok b, s') := by
  rw [exec_bind]
  rcases exec m s with ⟨r, t⟩
  cases r with
  | error e => simp
  | ok a =>
    refine ⟨fun h => ⟨a, t, rfl, h⟩, ?_⟩
    rintro ⟨a', t', ha, h⟩
    cases ha
    exact h

theorem exec_map (f : α → β) (m : ExceptT CompileError (StateM σ) α) (s : σ) :
    exec (f <$> m) s = ((exec m s).1.map f, (exec m s).2) := by
  unfold exec
  rw [ExceptT.run_map, StateT.run_map]
  rfl

theorem exec_map_eq_ok {f : α → β} {m : ExceptT CompileError (StateM σ) α} {s s' : σ} {b : β} :
    exec (f <$> m) s = (.ok b, s') ↔ ∃ a, exec m s = (.ok a, s') ∧ f a = b := by
  rw [exec_map]
  rcases exec m s with ⟨r, t⟩
  cases r with
  | error e => simp [Except.map]
  | ok a =>
    simp only [Except.map, Prod.mk.injEq, Except.ok.injEq]
    refine ⟨fun ⟨h, ht⟩ => ⟨a, ⟨rfl, ht⟩, h⟩, ?_⟩
    rintro ⟨a', ⟨rfl, ht⟩, h⟩
    exact ⟨h, ht⟩

end

namespace Emit

theorem exec_within {α : Type} (enter : State → State) (leave : State → State → State)
    (m : EmitM α) (s : State) :
    exec (within enter leave m) s = ((exec m (enter s)).1, leave s (exec m (enter s)).2) := rfl

theorem exec_onDisk {α : Type} (m : DiskM α) (s : State) :
    exec (onDisk m) s = ((exec m s.disk).1, { s with disk := (exec m s.disk).2 }) := rfl

theorem exec_fail {α : Type} (env : Env) (cause : Location → CompileError) (s : State) :
    exec (fail env cause : EmitM α) s = (.error (cause (.of s.pos env.source)), s) := rfl

end Emit
end Stencil
