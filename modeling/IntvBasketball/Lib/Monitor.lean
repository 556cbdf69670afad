/-
  Threads that share a mutex. A step is what one thread does from taking the mutex to
  giving it back (or what happens outside: a timer, the network); it may be disabled. A
  run is any sequence of enabled steps, so the order of the threads is arbitrary.

  A timed wait on a condition variable gives the mutex back. It ends by a notification or
  by its timeout, whichever is first, and returns once it has the mutex again.

  Proved, for every step function:
  * `runs_rule`: what holds at the start and is kept by every step holds after every run.
  * `runs_rule_along`: the same for the runs whose steps all meet a condition on the
    state before the step.
-/
import Mathlib.Data.List.Basic
import Mathlib.Data.List.Induction
import Mathlib.Tactic.Common

namespace IntvBasketball.Lib

/-- A timed wait: asleep, or over and on its way to the mutex. -/
inductive Wait where
  | waiting
  | signalled
  | expired
deriving DecidableEq, Repr

/-- A notification. A wait that has timed out is no longer listening. -/
def Wait.notify : Wait → Wait
  | .waiting => .signalled
  | w => w

variable {σ α : Type} {step : σ → α → Option σ}

/-- Take the steps in order; `none` if one of them is not enabled. -/
def runs (step : σ → α → Option σ) : List α → σ → Option σ
  | [], s => some s
  | a :: as, s => (step s a).bind (runs step as)

/-- Every step of the run meets `C` in the state before it. -/
def Along (step : σ → α → Option σ) (C : σ → α → Prop) (as : List α) (s : σ) : Prop :=
  ∀ pre a suf, as = pre ++ a :: suf → ∀ t, runs step pre s = some t → C t a

theorem runs_append (as bs : List α) (s : σ) :
    runs step (as ++ bs) s = (runs step as s).bind (runs step bs) := by
  induction as generalizing s with
  | nil => rfl
  | cons a as ih =>
    simp only [List.cons_append, runs, Option.bind_assoc]
    congr 1
    funext t
    exact ih t

theorem runs_snoc {as : List α} {a : α} {s s' : σ} :
    runs step (as ++ [a]) s = some s' ↔
      ∃ t, runs step as s = some t ∧ step t a = some s' := by
  rw [runs_append, Option.bind_eq_some_iff]
  simp only [runs, Option.bind_fun_some]

theorem runs_rule_along {C : σ → α → Prop} {P : List α → σ → Prop} {s₀ : σ} (h0 : P [] s₀)
    (hstep : ∀ as s a s', P as s → C s a → step s a = some s' → P (as ++ [a]) s')
    {as : List α} {s : σ} (hc : Along step C as s₀) (h : runs step as s₀ = some s) : P as s := by
  induction as using List.reverseRecOn generalizing s with
  | nil =>
    cases h
    exact h0
  | append_singleton as a ih =>
    obtain ⟨t, hrun, ht⟩ := runs_snoc.mp h
    have hpre : Along step C as s₀ := by
      intro pre b suf hs t' ht'
      apply hc pre b (suf ++ [a]) _ t' ht'
      rw [hs, List.append_assoc, List.cons_append]
    exact hstep as t a s (ih hpre hrun) (hc as a [] rfl t hrun) ht

theorem runs_rule {P : List α → σ → Prop} {s₀ : σ} (h0 : P [] s₀)
    (hstep : ∀ as s a s', P as s → step s a = some s' → P (as ++ [a]) s')
    {as : List α} {s : σ} (h : runs step as s₀ = some s) : P as s :=
  runs_rule_along (C := fun _ _ => True) h0 (fun as s a s' hp _ => hstep as s a s' hp)
    (fun _ _ _ _ _ _ => trivial) h

end IntvBasketball.Lib
