import Mathlib.Tactic.Common

/-! Runs of a labelled transition system, restricted to steps that start as a
condition on the state and the label says. -/
namespace Strace.Runs

variable {σ μ : Type} {init : σ → Prop} {step : σ → μ → σ → Prop} {ok : σ → μ → Prop}

inductive Run (init : σ → Prop) (step : σ → μ → σ → Prop) (ok : σ → μ → Prop) : σ → Prop
  | start {s : σ} : init s → Run init step ok s
  | next {s s' : σ} {x : μ} : Run init step ok s → ok s x → step s x s' → Run init step ok s'

theorem Run.invariant {P : σ → Prop} (base : ∀ s, init s → P s)
    (kept : ∀ s x s', P s → ok s x → step s x s' → P s') {s : σ} (run : Run init step ok s) :
      P s := by
  induction run with
  | start initial => exact base _ initial
  | next _ meets moved ih => exact kept _ _ _ ih meets moved

end Strace.Runs
