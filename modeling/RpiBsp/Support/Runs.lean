import Mathlib.Algebra.GroupWithZero.Nat
import Mathlib.Algebra.Ring.Int.Defs
import Mathlib.Order.CompletePartialOrder
import Mathlib.Tactic.Common

/-!
# Support — runs

A system whose parties take turns in any order: `step s e` is what the action `e` does in the state
`s`, if it can be taken there.  A run is a list of actions, so a statement about every list is one
about every interleaving.

* `run`, `Reachable` — a run from a state, and what runs lead to;
* `Reachable.invariant` — what holds at the start and is kept by each action holds wherever a run
leads;
* `Reachable.leads` — where some action always comes nearer to a goal, some run leads there.
-/

namespace Support

variable {σ ε : Type*} {step : σ → ε → Option σ}

/-- The actions of a list, one after the other. -/
def run (step : σ → ε → Option σ) : σ → List ε → Option σ
  | s, [] => some s
  | s, e :: es => (step s e).bind fun s => run step s es

/-- Some run leads from `s` to `t`. -/
def Reachable (step : σ → ε → Option σ) (s t : σ) : Prop := ∃ es, run step s es = some t

theorem run_cons_eq_some {s t : σ} {e : ε} {es : List ε} :
    run step s (e :: es) = some t ↔ ∃ u, step s e = some u ∧ run step u es = some t := by
  rw [run, Option.bind_eq_some_iff]

theorem Reachable.refl (s : σ) : Reachable step s s := ⟨[], rfl⟩

theorem Reachable.head {s u t : σ} {e : ε} (h : step s e = some u) (hr : Reachable step u t) :
    Reachable step s t := by
  obtain ⟨es, hes⟩ := hr
  exact ⟨e :: es, run_cons_eq_some.mpr ⟨u, h, hes⟩⟩

/-- An invariant of every action is one of every run. -/
theorem Reachable.invariant {I : σ → Prop} (hstep : ∀ s e t, I s → step s e = some t → I t)
    {s t : σ} (h : Reachable step s t) (hs : I s) : I t := by
  obtain ⟨es, hes⟩ := h
  induction es generalizing s with
  | nil =>
      cases hes
      exact hs
  | cons e es ih =>
      obtain ⟨u, hu, hrest⟩ := run_cons_eq_some.mp hes
      exact ih (hstep s e u hs hu) hrest

/-- If, outside the goal, some action keeps `I` and makes `μ` smaller, then the goal can be
reached. -/
theorem Reachable.leads {I G : σ → Prop} (μ : σ → ℕ)
    (hstep : ∀ s, I s → ¬ G s → ∃ e t, step s e = some t ∧ I t ∧ μ t < μ s) {s : σ} (hs : I s) :
    ∃ t, Reachable step s t ∧ I t ∧ G t := by
  induction hn : μ s using Nat.strong_induction_on generalizing s with
  | _ n ih =>
      subst hn
      by_cases hG : G s
      · exact ⟨s, .refl s, hs, hG⟩
      · obtain ⟨e, u, hu, hI, hlt⟩ := hstep s hs hG
        obtain ⟨t, hr, ht⟩ := ih (μ u) hlt hI rfl
        exact ⟨t, .head hu hr, ht⟩

end Support
