import Mathlib.Algebra.GroupWithZero.Nat
import Mathlib.Algebra.Ring.Int.Defs
import Mathlib.Order.CompletePartialOrder
import Mathlib.Tactic.Common

/-!
# Support — rounds

`while( 1 ) { … }` over a state: a round either leaves the loop with a result or goes on.  A loop
runs on fuel, and it ends for some fuel exactly when there is no endless chain of rounds
(`rounds_ends_iff`). `do { … } while( … )` with the list of what its rounds give: `doWhile_eq`, for
a loop that is counted.
-/

namespace Support

variable {σ ρ : Type} (step : σ → ρ ⊕ σ)

/-- At most `fuel` rounds. -/
def rounds : ℕ → σ → Option ρ
  | 0, _ => none
  | fuel + 1, s =>
    match step s with
    | .inl a => some a
    | .inr s => rounds fuel s

/-- An endless chain of rounds. -/
def Endless (s : σ) : Prop := ∃ p : ℕ → σ, p 0 = s ∧ ∀ k, step (p k) = .inr (p (k + 1))

variable {step}

/-- No fuel is enough along an endless chain. -/
theorem Endless.rounds {s : σ} (h : Endless step s) (fuel : ℕ) : rounds step fuel s = none := by
  obtain ⟨p, rfl, hp⟩ := h
  have hall : ∀ k, Support.rounds step fuel (p k) = none := by
    induction fuel with
    | zero => exact fun k => rfl
    | succ fuel ih =>
        intro k
        simp only [Support.rounds, hp k]
        exact ih (k + 1)
  exact hall 0

/-- A round that goes on, if the loop does not end. -/
theorem rounds_next {s : σ} (h : ∀ fuel, rounds step fuel s = none) :
    ∃ s', step s = .inr s' ∧ ∀ fuel, rounds step fuel s' = none := by
  rcases hs : step s with a | s'
  case inl =>
    have := h 1
    simp [rounds, hs] at this
  case inr =>
    refine ⟨s', rfl, fun fuel => ?_⟩
    have := h (fuel + 1)
    simpa [rounds, hs] using this

/-- **When a loop ends.** -/
theorem rounds_ends_iff {s : σ} : (∃ fuel, rounds step fuel s ≠ none) ↔ ¬ Endless step s := by
  constructor
  · rintro ⟨fuel, hfuel⟩ hendless
    exact hfuel (hendless.rounds fuel)
  · intro h
    by_contra hno
    push Not at hno
    -- Each state that does not end has a next one: follow them.
    let next : {s : σ // ∀ fuel, rounds step fuel s = none} →
      {s : σ // ∀ fuel, rounds step fuel s = none} :=
      fun t => ⟨(rounds_next t.2).choose, (rounds_next t.2).choose_spec.2⟩
    refine h ⟨fun k => (next^[k] ⟨s, hno⟩).1, rfl, fun k => ?_⟩
    simp only [Function.iterate_succ_apply']
    exact (rounds_next (next^[k] ⟨s, hno⟩).2).choose_spec.1

/-! ### do … while -/

section DoWhile

variable {α : Type} {body : σ → Option (List α)} {next : σ → σ} {again : σ → Bool}

/-- What the rounds give, at most `fuel` of them. -/
def doWhile (body : σ → Option (List α)) (next : σ → σ) (again : σ → Bool) : ℕ → σ → Option (List α)
  | 0, _ => none
  | fuel + 1, s =>
    match body s with
    | none => none
    | some xs => if again s then (doWhile body next again fuel (next s)).map (xs ++ ·) else some xs

/-- A loop that goes through the states `v 0`, …, `v n`. -/
theorem doWhile_eq {v : ℕ → σ} {f : ℕ → List α} {n fuel : ℕ}
    (hbody : ∀ k ≤ n, body (v k) = some (f k))
    (hagain : ∀ k < n, again (v k) = true ∧ next (v k) = v (k + 1)) (hlast : again (v n) = false)
    (hfuel : n < fuel) :
    doWhile body next again fuel (v 0) = some ((List.range (n + 1)).flatMap f) := by
  induction n generalizing v f fuel with
  | zero =>
      obtain ⟨fuel, rfl⟩ := Nat.exists_eq_add_one.mpr hfuel
      rw [doWhile, hbody 0 (Nat.le_refl 0)]
      simp [hlast]
  | succ n ih =>
      obtain ⟨fuel, rfl⟩ := Nat.exists_eq_add_one.mpr (Nat.zero_lt_of_lt hfuel)
      have hrest : doWhile body next again fuel (v 1) =
          some ((List.range (n + 1)).flatMap fun k => f (k + 1)) :=
        ih (v := fun k => v (k + 1)) (f := fun k => f (k + 1))
          (fun k hk => hbody (k + 1) (by omega))
          (fun k hk => hagain (k + 1) (by omega)) hlast (by omega)
      obtain ⟨hgoes, hnext⟩ := hagain 0 (Nat.succ_pos n)
      rw [doWhile, hbody 0 (Nat.zero_le _)]
      simp only [hgoes, if_true, hnext, hrest, Option.map_some, List.range_succ_eq_map (n := n + 1),
        List.flatMap_cons, List.flatMap_map]

end DoWhile

end Support
