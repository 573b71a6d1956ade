import Mathlib.Algebra.GroupWithZero.Nat
import Mathlib.Algebra.Ring.Int.Defs
import Mathlib.Data.Option.Basic
import Mathlib.Order.CompletePartialOrder

/-!
# Support — Outcome

Taking apart what a computation in `Except` came back with.

* `bind_eq_ok` — a sequence comes back only if its parts do;
* `bind_eq_error` — it fails where its first failing part does;
* `ok_bind`, `bind_congr_ok` — after a part that came back, the rest is run;
* `toOption_eq_some` — an outcome read as an option;
* `IfOk` — a condition on the result, if there is one.
-/

namespace Support

variable {ε : Type*} {α β : Type}

theorem bind_eq_ok {x : Except ε α} {f : α → Except ε β} {b : β} :
    x >>= f = .ok b ↔ ∃ a, x = .ok a ∧ f a = .ok b := by
  cases x with
  | error e => simp [bind, Except.bind]
  | ok a => simp [bind, Except.bind]

theorem bind_eq_error {x : Except ε α} {f : α → Except ε β} {e : ε} :
    x >>= f = .error e ↔ x = .error e ∨ ∃ a, x = .ok a ∧ f a = .error e := by
  cases x with
  | error e' => simp [bind, Except.bind]
  | ok a => simp [bind, Except.bind]

theorem ok_bind (a : α) (f : α → Except ε β) : Except.ok a >>= f = f a := rfl

/-- What follows matters only where the first part came back. -/
theorem bind_congr_ok {x : Except ε α} {f g : α → Except ε β} (h : ∀ a, x = .ok a → f a = g a) :
    x >>= f = x >>= g := by
  cases x with
  | error e => rfl
  | ok a => exact h a rfl

theorem toOption_eq_some {x : Except ε α} {a : α} : x.toOption = some a ↔ x = .ok a := by
  cases x with
  | error e => simp [Except.toOption]
  | ok a => simp [Except.toOption]

/-- If the computation comes back, then with a result that meets `P`. -/
def IfOk (x : Except ε α) (P : α → Prop) : Prop := ∀ a, x = .ok a → P a

instance (x : Except ε α) (P : α → Prop) [DecidablePred P] : Decidable (IfOk x P) :=
  match x with
  | .error _ => isTrue fun _ h => nomatch h
  | .ok a => decidable_of_iff (P a) ⟨fun h _ hb => Except.ok.inj hb ▸ h, fun h => h a rfl⟩

end Support
