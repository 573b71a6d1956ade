import Mathlib.Algebra.GroupWithZero.Nat
import Mathlib.Algebra.Ring.Int.Defs
import Mathlib.Order.CompletePartialOrder
import Mathlib.Tactic.Common

/-!
# Support — computations that can be cut off

`Steps σ α` is a computation over a state that says, besides its result, which states it went
through.  Power can go at each of them, so what must hold then is a statement about all of them.

* `result` — what a computation that is not cut off gives, with one equation for each way of
building one;
* `within` — a computation over a part of the state;
* `Holds` — what is true of every state on the way and of the result, with one rule for each way of
building one.
-/

namespace Support

/-- A value, the last state, and the states on the way: one for each elementary step. -/
def Steps (σ α : Type) : Type := σ → α × σ × List σ

namespace Steps

variable {σ τ α β : Type}

instance : Monad (Steps σ) where
  pure a := fun s => (a, s, [])
  bind x f := fun s =>
    ((f (x s).1 (x s).2.1).1, (f (x s).1 (x s).2.1).2.1, (x s).2.2 ++ (f (x s).1 (x s).2.1).2.2)

/-- The state as it is. -/
def look : Steps σ σ := fun s => (s, s, [])

/-- One elementary step. -/
def step (f : σ → σ) : Steps σ Unit := fun s => ((), f s, [f s])

/-- What a computation gives if it is not cut off. -/
def result (x : Steps σ α) (s : σ) : α × σ := ((x s).1, (x s).2.1)

@[simp] theorem result_pure (a : α) (s : σ) : result (pure a) s = (a, s) := rfl

@[simp] theorem result_bind (x : Steps σ α) (f : α → Steps σ β) (s : σ) :
    result (x >>= f) s = result (f (result x s).1) (result x s).2 := rfl

@[simp] theorem result_look (s : σ) : result look s = (s, s) := rfl

@[simp] theorem result_step (f : σ → σ) (s : σ) : result (step f) s = ((), f s) := rfl

@[simp] theorem result_ite {c : Prop} [Decidable c] (x y : Steps σ α) (s : σ) :
    result (if c then x else y) s = if c then result x s else result y s := by
  split <;> rfl

/-- A computation over a part of the state, which `set` puts back. -/
def within (get : τ → σ) (set : τ → σ → τ) (x : Steps σ α) : Steps τ α := fun t =>
  ((x (get t)).1, set t (x (get t)).2.1, (x (get t)).2.2.map (set t))

@[simp] theorem result_within (get : τ → σ) (set : τ → σ → τ) (x : Steps σ α) (t : τ) :
    result (within get set x) t = ((result x (get t)).1, set t (result x (get t)).2) := rfl

/-! ### What holds on the way -/

/-- `P` is true of every state on the way, and `Q` of what comes out. -/
structure Holds (P : σ → Prop) (x : Steps σ α) (Q : α → σ → Prop) (s : σ) : Prop where
  along : ∀ t ∈ (x s).2.2, P t
  final : Q (result x s).1 (result x s).2

namespace Holds

variable {P P' : σ → Prop} {Q Q' : α → σ → Prop} {s : σ}

theorem mono {x : Steps σ α} (h : Holds P x Q s) (hP : ∀ t, P t → P' t)
    (hQ : ∀ a t, Q a t → Q' a t) :
    Holds P' x Q' s :=
  ⟨fun t ht => hP t (h.along t ht), hQ _ _ h.final⟩

theorem pure {a : α} (h : Q a s) : Holds P (pure a) Q s :=
  ⟨fun _ ht => absurd ht List.not_mem_nil, h⟩

theorem bind {x : Steps σ β} {f : β → Steps σ α} {R : β → σ → Prop} (hx : Holds P x R s)
    (hf : ∀ b t, R b t → Holds P (f b) Q t) : Holds P (x >>= f) Q s := by
  have hrest := hf _ _ hx.final
  refine ⟨fun t ht => ?_, hrest.final⟩
  rcases List.mem_append.mp ht with ht | ht
  · exact hx.along t ht
  · exact hrest.along t ht

theorem step {f : σ → σ} {Q : Unit → σ → Prop} (hP : P (f s)) (hQ : Q () (f s)) :
    Holds P (step f) Q s :=
  ⟨fun _ ht => List.mem_singleton.mp ht ▸ hP, hQ⟩

theorem ite {c : Prop} [Decidable c] {x y : Steps σ α} (hx : c → Holds P x Q s)
    (hy : ¬ c → Holds P y Q s) :
    Holds P (if c then x else y) Q s := by
  split
  case isTrue hc => exact hx hc
  case isFalse hc => exact hy hc

theorem within {get : τ → σ} {set : τ → σ → τ} {x : Steps σ α} {P : τ → Prop}
    {Q : α → τ → Prop} {t : τ}
    (h : Holds (fun u => P (set t u)) x (fun a u => Q a (set t u)) (get t)) :
      Holds P (within get set x) Q t := by
  refine ⟨fun u hu => ?_, h.final⟩
  obtain ⟨v, hv, rfl⟩ := List.mem_map.mp hu
  exact h.along v hv

end Holds

end Steps

end Support
