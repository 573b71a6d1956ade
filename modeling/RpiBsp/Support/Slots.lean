import Mathlib.Algebra.GroupWithZero.Nat
import Mathlib.Algebra.Ring.Int.Defs
import Mathlib.Logic.Function.Basic
import Mathlib.Order.CompletePartialOrder
import Mathlib.Tactic.Common

/-!
# Support — slots

An array with a count of the entries in use, to which entries are appended at the count.  A slot may
keep a part of what it held, so an entry is a change of a slot.

* `pushAll_isSome` — a sequence of entries fits exactly when the count and its length do;
* `Appended`, `pushAll_appended` — where the entries are then, in their order, and what is left as
it was.
-/

namespace Support

/-- A count, and the array. -/
structure Slots (α : Type) where
  count : ℕ
  slot : ℕ → α

namespace Slots

variable {α : Type} {size : ℕ}

/-- Write to the slot at the count and count it; `none` if the slot is outside the array. -/
def push (size : ℕ) (put : α → α) (s : Slots α) : Option (Slots α) :=
  if s.count < size then
    some { count := s.count + 1, slot := Function.update s.slot s.count (put (s.slot s.count)) }
  else none

/-- One entry after the other. -/
def pushAll (size : ℕ) : List (α → α) → Slots α → Option (Slots α)
  | [], s => some s
  | put :: puts, s => (s.push size put).bind (pushAll size puts)

/-- The entries are in the slots from the old count on, and the others are as they were. -/
structure Appended (puts : List (α → α)) (s s' : Slots α) : Prop where
  count : s'.count = s.count + puts.length
  entry : ∀ k put, puts[k]? = some put → s'.slot (s.count + k) = put (s.slot (s.count + k))
  other : ∀ i, i < s.count ∨ s'.count ≤ i → s'.slot i = s.slot i

theorem push_eq_some {put : α → α} {s s' : Slots α} (h : s.push size put = some s') :
    s.count < size ∧ s' = ⟨s.count + 1, Function.update s.slot s.count (put (s.slot s.count))⟩ := by
  unfold push at h
  split at h
  case isTrue hlt => exact ⟨hlt, (Option.some.inj h).symm⟩
  case isFalse => exact absurd h (by simp)

theorem pushAll_isSome (puts : List (α → α)) (s : Slots α) :
    (pushAll size puts s).isSome = true ↔ puts = [] ∨ s.count + puts.length ≤ size := by
  induction puts generalizing s with
  | nil => simp [pushAll]
  | cons put puts ih =>
      by_cases hlt : s.count < size
      case neg =>
        have hnone : s.push size put = none := if_neg hlt
        simp only [pushAll, hnone, Option.bind_none, Option.isSome_none, reduceCtorEq, false_or,
          false_iff, List.length_cons]
        omega
      case pos =>
        have hsome : s.push size put =
            some ⟨s.count + 1, Function.update s.slot s.count (put (s.slot s.count))⟩ := if_pos hlt
        simp only [pushAll, hsome, Option.bind_some, ih, reduceCtorEq, false_or, List.length_cons]
        constructor
        · rintro (rfl | hle)
          · exact hlt
          · omega
        · intro hle
          right
          omega

theorem pushAll_appended (puts : List (α → α)) (s s' : Slots α)
    (h : pushAll size puts s = some s') :
    Appended puts s s' := by
  induction puts generalizing s with
  | nil =>
      obtain rfl := Option.some.inj h
      exact ⟨rfl, fun k put hk => absurd hk (by simp), fun _ _ => rfl⟩
  | cons put puts ih =>
      obtain ⟨s₁, hpush, hrest⟩ := Option.bind_eq_some_iff.mp h
      obtain ⟨-, rfl⟩ := push_eq_some hpush
      have hrest := ih _ hrest
      refine ⟨?_, ?_, ?_⟩
      · have := hrest.count
        simp only [List.length_cons] at this ⊢
        omega
      · intro k put' hk
        cases k with
        | zero =>
            obtain rfl : put = put' := by simpa using hk
            have := hrest.other s.count (.inl (Nat.lt_succ_self _))
            simpa using this
        | succ k =>
            have hne : s.count + (k + 1) ≠ s.count := by omega
            have hshift : s.count + 1 + k = s.count + (k + 1) := by omega
            have := hrest.entry k put' (by simpa using hk)
            simp only [hshift, Function.update_of_ne hne] at this
            exact this
      · intro i hi
        have hcount := hrest.count
        have hne : i ≠ s.count := by
          simp only at hcount
          omega
        have := hrest.other i (hi.imp (fun h => h.trans (Nat.lt_succ_self _)) id)
        exact this.trans (Function.update_of_ne hne _ _)

end Slots

end Support
