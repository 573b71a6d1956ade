import Mathlib.Tactic.Common

/-!
# Support — a token

One thing that some condition puts into the world, and that goes from hand to hand: it is held by
nobody or by one.

* `Held` — it is held just if the condition holds, and then by one only;
* `Held.give`, `Held.pass`, `Held.drop` — it appears, goes on, or goes away; `Held.congr` — it stays
where it is.
-/

namespace Support

variable {ι : Type*} {P P' : Prop} {H H' : ι → Prop}

/-- Under `P` there is one holder, and otherwise none. -/
structure Held (P : Prop) (H : ι → Prop) : Prop where
  sole : ∀ a b, H a → H b → a = b
  iff : P ↔ ∃ a, H a

theorem Held.congr (h : Held P H) (hP : P' ↔ P) (hH : ∀ a, H' a ↔ H a) : Held P' H' where
  sole a b ha hb := h.sole a b ((hH a).mp ha) ((hH b).mp hb)
  iff := hP.trans (h.iff.trans (exists_congr fun a => (hH a).symm))

theorem Held.not (h : Held P H) (hP : ¬ P) (a : ι) : ¬ H a := fun ha => hP (h.iff.mpr ⟨a, ha⟩)

/-- Somebody is given it, when nobody had it. -/
theorem Held.give (h : Held P H) (hP : ¬ P) (hP' : P') {b : ι} (hb : H' b)
    (hH : ∀ a, H' a → a = b ∨ H a) : Held P' H' := by
  have heq : ∀ a, H' a → a = b := fun a ha => (hH a ha).resolve_right (h.not hP a)
  exact ⟨fun a c ha hc => (heq a ha).trans (heq c hc).symm, iff_of_true hP' ⟨b, hb⟩⟩

/-- Its holder passes it on. -/
theorem Held.pass (h : Held P H) (hP' : P') {a b : ι} (ha : H a) (hb : H' b)
    (hH : ∀ x, H' x → x = b ∨ H x ∧ x ≠ a) :
    Held P' H' := by
  have heq : ∀ x, H' x → x = b :=
    fun x hx => (hH x hx).resolve_right fun hold => hold.2 (h.sole x a hold.1 ha)
  exact ⟨fun x y hx hy => (heq x hx).trans (heq y hy).symm, iff_of_true hP' ⟨b, hb⟩⟩

/-- Its holder does away with it. -/
theorem Held.drop (h : Held P H) (hP' : ¬ P') {a : ι} (ha : H a) (hH : ∀ x, H' x → H x ∧ x ≠ a) :
    Held P' H' := by
  have hnone : ∀ x, ¬ H' x := fun x hx => (hH x hx).2 (h.sole x a (hH x hx).1 ha)
  exact ⟨fun x _ hx => absurd hx (hnone x), iff_of_false hP' fun ⟨x, hx⟩ => hnone x hx⟩

end Support
