import Mathlib.Algebra.GroupWithZero.Nat
import Mathlib.Algebra.Ring.Int.Defs
import Mathlib.Order.CompletePartialOrder
import Mathlib.Tactic.Common

/-!
# Support — layouts

Things that are put one behind the other, each with its size.

* `total` — how much room they need.
* `laid` — where each of them begins: in order, apart, and inside the room.
-/

namespace Support

variable {α : Type*} {size : α → ℕ} {off a : ℕ} {x y : α} {xs ys : List α}

/-- The room that things need. -/
def total (size : α → ℕ) (xs : List α) : ℕ := (xs.map size).sum

@[simp] theorem total_nil (size : α → ℕ) : total size [] = 0 := rfl

@[simp] theorem total_cons (size : α → ℕ) (x : α) (xs : List α) :
    total size (x :: xs) = size x + total size xs := rfl

@[simp] theorem total_append (size : α → ℕ) (xs ys : List α) :
    total size (xs ++ ys) = total size xs + total size ys := by
  simp [total]

/-- There are no more things than there is room. -/
theorem length_le_total (hpos : ∀ x ∈ xs, 0 < size x) : xs.length ≤ total size xs := by
  induction xs with
  | nil => exact Nat.le_refl 0
  | cons x xs ih =>
      rw [List.forall_mem_cons] at hpos
      have hrest := ih hpos.2
      rw [List.length_cons, total_cons]
      omega

/-- Things with where they begin, from `off` on. -/
def laid (size : α → ℕ) : ℕ → List α → List (ℕ × α)
  | _, [] => []
  | off, x :: xs => (off, x) :: laid size (off + size x) xs

theorem laid_append (size : α → ℕ) (off : ℕ) (xs ys : List α) :
    laid size off (xs ++ ys) = laid size off xs ++ laid size (off + total size xs) ys := by
  induction xs generalizing off with
  | nil => rfl
  | cons x xs ih =>
      rw [List.cons_append, laid, laid, ih, total_cons, Nat.add_assoc, List.cons_append]

theorem laid_concat (size : α → ℕ) (off : ℕ) (xs : List α) (x : α) :
    laid size off (xs ++ [x]) = laid size off xs ++ [(off + total size xs, x)] :=
  laid_append size off xs [x]

/-- What stands in front of and behind one of them. -/
theorem laid_split {us vs : List (ℕ × α)} {u : ℕ × α} (h : laid size off xs = us ++ u :: vs) :
    ∃ ys zs, xs = ys ++ u.2 :: zs ∧ u.1 = off + total size ys ∧
    vs = laid size (u.1 + size u.2) zs := by
  induction us generalizing off xs with
  | nil =>
      cases xs with
      | nil => cases h
      | cons x xs =>
          obtain ⟨rfl, rfl⟩ := List.cons.inj h
          exact ⟨[], xs, rfl, rfl, rfl⟩
  | cons v us ih =>
      cases xs with
      | nil => cases h
      | cons x xs =>
          obtain ⟨-, h⟩ := List.cons.inj h
          obtain ⟨ys, zs, rfl, hu, hvs⟩ := ih h
          exact ⟨x :: ys, zs, rfl, by rw [hu, total_cons, Nat.add_assoc], hvs⟩

theorem mem_laid (h : (a, x) ∈ laid size off xs) :
    ∃ ys zs, xs = ys ++ x :: zs ∧ a = off + total size ys := by
  obtain ⟨us, vs, hsplit⟩ := List.append_of_mem h
  obtain ⟨ys, zs, hxs, ha, -⟩ := laid_split hsplit
  exact ⟨ys, zs, hxs, ha⟩

theorem mem_of_mem_laid (h : (a, x) ∈ laid size off xs) : x ∈ xs := by
  obtain ⟨ys, zs, rfl, -⟩ := mem_laid h
  exact List.mem_append_right _ List.mem_cons_self

/-- Each is inside the room. -/
theorem laid_inside (h : (a, x) ∈ laid size off xs) :
    off ≤ a ∧ a + size x ≤ off + total size xs := by
  obtain ⟨ys, zs, rfl, rfl⟩ := mem_laid h
  rw [total_append, total_cons]
  omega

/-- Each ends where the ones behind it begin, or in front of that. -/
theorem laid_apart (size : α → ℕ) (off : ℕ) (xs : List α) :
    (laid size off xs).Pairwise fun u v => u.1 + size u.2 ≤ v.1 := by
  induction xs generalizing off with
  | nil => exact .nil
  | cons x xs ih => exact .cons (fun v hv => (laid_inside (show (v.1, v.2) ∈ _ from hv)).1) (ih _)

/-- Two of them are one thing, or do not overlap. -/
theorem laid_disjoint {b : ℕ} (hx : (a, x) ∈ laid size off xs) (hy : (b, y) ∈ laid size off xs) :
    (a, x) = (b, y) ∨ a + size x ≤ b ∨ b + size y ≤ a := by
  obtain ⟨us, vs, hsplit⟩ := List.append_of_mem hx
  have hall := laid_apart size off xs
  rw [hsplit, List.pairwise_append, List.pairwise_cons] at hall
  obtain ⟨-, ⟨hback, -⟩, hfront⟩ := hall
  rw [hsplit] at hy
  rcases List.mem_append.mp hy with hmem | hmem
  · exact .inr (.inr (hfront _ hmem _ List.mem_cons_self))
  · rcases List.mem_cons.mp hmem with hself | hmem
    · exact .inl hself.symm
    · exact .inr (.inl (hback _ hmem))

/-- A thing that is there has one place only, if it is there once. -/
theorem laid_inj {b : ℕ} (hnodup : xs.Nodup) (ha : (a, x) ∈ laid size off xs)
    (hb : (b, x) ∈ laid size off xs) : a = b := by
  induction xs generalizing off with
  | nil => exact absurd ha List.not_mem_nil
  | cons y xs ih =>
      obtain ⟨hnot, hrest⟩ := List.nodup_cons.mp hnodup
      rcases List.mem_cons.mp ha with ha | ha
      · obtain ⟨rfl, rfl⟩ := Prod.mk.inj ha
        rcases List.mem_cons.mp hb with hb | hb
        · exact (Prod.mk.inj hb).1.symm
        · exact absurd (mem_of_mem_laid hb) hnot
      · rcases List.mem_cons.mp hb with hb | hb
        · obtain ⟨rfl, rfl⟩ := Prod.mk.inj hb
          exact absurd (mem_of_mem_laid ha) hnot
        · exact ih hrest ha hb

/-- Whether a thing is picked is told by where it begins, if things need room. -/
theorem mem_picked_iff (hpos : ∀ x ∈ xs, 0 < size x) (pick : ℕ × α → Bool) {u : ℕ × α}
    (hu : u ∈ laid size off xs) :
    u.1 ∈ ((laid size off xs).filter pick).map Prod.fst ↔ pick u := by
  constructor
  · intro h
    obtain ⟨v, hv, hplace⟩ := List.mem_map.mp h
    obtain ⟨hmem, hpick⟩ := List.mem_filter.mp hv
    have hu' : (u.1, u.2) ∈ laid size off xs := hu
    have hv' : (v.1, v.2) ∈ laid size off xs := hmem
    have hsizes := And.intro (hpos u.2 (mem_of_mem_laid hu')) (hpos v.2 (mem_of_mem_laid hv'))
    rcases laid_disjoint hu' hv' with hsame | happart | happart
    · rwa [show u = v from hsame]
    · omega
    · omega
  · exact fun h => List.mem_map_of_mem (List.mem_filter.mpr ⟨hu, h⟩)

/-- The places of what is picked, among all places. -/
theorem filter_picked (hpos : ∀ x ∈ xs, 0 < size x) (pick : ℕ × α → Bool) :
    ((laid size off xs).map Prod.fst).filter (· ∈ ((laid size off xs).filter pick).map Prod.fst) =
      ((laid size off xs).filter pick).map Prod.fst := by
  rw [List.filter_map]
  refine congrArg _ (List.filter_congr fun u hu => ?_)
  have hiff := mem_picked_iff hpos pick hu
  cases hp : pick u with
  | true => simpa [hp] using hiff
  | false => simpa [hp] using hiff

/-- Everything has a place. -/
theorem exists_laid (size : α → ℕ) (off : ℕ) (hx : x ∈ xs) : ∃ a, (a, x) ∈ laid size off xs := by
  obtain ⟨ys, zs, rfl⟩ := List.append_of_mem hx
  exact ⟨off + total size ys, by rw [laid_append, laid]; simp⟩

end Support
