import Mathlib.Order.Preorder.Finite

/-!
# Support — chains

The places that a partial function leads to, one after the other.

* `chain_ends_iff` — with finitely many places, a chain ends just if it comes to no place twice;
* `Links.snoc` — a linked list is made longer at its end.
-/

namespace Support

variable {α : Type*} (f : α → Option α)

/-- The place after `k` steps, if there is one. -/
def chain (a : α) : ℕ → Option α
  | 0 => some a
  | k + 1 => (chain a k).bind f

/-- No place is met twice. -/
def NoRepeat (a : α) : Prop := ∀ i j b, i < j → chain f a i = some b → chain f a j ≠ some b

variable {f}

theorem chain_add (a : α) (i j : ℕ) :
    chain f a (i + j) = (chain f a i).bind fun b => chain f b j := by
  induction j with
  | zero => cases chain f a i <;> rfl
  | succ j ih => rw [← Nat.add_assoc, chain, ih, Option.bind_assoc]; rfl

theorem chain_succ (a : α) (k : ℕ) : chain f a (k + 1) = (f a).bind fun b => chain f b k := by
  rw [Nat.add_comm, chain_add]
  rfl

theorem chain_none_of_le {a : α} {i j : ℕ} (h : chain f a i = none) (hij : i ≤ j) :
    chain f a j = none := by
  obtain ⟨k, rfl⟩ := Nat.exists_eq_add_of_le hij
  rw [chain_add, h]
  rfl

/-- A chain that comes back goes round for ever. -/
theorem chain_round {a : α} {n : ℕ} (h : chain f a n = some a) (k : ℕ) :
    chain f a (n * k) = some a := by
  induction k with
  | zero => rfl
  | succ k ih =>
      rw [Nat.mul_succ, chain_add, ih]
      exact h

theorem NoRepeat.of_ends {a : α} {k : ℕ} (h : chain f a k = none) : NoRepeat f a := by
  intro i j b hij hi hj
  have hback : chain f b (j - i) = some b := by
    rw [← Nat.add_sub_cancel' hij.le, chain_add, hi] at hj
    exact hj
  have hround := chain_round hback k
  have hnone : chain f a (i + (j - i) * k) = none := by
    refine chain_none_of_le h (le_trans ?_ (Nat.le_add_left _ i))
    exact Nat.le_mul_of_pos_left k (Nat.sub_pos_of_lt hij)
  rw [chain_add, hi] at hnone
  exact Option.some_ne_none b (hround.symm.trans hnone)

/-- **When a chain ends.** -/
theorem chain_ends_iff {S : Set α} (hS : S.Finite) (hf : ∀ a b, f a = some b → b ∈ S) (a : α) :
    (∃ k, chain f a k = none) ↔ NoRepeat f a := by
  refine ⟨fun ⟨k, hk⟩ => .of_ends hk, fun h => ?_⟩
  by_contra hno
  push Not at hno
  choose b hb using fun k => Option.ne_none_iff_exists'.mp (hno k)
  -- All places but the first are in `S`, so two of them are one.
  have hmem : ∀ k, b (k + 1) ∈ S := by
    intro k
    refine hf (b k) _ ?_
    rw [← hb (k + 1), chain, hb k]
    rfl
  obtain ⟨i, j, hij, heq⟩ := Set.Finite.exists_lt_map_eq_of_forall_mem hmem hS
  exact h (i + 1) (j + 1) _ (Nat.add_lt_add_right hij 1) (hb (i + 1)) (heq ▸ hb (j + 1))

/-! ### Linked lists -/

/-- From `p` on, the links lead over the places of the list to `nil`. -/
def Links (next : α → α) (nil : α) : α → List α → Prop
  | p, [] => p = nil
  | p, a :: L => p = a ∧ a ≠ nil ∧ Links next nil (next a) L

variable {next next' : α → α} {nil p z b : α} {L : List α}

theorem Links.congr (h : Links next nil p L) (hL : ∀ a ∈ L, next' a = next a) :
    Links next' nil p L := by
  induction L generalizing p with
  | nil => exact h
  | cons a L ih =>
      obtain ⟨hp, ha, h⟩ := h
      rw [List.forall_mem_cons] at hL
      refine ⟨hp, ha, ?_⟩
      rw [hL.1]
      exact ih h hL.2

/-- One more place behind the last one. -/
theorem Links.snoc (h : Links next nil p (L ++ [z])) (hL : ∀ a ∈ L, next' a = next a)
    (hz : next' z = b)
    (hb : b ≠ nil) (hend : next' b = nil) : Links next' nil p (L ++ [z] ++ [b]) := by
  induction L generalizing p with
  | nil =>
      obtain ⟨hp, hne, -⟩ := h
      exact ⟨hp, hne, hz, hb, hend⟩
  | cons a L ih =>
      obtain ⟨hp, ha, h⟩ := h
      rw [List.forall_mem_cons] at hL
      refine ⟨hp, ha, ?_⟩
      rw [hL.1]
      exact ih h hL.2

end Support
