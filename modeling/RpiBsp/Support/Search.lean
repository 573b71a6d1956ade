import Mathlib.Algebra.GroupWithZero.Nat
import Mathlib.Algebra.Ring.Int.Defs
import Mathlib.Order.CompletePartialOrder
import Mathlib.Tactic.Common

/-!
# Support — search

`for( d = first; d < lim; d = next( d ) ) if( p( d ) ) break;` over numbers that grow: the loop goes
along the candidates `seq 0, seq 1, …` and stops at the first that passes, or at the last one, the
limit itself (`search_spec`).  What it stops at is then the pick of the candidates (`search_picks`):
the least that passes, or the largest if none does.
-/

namespace Support

variable {p : ℕ → Prop} [DecidablePred p] {next seq : ℕ → ℕ} {lim last : ℕ}

/-- The loop, on fuel. -/
def search (p : ℕ → Prop) [DecidablePred p] (next : ℕ → ℕ) (lim : ℕ) : ℕ → ℕ → ℕ
  | 0, d => d
  | fuel + 1, d => if d < lim then if p d then d else search p next lim fuel (next d) else d

/-- The candidates of a loop: `seq` lists them, and the last of them is the limit. -/
structure Candidates (next seq : ℕ → ℕ) (lim last : ℕ) : Prop where
  next : ∀ k < last, next (seq k) = seq (k + 1)
  grows : ∀ j k, j < k → k ≤ last → seq j < seq k
  limit : seq last = lim

theorem Candidates.lt_limit (h : Candidates next seq lim last) {k : ℕ} (hk : k < last) :
    seq k < lim := by
  rw [← h.limit]
  exact h.grows k last hk le_rfl

theorem Candidates.le_limit (h : Candidates next seq lim last) {k : ℕ} (hk : k ≤ last) :
    seq k ≤ lim := by
  rcases Nat.lt_or_eq_of_le hk with hlt | rfl
  · exact (h.lt_limit hlt).le
  · exact h.limit.le

/-- From any candidate on, the loop stops at the next one that passes, or at the last. -/
theorem search_from (h : Candidates next seq lim last) :
    ∀ fuel i, i ≤ last → last - i ≤ fuel → ∃ k, i ≤ k ∧ k ≤ last ∧
      search p next lim fuel (seq i) = seq k ∧ (∀ j, i ≤ j → j < k → ¬ p (seq j)) ∧
      (k < last → p (seq k)) := by
  intro fuel
  induction fuel with
  | zero =>
      intro i hi hfuel
      refine ⟨i, le_rfl, hi, rfl, fun j hij hji => absurd hji (not_lt.mpr hij), fun hlt => ?_⟩
      exact absurd hfuel (by omega)
  | succ fuel ih =>
      intro i hi hfuel
      rcases Nat.lt_or_eq_of_le hi with hlt | rfl
      case inl =>
        by_cases hp : p (seq i)
        case pos =>
          refine ⟨i, le_rfl, hi, ?_, fun j hij hji => absurd hji (not_lt.mpr hij), fun _ => hp⟩
          rw [search, if_pos (h.lt_limit hlt), if_pos hp]
        case neg =>
          obtain ⟨k, hik, hk, hrun, hbefore, hat⟩ := ih (i + 1) hlt (by omega)
          refine ⟨k, by omega, hk, ?_, ?_, hat⟩
          · rw [search, if_pos (h.lt_limit hlt), if_neg hp, h.next i hlt, hrun]
          · intro j hij hjk
            rcases Nat.eq_or_lt_of_le hij with rfl | hlt'
            · exact hp
            · exact hbefore j hlt' hjk
      case inr =>
        refine ⟨i, le_rfl, le_rfl, ?_, fun j hij hji => absurd hji (not_lt.mpr hij), fun hlt => ?_⟩
        · rw [search, if_neg (by rw [h.limit]; exact lt_irrefl _)]
        · exact absurd hlt (lt_irrefl _)

/-- **Where a search ends**: at the first candidate that passes, or at the last. -/
theorem search_spec (h : Candidates next seq lim last) {fuel : ℕ} (hfuel : last ≤ fuel) :
    ∃ k ≤ last, search p next lim fuel (seq 0) = seq k ∧ (∀ j < k, ¬ p (seq j)) ∧
      (k < last → p (seq k)) := by
  obtain ⟨k, -, hk, hrun, hbefore, hat⟩ := search_from h (p := p) fuel 0 (Nat.zero_le _) (by omega)
  exact ⟨k, hk, hrun, fun j hj => hbefore j (Nat.zero_le j) hj, hat⟩

/-- `d` is the pick of what is available: the least that passes, or the largest if none does. -/
structure Picks (avail p : ℕ → Prop) (d : ℕ) : Prop where
  mem : avail d
  least : ∀ d', avail d' → p d' → d ≤ d'
  passes : p d ∨ ∀ d', avail d' → ¬ p d' ∧ d' ≤ d

theorem search_picks (h : Candidates next seq lim last) {fuel : ℕ} (hfuel : last ≤ fuel) :
    Picks (fun d => ∃ k ≤ last, d = seq k) p (search p next lim fuel (seq 0)) := by
  obtain ⟨k, hk, hrun, hbefore, hat⟩ := search_spec h (p := p) hfuel
  rw [hrun]
  refine ⟨⟨k, hk, rfl⟩, ?_, ?_⟩
  · rintro _ ⟨j, hj, rfl⟩ hp
    rcases Nat.lt_trichotomy k j with hlt | rfl | hlt
    · exact (h.grows k j hlt hj).le
    · exact le_rfl
    · exact absurd hp (hbefore j hlt)
  · by_cases hp : p (seq k)
    · exact .inl hp
    · right
      have hlast : k = last := by
        by_contra hne
        exact hp (hat (lt_of_le_of_ne hk hne))
      rintro _ ⟨j, hj, rfl⟩
      refine ⟨?_, ?_⟩
      · rcases Nat.lt_or_eq_of_le hj with hlt | rfl
        · exact hbefore j (by omega)
        · rwa [← hlast]
      · rw [hlast, h.limit]
        exact h.le_limit hj

end Support
