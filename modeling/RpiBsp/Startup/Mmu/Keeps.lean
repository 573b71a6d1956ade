import RpiBsp.Startup.Mmu.Tables

/-!
# Startup — MMU — what is not written

Building the tables writes to the tables and to pages that are free, and to nothing else (`Own`,
`Keeps`).  A page that is neither stays neither: what the code takes from the RAM is given to the
tables or to a caller.

* `Tables.keeps`, `ensure_keeps`, `Tables.put_keeps` — the steps that the loops of `aarch64_map` are
made of;
* `callocPages_keeps` — the pages that a caller gets are zero, and not the code's own any more.
-/

namespace Startup

open Support

/-- The pages that the code may write to: its tables, and those that are free. -/
def Mmu.Own (C : MmuConsts) (m : Mmu) (P : ℕ) : Prop :=
  Radix.Reached child m.mem m.root (dom C) P ∨ P % 2 ^ 12 = 0 ∧
    Set.Ico P (P + PAGESIZE) ⊆ m.ram.ram.bytes

/-- Between `m` and `m'` only such pages were written, and there are no new ones. -/
structure Keeps (C : MmuConsts) (m m' : Mmu) : Prop where
  own : ∀ P, m'.Own C P → m.Own C P
  mem : ∀ P, P % 2 ^ 12 = 0 → ¬ m.Own C P → m'.mem P = m.mem P

theorem Keeps.refl (C : MmuConsts) (m : Mmu) : Keeps C m m := ⟨fun _ h => h, fun _ _ _ => rfl⟩

theorem Keeps.trans {C : MmuConsts} {m₁ m₂ m₃ : Mmu} (h₁ : Keeps C m₁ m₂) (h₂ : Keeps C m₂ m₃) :
    Keeps C m₁ m₃ where
  own P hP := h₁.own P (h₂.own P hP)
  mem P hal hP := by
    rw [h₂.mem P hal fun h => hP (h₁.own P h), h₁.mem P hal hP]

section Steps

variable {C : MmuConsts} {env : MmuEnv} {m m' : Mmu}

/-- Writing to free pages, and taking RAM. -/
theorem Tables.keeps (ht : Tables C env m) (hroot : m'.root = m.root)
    (hvaddr : m'.free_vaddr = m.free_vaddr)
    (hram : RamOk m'.ram) (hsub : m'.ram.ram.bytes ⊆ m.ram.ram.bytes)
    (hsame : ∀ p, Radix.Reached child m.mem m.root (dom C) p → m'.mem p = m.mem p)
    (hmem : ∀ P, P % 2 ^ 12 = 0 → ¬ m.Own C P → m'.mem P = m.mem P) : Keeps C m m' where
  own P hP := by
    have hreached := (ht.same hroot (hvaddr ▸ ht.vaddr) hram hsub hsame).2.2
    exact hP.imp (hreached P) fun h => ⟨h.1, h.2.trans hsub⟩
  mem := hmem

/-- A page that starts in a range of free pages is one of them. -/
theorem Fresh.own_page {a size P : ℕ} {ram : RamState} (hf : Fresh m a size ram)
    (hsize : size % 2 ^ 12 = 0)
    (hP : P % 2 ^ 12 = 0) (hlo : a ≤ P) (hhi : P < a + size) : m.Own C P := by
  have hal := hf.aligned
  have hpage : PAGESIZE = 2 ^ 12 := rfl
  refine .inr ⟨hP, (Set.Ico_subset_Ico hlo ?_).trans hf.free⟩
  omega

theorem ensure_keeps (hC : C.Standard) (ht : Tables C env m) {b : Bool} {is : List ℕ} {i p : ℕ}
    (hd : dom C b (is ++ [i])) (hp : m.walk b is = some p) (h : ensure C env p i m = .ok m') :
      Keeps C m m' := by
  rcases ensure_link hC ht hd hp h with ⟨-, rfl⟩ | ⟨-, a, ram, e, hm', hf, -, -, hlink, hmem⟩
  · exact .refl C m'
  have hroot : m'.root = m.root := by rw [hm']; funext c; cases c <;> rfl
  have hram : m'.ram = ram := by rw [hm']; rfl
  have hown : ∀ P, P % 2 ^ 12 = 0 → a ≤ P → P < a + PAGESIZE → m.Own C P :=
    fun P => hf.own_page (by decide)
  refine ⟨fun P hP => ?_, fun P hal hP => ?_⟩
  · rw [Mmu.Own, hroot, hram] at hP
    rcases hP with hP | ⟨hal, hP⟩
    · rcases hlink.reached hP with rfl | hP
      · exact hown P hf.aligned le_rfl (Nat.lt_add_of_pos_right (by decide))
      · exact .inl hP
    · exact .inr ⟨hal, hP.trans (hf.taken ▸ Set.sdiff_subset)⟩
  · funext j
    rw [hmem, if_neg, if_neg fun hin => hP (hown P hal hin.1 hin.2)]
    rintro ⟨rfl, -⟩
    exact hP (.inl ⟨b, is, dom_closed C _ _ _ hd, hp⟩)

/-- Writing into an L3 table. -/
theorem Tables.put_keeps (ht : Tables C env m) {b : Bool} {va p : ℕ} (hva : Region C b va)
    (hp : m.walk b (path va) = some p) {mem' : ℕ → ℕ → ℕ}
    (hsame : ∀ q j, q ≠ p → mem' q j = m.mem q j) :
    Keeps C m { m with mem := mem' } where
  own P hP := by
    have hroot : ({ m with mem := mem' } : Mmu).root = m.root := by funext c; cases c <;> rfl
    rw [Mmu.Own, hroot] at hP
    exact hP.imp_left (ht.lowest hva hp hsame).reached
  mem P _ hP := by
    funext j
    refine hsame P j ?_
    rintro rfl
    exact hP (.inl ⟨b, path va, dom_path hva, hp⟩)

/-- **The pages that a caller gets** are zero, and not the code's own any more. -/
theorem callocPages_keeps (ht : Tables C env m) {a size : ℕ} (hsize : size % 2 ^ 12 = 0)
    (h : callocPages size m = .ok (a, m')) (hnull : a ≠ NULL_PADDR) :
    Tables C env m' ∧ (∀ b va, Region C b va → view m' b va = view m b va) ∧ Keeps C m m' ∧
      a % 2 ^ 12 = 0 ∧ a + size ≤ 2 ^ 48 ∧ ∀ P, P % 2 ^ 12 = 0 → a ≤ P → P < a + size →
        m.Own C P ∧ ¬ m'.Own C P ∧ m'.mem P = fun _ => 0 := by
  rcases callocPages_spec ht.ram h with ⟨rfl, -⟩ | ⟨-, ram, rfl, hf⟩
  · exact absurd rfl hnull
  set m' : Mmu := { m.clear a size with ram := ram }
  have hroot : m'.root = m.root := by funext c; cases c <;> rfl
  have hsub : ram.ram.bytes ⊆ m.ram.ram.bytes := hf.taken ▸ Set.sdiff_subset
  have hsame : ∀ p, Radix.Reached child m.mem m.root (dom C) p → m'.mem p = m.mem p :=
    fun p hp => m.clear_outside fun hin => ht.not_fresh hf hin.1 hin.2 hp
  have hown : ∀ P, P % 2 ^ 12 = 0 → a ≤ P → P < a + size → m.Own C P := fun P => hf.own_page hsize
  obtain ⟨ht', hview, hreached⟩ := ht.same hroot ht.vaddr hf.ok hsub hsame
  have hkeeps : Keeps C m m' := ht.keeps hroot rfl hf.ok hsub hsame fun P hal hP =>
    m.clear_outside fun hin => hP (hown P hal hin.1 hin.2)
  refine ⟨ht', hview, hkeeps, hf.aligned, ?_, fun P hal hlo hhi => ⟨hown P hal hlo hhi, ?_, ?_⟩⟩
  · by_cases hzero : size = 0
    · have := hf.below
      omega
    · have := ht.ram.below (a + size - 1) (hf.free ⟨by omega, by omega⟩)
      omega
  · rintro (hP | ⟨-, hP⟩)
    · exact ht.not_fresh hf hlo hhi (hreached P hP)
    · have hin : P ∈ ram.ram.bytes := hP ⟨le_rfl, Nat.lt_add_of_pos_right (by decide)⟩
      rw [hf.taken] at hin
      exact hin.2 ⟨hlo, hhi⟩
  · exact m.clear_inside ⟨hlo, hhi⟩

end Steps

end Startup
