import RpiBsp.Startup.Elf.Definitions

/-!
# Startup — ELF — mapping and copying

* `moves_memmove` — the copy of words is a copy of bytes;
* `elf_map_spec` — what a call of `elf_map` maps, for whole pages;
* `mapCopied_spec` — memory that is allocated, filled and mapped: the addresses lead to pages that
  are not the code's own any more, and these hold what was copied, followed by zeros.
-/

namespace Startup.Elf

open Support

/-! ### Bytes -/

theorem page_eq (x : ℕ) : page x = x - x % 2 ^ 12 := rfl

theorem moves_memmove : Moves memmove byte := by
  intro d s n m
  funext x
  have hword : page x + 8 * (x % PAGESIZE / 8) = x - x % 8 := by
    simp only [page, PAGESIZE]
    omega
  have hlow : x % 8 < 8 := Nat.mod_lt _ (by decide)
  rw [byte, memmove]
  dsimp only
  rw [hword]
  split_ifs with hmet
  · rw [byte_load hlow]
    congr 1
    omega
  · have hout : ¬ (d ≤ x ∧ x < d + n) := by
      intro hin
      refine hmet ⟨?_, x % 8, hlow, by omega, by omega⟩
      simp only [PAGESIZE, NPTE_PTBL]
      omega
    rw [moved, if_neg hout, byte]

/-- Only the memory differs, and no page outside of the range. -/
def Outside (lo hi : ℕ) (m m' : Mmu) : Prop :=
  (∃ mem', m' = { m with mem := mem' }) ∧
    ∀ P, P % 2 ^ 12 = 0 → P + 2 ^ 12 ≤ lo ∨ hi ≤ P → m'.mem P = m.mem P

theorem Outside.trans {lo hi : ℕ} (m₁ m₂ m₃ : Mmu) (h₁ : Outside lo hi m₁ m₂)
    (h₂ : Outside lo hi m₂ m₃) :
    Outside lo hi m₁ m₃ := by
  obtain ⟨⟨mem₂, rfl⟩, hsame₁⟩ := h₁
  obtain ⟨⟨mem₃, rfl⟩, hsame₂⟩ := h₂
  exact ⟨⟨mem₃, rfl⟩, fun P hal hP => (hsame₂ P hal hP).trans (hsame₁ P hal hP)⟩

theorem outside_memmove {lo hi : ℕ} (d s n : ℕ) (m : Mmu) (hlo : lo ≤ d) (hhi : d + n ≤ hi) :
    Outside lo hi m (memmove d s n m) := by
  refine ⟨⟨_, rfl⟩, fun P hal hP => ?_⟩
  funext i
  refine if_neg ?_
  rintro ⟨hi', j, hj, h₁, h₂⟩
  simp only [NPTE_PTBL] at hi'
  omega

theorem copy_outside {dst src len : ℕ} {m m' : Mmu} (hfit : dst + len ≤ 2 ^ 64)
    (h : copy dst src len m = .ok m') :
    Outside dst (dst + len) m m' ∧ Copied dst src len (byte m) (byte m') := by
  rw [copy] at h
  cases hc : copy_memory memmove dst src len m with
  | none =>
      rw [hc] at h
      cases h
  | some m₁ =>
      rw [hc] at h
      cases h
      exact ⟨copyLoop_rel Outside.trans hfit outside_memmove _ _ _ _ _ _ _ le_rfl le_rfl hc,
        copy_memory_copied moves_memmove hfit hc⟩

theorem byte_congr {m m' : Mmu} {x : ℕ} (h : m'.mem (page x) = m.mem (page x)) :
    byte m' x = byte m x := by
  rw [byte, byte, h]

theorem page_aligned (x : ℕ) : page x % 2 ^ 12 = 0 := by
  rw [page_eq]
  omega

/-- A byte in a page that is not the code's own is not written. -/
theorem byte_keeps {C : MmuConsts} {m m' : Mmu} (h : Keeps C m m') {x : ℕ}
    (hx : ¬ m.Own C (page x)) :
    byte m' x = byte m x := byte_congr (h.mem _ (page_aligned x) hx)

/-! ### Mapping -/

theorem orCrash_ok {α : Type} {x : Except Crash α} {a : α} : orCrash x = .ok a ↔ x = .ok a := by
  cases x with
  | error e => simp [orCrash, Except.mapError]
  | ok b => simp [orCrash, Except.mapError]

/-- `ROUNDPG`, in unbounded arithmetic. -/
def pages (size : ℕ) : ℕ := (size + (2 ^ 12 - 1)) / 2 ^ 12 * 2 ^ 12

theorem ROUNDPG_pages {size : ℕ} (h : size + (2 ^ 12 - 1) < 2 ^ 64) : ROUNDPG size = pages size :=
  round_two_pow (k := 12) (by decide) h

section Mapping

variable {C : MmuConsts} {env : MmuEnv} {m m' : Mmu}

theorem elf_map_ok {vaddr paddr size flags : ℕ}
    (h : elf_map C env vaddr paddr size flags m = .ok m') :
    ∃ r f, aarch64_map C env vaddr paddr size f m = .ok (r, m') := by
  have hmap := orCrash_ok.mp h
  cases hx : aarch64_map C env vaddr paddr size
      { write := flags &&& PF_W ≠ 0, exec := flags &&& PF_X ≠ 0 } m with
  | error e =>
      rw [hx] at hmap
      cases hmap
  | ok x =>
      rw [hx] at hmap
      cases hmap
      exact ⟨x.1, _, hx⟩

theorem le_pages (size : ℕ) : size ≤ pages size := by
  rw [pages]
  omega

theorem pages_aligned (size : ℕ) : pages size % 2 ^ 12 = 0 := Nat.mul_mod_left _ _

/-- What a call of `elf_map` maps. -/
theorem elf_map_spec (hC : C.Standard) (hvirt : env.is_virtual = true) (ht : Tables C env m)
    {vaddr paddr size flags : ℕ} (hv : vaddr % 2 ^ 12 = 0) (hvlt : vaddr < 2 ^ 64)
    (hp : paddr % 2 ^ 12 = 0)
    (hfit : paddr + size ≤ 2 ^ 48) (h : elf_map C env vaddr paddr size flags m = .ok m') :
    Tables C env m' ∧ Keeps C m m' ∧ vaddr + pages size < 2 ^ 64 ∧
      (∀ k < size, elf_vaddr_to_paddr C (vaddr + k) m' = .ok (paddr + k)) ∧
      ∀ u < 2 ^ 64, ¬ (vaddr ≤ u ∧ u < vaddr + pages size) →
        elf_vaddr_to_paddr C u m' = elf_vaddr_to_paddr C u m := by
  obtain ⟨r, f, hrun⟩ := elf_map_ok h
  have hplt : paddr < 2 ^ 64 := by omega
  obtain ⟨hgood, ht', hr, -, -, -, hkeeps⟩ := aarch64_map_spec hC hvirt ht hvlt hplt hrun
  set c : MapCall := ⟨vaddr, paddr, size, f⟩
  have hc : c.InRange := ⟨hvlt, hplt, show size < 2 ^ 64 by omega⟩
  have hstart : mapStart vaddr m = vaddr := if_neg (by omega)
  have hround : round 64 (addW 64 size (paddr % 2 ^ 12)) PAGESIZE = pages size := by
    rw [hp, addW_of_lt (by omega)]
    exact ROUNDPG_pages (by omega)
  have hend : vaddr + pages size < 2 ^ 64 := by
    have hlt := hgood.lt
    simp only [mapJob, hstart, hround] at hlt
    omega
  refine ⟨ht', hkeeps, hend, fun k hk => ?_, fun u hu hout => ?_⟩
  · have hval := MapCall.run_value hC hvirt ht hc hrun (.inr hp) hfit hk
    have hle := le_pages size
    rwa [hr, hstart, hp, addW_of_lt (show vaddr + 0 < 2 ^ 64 by omega), addW_of_lt (by omega),
      Nat.add_zero] at hval
  · refine MapCall.run_frame hC hvirt ht hc hrun hu ?_
    rintro ⟨hlo, hhi⟩
    refine hout ⟨?_, ?_⟩
    · rw [hstart] at hlo
      omega
    · rw [hstart, show c.paddr % 2 ^ 12 = 0 from hp, Nat.add_zero,
        Nat.div_mul_cancel (Nat.dvd_of_mod_eq_zero hv)] at hhi
      exact hhi

/-- It does not map from `NULL_PADDR`: that is not the start of a page. -/
theorem elf_map_null (hvirt : env.is_virtual = true) {vaddr size flags : ℕ}
    (hv : vaddr % 2 ^ 12 = 0) :
    elf_map C env vaddr NULL_PADDR size flags m ≠ .ok m' := by
  intro h
  obtain ⟨r, f, hrun⟩ := elf_map_ok h
  rw [aarch64_map, if_neg (not_not.mpr hvirt)] at hrun
  obtain ⟨x, hx, -⟩ := bind_eq_ok.mp hrun
  have hal : vaddr &&& (PAGESIZE - 1) ≠ NULL_PADDR &&& (PAGESIZE - 1) := by
    rw [and_page, hv]
    decide
  rw [mapVaddr, if_neg (by omega), if_pos hal] at hx
  cases hx

/-- **Memory that is allocated, filled and mapped.** -/
theorem mapCopied_spec (hC : C.Standard) (hvirt : env.is_virtual = true) (ht : Tables C env m)
    {vaddr size src len flags : ℕ} (hv : vaddr % 2 ^ 12 = 0) (hvlt : vaddr < 2 ^ 64)
    (hlen : len ≤ pages size)
    (h : mapCopied C env vaddr (pages size) size src len flags m = .ok m') :
    Tables C env m' ∧ Keeps C m m' ∧ vaddr + pages size < 2 ^ 64 ∧
      (∀ u < 2 ^ 64, ¬ (vaddr ≤ u ∧ u < vaddr + pages size) →
        elf_vaddr_to_paddr C u m' = elf_vaddr_to_paddr C u m) ∧
      ∀ k < size, ∃ x < 2 ^ 48, elf_vaddr_to_paddr C (vaddr + k) m' = .ok x ∧ ¬ m'.Own C (page x) ∧
        (k < len → ¬ m.Own C (page (addW 64 src k)) → byte m' x = byte m (addW 64 src k)) ∧
        (len ≤ k → byte m' x = 0) := by
  obtain ⟨⟨daddr, m₁⟩, halloc, h⟩ := bind_eq_ok.mp h
  obtain ⟨m₂, hcopy, hmap⟩ := bind_eq_ok.mp h
  have hnull : daddr ≠ NULL_PADDR := by
    rintro rfl
    exact elf_map_null hvirt hv hmap
  have hal := pages_aligned size
  have hle := le_pages size
  obtain ⟨ht₁, hview₁, hkeeps₁, hdal, hfit, hpages⟩ :=
    callocPages_keeps ht hal (orCrash_ok.mp halloc) hnull
  obtain ⟨⟨⟨mem₂, hm₂⟩, hsame⟩, hcopied⟩ := copy_outside (by omega) hcopy
  -- The copy writes to the new pages only, and these are not in the tree.
  have hframe : ∀ P, P % 2 ^ 12 = 0 → ¬ (daddr ≤ P ∧ P < daddr + pages size) →
      m₂.mem P = m₁.mem P :=
    fun P hP hout => hsame P hP (by omega)
  have hroot : m₂.root = m₁.root := by rw [hm₂]; funext c; cases c <;> rfl
  have hram : m₂.ram = m₁.ram := by rw [hm₂]
  have hvaddr : m₂.free_vaddr = m₁.free_vaddr := by rw [hm₂]
  obtain ⟨ht₂, hview₂, hreached₂⟩ :=
    ht₁.same hroot (hvaddr ▸ ht₁.vaddr) (hram ▸ ht₁.ram) (hram ▸ subset_rfl)
    fun p hp => hframe p (ht₁.page p hp).1 fun hin =>
      (hpages p (ht₁.page p hp).1 hin.1 hin.2).2.1 (.inl hp)
  have hown₂ : ∀ P, m₂.Own C P → m₁.Own C P := by
    intro P hP
    refine hP.imp (hreached₂ P) fun hfree => ?_
    rwa [hram] at hfree
  have hkeeps₂ : Keeps C m m₂ := by
    refine ⟨fun P hP => hkeeps₁.own P (hown₂ P hP), fun P hPal hP => ?_⟩
    rw [hframe P hPal fun hin => hP (hpages P hPal hin.1 hin.2).1]
    exact hkeeps₁.mem P hPal hP
  obtain ⟨ht', hkeeps', hend, hval, hother⟩ :=
    elf_map_spec hC hvirt ht₂ hv hvlt hdal (by omega) hmap
  refine ⟨ht', hkeeps₂.trans hkeeps', hend, fun u hu hout => ?_, fun k hk =>
    ⟨daddr + k, by omega, hval k hk, ?_⟩⟩
  · rw [hother u hu hout, elf_vaddr_to_paddr_congr hC ht₁ ht₂ hu fun b hb => hview₂ b u hb,
      elf_vaddr_to_paddr_congr hC ht ht₁ hu fun b hb => hview₁ b u hb]
  · have hpage := page_eq (daddr + k)
    obtain ⟨-, hfree, hzero⟩ := hpages (page (daddr + k)) (page_aligned _) (by omega) (by omega)
    have hfree₂ : ¬ m₂.Own C (page (daddr + k)) := fun h => hfree (hown₂ _ h)
    have hbyte := byte_keeps hkeeps' hfree₂
    refine ⟨fun h => hfree₂ (hkeeps'.own _ h), fun hlt hsrc => ?_, fun hge => ?_⟩
    · have hspage := page_eq (addW 64 src k)
      have hsal := page_aligned (addW 64 src k)
      have hout : ¬ (daddr ≤ addW 64 src k ∧ addW 64 src k < daddr + len) := fun hin =>
        hsrc (hpages _ hsal (by omega) (by omega)).1
      rw [hbyte, hcopied.bytes k hlt hout]
      exact byte_keeps hkeeps₁ hsrc
    · rw [hbyte, hcopied.frame _ (by omega), byte, hzero, Nat.zero_div]
      rfl

end Mapping

end Startup.Elf
