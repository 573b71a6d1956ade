import RpiBsp.Startup.Syspage.Definitions
import RpiBsp.Support.Outcome
import Mathlib.Data.Fintype.BigOperators
import Mathlib.Order.Interval.Set.Basic

/-!
# Startup — Syspage — sections keep their bytes

Growing a section makes room behind it: what follows is moved up, with the pointers to it and the
addresses registered in it.  A section that is set gets its place in front of the ones that grow,
at `fixed_size`.

`Packed` is what every call keeps.  It does not mention an order: of two sections one ends before
the other starts, so an empty section, which shares its address with others, is never inside one.
`Boundary` says that `fixed_size` is such a place too.  It is lost when the header or a section
that was set grows, and only a later `set_syspage_section` needs it.

* `grow_framed`, `set_framed`, `reloc_framed` — each call keeps the layout and the bytes;
* `sections_keep_their_bytes` — so does every run in which no fixed section grows before a later
  one is set.
-/

namespace Startup

open Support

variable {ι : Type}

/-! ### What is to be kept -/

namespace Syspage

def p (s : Syspage ι) (i : Option ι) : ℕ := (s.lsp i).p

def size (s : Syspage ι) (i : Option ι) : ℕ := (s.lsp i).size

theorem base_eq (s : Syspage ι) : s.base = s.p none := rfl

end Syspage

/-- The sections are pairwise disjoint and lie between the header and `total_size`, which is their
total. -/
structure Tiled [Fintype ι] (L : Layout) (s : Syspage ι) : Prop where
  apart : ∀ i j, i ≠ j →
    Disjoint (Set.Ico (s.p i) (s.p i + s.size i)) (Set.Ico (s.p j) (s.p j + s.size j))
  within : ∀ i : ι, s.base + s.size none ≤ s.p (some i) ∧
    s.p (some i) + s.size (some i) ≤ s.base + s.total_size L
  total : s.total_size L = ∑ i, s.size i

/-- A byte of the header that is not part of `total_size` or `size`. -/
def OffFields (L : Layout) (o : ℕ) : Prop :=
  (o < L.total_size_off ∨ L.total_size_off + L.width ≤ o) ∧
    (o < L.size_off ∨ L.size_off + L.width ≤ o)

/-- From `s` to `s'` the sections keep their bytes, their new bytes are zero, and an address that
was registered at an offset in a section is there still. -/
structure Framed (L : Layout) (s s' : Syspage ι) : Prop where
  kept : ∀ (i : ι) (o : ℕ), o < s.size (some i) →
    s'.mem (s'.p (some i) + o) = s.mem (s.p (some i) + o)
  header : ∀ o < s.size none, OffFields L o → s'.mem (s'.base + o) = s.mem (s.base + o)
  longer : ∀ i, s.size i ≤ s'.size i
  zero : ∀ (i : Option ι) (o : ℕ), s.size i ≤ o → o < s'.size i → s'.mem (s'.p i + o) = 0
  registered : ∀ (i : Option ι), ∀ pd ∈ s.patch_data, ∀ o < s.size i, pd.owner = s.p i + o →
    ⟨s'.p i + o, pd.data⟩ ∈ s'.patch_data

/-! ### The invariant -/

structure Packed [Fintype ι] (L : Layout) (s : Syspage ι) : Prop where
  order : ∀ i j, i ≠ j → s.p i + s.size i ≤ s.p j ∨ s.p j + s.size j ≤ s.p i
  above : ∀ i : ι, s.base + s.size none ≤ s.p (some i)
  below : ∀ i, s.p i + s.size i ≤ s.base + s.total_size L
  header : L.spsize ≤ s.size none
  total : s.total_size L = ∑ i, s.size i
  word : s.total_size L < 2 ^ 32
  room : s.base + s.total_size L < 2 ^ 64
  limit : s.base + s.max_size L < 2 ^ 64

/-- `fixed_size` is a place between sections, behind the header. -/
structure Boundary (L : Layout) (s : Syspage ι) : Prop where
  between : ∀ i, s.p i + s.size i ≤ s.base + s.fixed_size ∨ s.base + s.fixed_size ≤ s.p i
  header : s.size none ≤ s.fixed_size
  below : s.fixed_size ≤ s.total_size L

theorem Packed.tiled [Fintype ι] {L : Layout} {s : Syspage ι} (h : Packed L s) : Tiled L s where
  apart i j hij := by
    refine Set.disjoint_left.mpr fun b hi hj => ?_
    have := h.order i j hij
    simp only [Set.mem_Ico] at hi hj
    omega
  within i := ⟨h.above i, h.below (some i)⟩
  total := h.total

theorem Packed.base_lt_bottom [Fintype ι] {L : Layout} {s : Syspage ι} (h : Packed L s)
    (k : Option ι) :
    s.base + L.spsize ≤ s.p k + s.size k := by
  have hh := h.header
  cases k with
  | none => rw [s.base_eq]; omega
  | some i => have := h.above i; omega

theorem Packed.base_le [Fintype ι] {L : Layout} {s : Syspage ι} (h : Packed L s) (i : Option ι) :
    s.base ≤ s.p i := by
  cases i with
  | none => exact le_rfl
  | some i => have := h.above i; omega

/-! ### What growing does -/

variable [DecidableEq ι]

/-- `n` bytes were put in behind section `k`. -/
structure Grown (L : Layout) (k : Option ι) (n : ℕ) (s s' : Syspage ι) : Prop where
  p : ∀ i, s'.p i = if i ≠ k ∧ s.p k + s.size k ≤ s.p i then s.p i + n else s.p i
  size : ∀ i, s'.size i = if i = k then s.size i + n else s.size i
  low : ∀ a < s.p k + s.size k,
    (a < s.base + L.total_size_off ∨ s.base + L.total_size_off + L.width ≤ a) →
      s'.mem a = s.mem a
  zero : ∀ a, s.p k + s.size k ≤ a → a < s.p k + s.size k + n → s'.mem a = 0
  high : ∀ a, s.p k + s.size k ≤ a → a < s.base + s.total_size L → s'.mem (a + n) = s.mem a
  patch : s'.patch_data = s.patch_data.map fun pd =>
    if s.p k + s.size k ≤ pd.owner ∧ pd.owner < s.base + s.total_size L then
      { pd with owner := pd.owner + n }
    else pd
  base : s'.base = s.base
  total : s'.total_size L = s.total_size L + n
  max : s'.max_size L = s.max_size L
  fixed : s'.fixed_size = s.fixed_size
  room : s.base + s.total_size L + n < 2 ^ 64

theorem shiftSections_p {k : Option ι} {bottom n : ℕ} {lsp : Option ι → LocalSection}
    (i : Option ι) (h : (lsp i).p + n < 2 ^ 64) : (shiftSections k bottom n lsp i).p =
      if i ≠ k ∧ bottom ≤ (lsp i).p then (lsp i).p + n else (lsp i).p := by
  unfold shiftSections
  by_cases hc : i ≠ k ∧ bottom ≤ (lsp i).p
  · rw [if_pos hc, if_pos hc, addW_of_lt h]
  · rw [if_neg hc, if_neg hc]

theorem shiftSections_size {k : Option ι} {bottom n : ℕ} {lsp : Option ι → LocalSection}
    (i : Option ι) : (shiftSections k bottom n lsp i).size = (lsp i).size := by
  unfold shiftSections
  split_ifs <;> rfl

/-- How much `grow_syspage_section` moves. -/
theorem grow_len {total bottom base : ℕ} (h₁ : base ≤ bottom) (h₂ : bottom ≤ base + total)
    (ht : total < 2 ^ 32) (hb : bottom < 2 ^ 64) :
    subW 64 total (subW 64 bottom base) % 2 ^ 32 = total - (bottom - base) := by
  rw [subW_of_le h₁ hb, subW_of_le (by omega) (by omega), Nat.mod_eq_of_lt (by omega)]

/-- The memory after `grow_syspage_section`. -/
theorem grow_mem {L : Layout} (hL : L.Valid) (mem : ℕ → UInt8) {base bottom : ℕ} (n len v : ℕ)
    (hlow : base + L.spsize ≤ bottom) :
    let mem' := store L.width (base + L.total_size_off) v
      (memset bottom n 0 (memmove (bottom + n) bottom len mem))
    (∀ a < bottom, (a < base + L.total_size_off ∨ base + L.total_size_off + L.width ≤ a) →
      mem' a = mem a) ∧
    (∀ a, bottom ≤ a → a < bottom + n → mem' a = 0) ∧
    (∀ a, bottom ≤ a → a < bottom + len → mem' (a + n) = mem a) ∧
    load L.width (base + L.size_off) mem' = load L.width (base + L.size_off) mem := by
  have htot := hL.total_in
  have hsize := hL.size_in
  have hap := hL.apart
  refine ⟨fun a ha hoff => ?_, fun a h₁ h₂ => ?_, fun a h₁ h₂ => ?_, load_eq fun j hj => ?_⟩
  · rw [store_outside hoff, memset_outside (.inl ha), memmove_outside (.inl (by omega))]
  · rw [store_outside (.inr (by omega)), memset_inside ⟨h₁, h₂⟩]
  · rw [store_outside (.inr (by omega)), memset_outside (.inr (by omega))]
    obtain ⟨k, rfl⟩ := Nat.exists_eq_add_of_le h₁
    rw [Nat.add_right_comm, memmove_inside (by omega)]
  · rw [store_outside (by omega), memset_outside (.inl (by omega)),
      memmove_outside (.inl (by omega))]

theorem grow_spec [Fintype ι] {L : Layout} (hL : L.Valid) {s s' : Syspage ι} (h : Packed L s)
    {k : Option ι} {add : ℕ} (hadd : 0 < add) (hn : s.total_size L + round 64 add 8 < 2 ^ 32)
    (hs' : grow_syspage_section L k add s = .ok s') : Grown L k (round 64 add 8) s s' := by
  have hpos := hL.pos
  set n := round 64 add 8 with hndef
  have hbelow := h.below
  have hroom := h.room
  have hword := h.word
  have hlow := h.base_lt_bottom k
  set bottom := s.p k + s.size k with hb
  have hbk : bottom ≤ s.base + s.total_size L := hbelow k
  have hbot : addW 64 (s.lsp k).p (s.lsp k).size = bottom := addW_of_lt (by
    change bottom < 2 ^ 64
    omega)
  simp only [grow_syspage_section, hadd, if_true, ← hndef] at hs'
  rw [Nat.mod_eq_of_lt (show n < 2 ^ 32 by omega), addW_of_lt hn, hbot] at hs'
  split_ifs at hs' with hmax
  have hlim := h.limit
  have hroom' : s.base + s.total_size L + n < 2 ^ 64 := by omega
  -- The pointers, and with them the header, which is below what moves.
  have hshift : ∀ i, (shiftSections k bottom n s.lsp i).p =
      if i ≠ k ∧ bottom ≤ s.p i then s.p i + n else s.p i := fun i =>
    shiftSections_p i (by
      have hi : (s.lsp i).p + s.size i ≤ s.base + s.total_size L := hbelow i
      omega)
  have hnone : (shiftSections k bottom n s.lsp none).p = s.base := by
    rw [hshift, if_neg, s.base_eq]
    rintro ⟨-, hle⟩
    rw [← s.base_eq] at hle
    omega
  set lsp' := shiftSections k bottom n s.lsp
  have hbase : Syspage.base { s with lsp := lsp' } = s.base := hnone
  have htotal : Syspage.total_size L { s with lsp := lsp' } = s.total_size L := by
    rw [Syspage.total_size, hbase]; rfl
  have hlen := grow_len (show s.base ≤ bottom by omega) hbk hword (by omega)
  have hup : ∀ i, (Function.update lsp' k { lsp' k with size := addW 32 (lsp' k).size n } i).p =
      (lsp' i).p := by
    intro i
    by_cases hik : i = k
    · rw [hik, Function.update_self]
    · rw [Function.update_of_ne hik]
  rw [htotal, hbase, hlen, addW_of_lt (show bottom + n < 2 ^ 64 by omega), hup, hnone] at hs'
  obtain ⟨hmlow, hmzero, hmhigh, hmmax⟩ := grow_mem hL s.mem n
    (s.total_size L - (bottom - s.base)) (s.total_size L + n) hlow
  cases hs'
  have hnewbase : ∀ (m : ℕ → UInt8) (f : ℕ) (pd : List CoInfo),
      Syspage.base ⟨m, Function.update lsp' k
      { lsp' k with size := addW 32 (lsp' k).size n }, f, pd⟩ = s.base := by
    intro m f pd
    rw [Syspage.base, hup, hnone]
  refine ⟨fun i => ?_, fun i => ?_, hmlow, hmzero, fun a h₁ h₂ => hmhigh a h₁ (by omega), ?_,
    hnewbase _ _ _, ?_, ?_, rfl, hroom'⟩
  · rw [← hshift i, ← hup i]; rfl
  · by_cases hik : i = k
    · subst hik
      have hi := hbelow i
      have hle := h.base_le i
      change (Function.update lsp' i _ i).size = _
      rw [if_pos rfl, Function.update_self, shiftSections_size]
      exact addW_of_lt (by change s.size i + n < 2 ^ 32; omega)
    · change (Function.update lsp' k _ i).size = _
      rw [if_neg hik, Function.update_of_ne hik, shiftSections_size]
      rfl
  · rw [callout_reloc_data]
    refine List.map_congr_left fun pd _ => ?_
    rw [addW_of_lt (by omega), show bottom + (s.total_size L - (bottom - s.base)) =
      s.base + s.total_size L by omega]
    split_ifs with hc
    · rw [addW_of_lt (by omega)]
    · rfl
  · rw [Syspage.total_size, hnewbase, load_store, Nat.mod_eq_of_lt]
    have := load_lt L.width (s.base + L.size_off) s.mem
    exact (not_lt.mp hmax).trans_lt this
  · rw [Syspage.max_size, hnewbase]
    exact hmmax

namespace Grown

variable {L : Layout} {k : Option ι} {n : ℕ} {s s' : Syspage ι}

theorem p_self (g : Grown L k n s s') : s'.p k = s.p k := by
  rw [g.p, if_neg fun hc => hc.1 rfl]

theorem p_of_ne (g : Grown L k n s s') {i : Option ι} (hi : i ≠ k) :
    s'.p i = if s.p k + s.size k ≤ s.p i then s.p i + n else s.p i := by
  rw [g.p]
  simp only [hi, ne_eq, not_false_eq_true, true_and]

theorem size_self (g : Grown L k n s s') : s'.size k = s.size k + n := by
  rw [g.size, if_pos rfl]

theorem size_of_ne (g : Grown L k n s s') {i : Option ι} (hi : i ≠ k) : s'.size i = s.size i := by
  rw [g.size, if_neg hi]

/-- Growing a section at or behind `fixed_size` leaves it a boundary. -/
theorem boundary (g : Grown L k n s s') (hb : Boundary L s) (hpos : 0 < s.size none)
    (hk : s.base + s.fixed_size ≤ s.p k) : Boundary L s' where
  between i := by
    have hi := hb.between i
    rw [g.base, g.fixed]
    by_cases hik : i = k
    · subst hik
      rw [g.p_self]
      exact .inr hk
    · rw [g.p_of_ne hik, g.size_of_ne hik]
      split_ifs <;> omega
  header := by
    have hh := hb.header
    have hne : none ≠ k := by
      rintro rfl
      rw [s.base_eq] at hk
      omega
    rw [g.fixed, g.size, if_neg hne]
    exact hh
  below := by
    rw [g.fixed, g.total]
    exact hb.below.trans (Nat.le_add_right _ _)

variable [Fintype ι]

theorem packed (g : Grown L k n s s') (h : Packed L s) (hn : s.total_size L + n < 2 ^ 32) :
    Packed L s' where
  order i j hij := by
    have hi := h.order i j hij
    by_cases hik : i = k
    · subst hik
      rw [g.p_self, g.size_self, g.p_of_ne hij.symm, g.size_of_ne hij.symm]
      split_ifs <;> omega
    · have hi' := h.order i k hik
      by_cases hjk : j = k
      · subst hjk
        rw [g.p_self, g.size_self, g.p_of_ne hik, g.size_of_ne hik]
        split_ifs <;> omega
      · have hj' := h.order j k hjk
        rw [g.p_of_ne hik, g.size_of_ne hik, g.p_of_ne hjk, g.size_of_ne hjk]
        split_ifs <;> omega
  above i := by
    have hi := h.above i
    rw [g.base, g.size, g.p]
    by_cases hk : none = k
    · -- The header grew, and everything is behind it.
      subst hk
      have hc : some i ≠ none ∧ s.p none + s.size none ≤ s.p (some i) := ⟨by simp, hi⟩
      rw [if_pos rfl, if_pos hc]
      omega
    · rw [if_neg hk]
      split_ifs <;> omega
  below i := by
    have hi := h.below i
    rw [g.base, g.total]
    by_cases hik : i = k
    · subst hik
      rw [g.p_self, g.size_self]
      omega
    · rw [g.p_of_ne hik, g.size_of_ne hik]
      split_ifs <;> omega
  header := by
    have := h.header
    rw [g.size]
    split_ifs <;> omega
  total := by
    have hsum : ∀ i, s'.size i = s.size i + if i = k then n else 0 := by
      intro i
      rw [g.size]
      split_ifs <;> simp
    rw [g.total, h.total, Finset.sum_congr rfl fun i _ => hsum i, Finset.sum_add_distrib,
      Finset.sum_ite_eq' Finset.univ k fun _ => n, if_pos (Finset.mem_univ k)]
  word := by rw [g.total]; exact hn
  room := by rw [g.base, g.total, ← Nat.add_assoc]; exact g.room
  limit := by rw [g.base, g.max]; exact h.limit

theorem framed (hL : L.Valid) (g : Grown L k n s s') (h : Packed L s) : Framed L s s' := by
  have htot := hL.total_in
  have hhead := h.header
  have hbk := h.base_lt_bottom k
  -- What does not move ends before what does.
  have hstay : ∀ i, ¬ (i ≠ k ∧ s.p k + s.size k ≤ s.p i) →
      s.p i + s.size i ≤ s.p k + s.size k := by
    intro i hc
    by_cases hik : i = k
    · rw [hik]
    · rcases h.order i k hik with ho | ho
      · omega
      · exact absurd ⟨hik, ho⟩ hc
  refine ⟨fun i o ho => ?_, fun o ho hoff => ?_, fun i => ?_, fun i o h₁ h₂ => ?_, ?_⟩
  · have hab := h.above i
    have hbe := h.below (some i)
    rw [g.p]
    split_ifs with hc
    · rw [Nat.add_right_comm]
      exact g.high _ (by omega) (by omega)
    · have := hstay _ hc
      exact g.low _ (by omega) (by omega)
  · have hbot : s.base + s.size none ≤ s.p k + s.size k := by
      cases k with
      | none => exact le_rfl
      | some j => have := h.above j; omega
    rw [g.base]
    exact g.low _ (by omega) (by have := hoff.1; omega)
  · rw [g.size]
    split_ifs <;> omega
  · rw [g.size] at h₂
    split_ifs at h₂ with hik
    · subst hik
      rw [g.p, if_neg fun hc => hc.1 rfl]
      exact g.zero _ (by omega) (by omega)
    · omega
  · intro i pd hpd o ho how
    have hbe := h.below i
    rw [g.patch]
    refine List.mem_map.mpr ⟨pd, hpd, ?_⟩
    rw [g.p]
    by_cases hc : i ≠ k ∧ s.p k + s.size k ≤ s.p i
    · rw [if_pos hc, if_pos (by omega), how, Nat.add_right_comm]
    · have := hstay _ hc
      rw [if_neg hc, if_neg (by omega), ← how]

end Grown

/-! ### The calls -/

omit [DecidableEq ι] in
theorem Framed.refl (L : Layout) (s : Syspage ι) : Framed L s s :=
  ⟨fun _ _ _ => rfl, fun _ _ _ => rfl, fun _ => le_rfl, fun _ _ h₁ h₂ => absurd h₂ (by omega),
    fun _ pd hpd _ _ how => by rw [← how]; exact hpd⟩

omit [DecidableEq ι] in
/-- Where an empty section stands does not matter for its bytes. -/
theorem Framed.of_lsp {L : Layout} {s s₁ s' : Syspage ι} (h : Framed L s₁ s')
    (hmem : s₁.mem = s.mem) (hpatch : s₁.patch_data = s.patch_data) (hbase : s₁.base = s.base)
    (hsize : ∀ i, s₁.size i = s.size i) (hp : ∀ i, s.size i ≠ 0 → s₁.p i = s.p i) :
    Framed L s s' where
  kept i o ho := by
    rw [h.kept i o (by rw [hsize]; exact ho), hmem, hp _ (by omega)]
  header o ho hoff := by
    rw [h.header o (by rw [hsize]; exact ho) hoff, hmem, hbase]
  longer i := hsize i ▸ h.longer i
  zero i o h₁ h₂ := h.zero i o (by rw [hsize]; exact h₁) h₂
  registered i pd hpd o ho how :=
    h.registered i pd (hpatch ▸ hpd) o (by rw [hsize]; exact ho) (by rw [how, hp _ (by omega)])

/-- The state in which `set_syspage_section` has placed section `k` and reserved `n` bytes. -/
def Syspage.placed (s : Syspage ι) (k : Option ι) (n : ℕ) : Syspage ι where
  mem := s.mem
  lsp := Function.update s.lsp k { s.lsp k with p := s.base + s.fixed_size }
  fixed_size := s.fixed_size + n
  patch_data := s.patch_data

section Calls

variable {L : Layout} {s s' : Syspage ι} {k : Option ι} {n : ℕ}

theorem placed_p (s : Syspage ι) (k : Option ι) (n : ℕ) (i : Option ι) :
    (s.placed k n).p i = if i = k then s.base + s.fixed_size else s.p i := by
  simp only [Syspage.p, Syspage.placed, Function.update_apply]
  split_ifs <;> rfl

theorem placed_size (s : Syspage ι) (k : Option ι) (n : ℕ) (i : Option ι) :
    (s.placed k n).size i = s.size i := by
  simp only [Syspage.size, Syspage.placed, Function.update_apply]
  split_ifs with hik
  · rw [hik]
  · rfl

theorem placed_base (hk : k ≠ none) : (s.placed k n).base = s.base := by
  rw [Syspage.base_eq, placed_p, if_neg hk.symm]
  rfl

theorem placed_total (hk : k ≠ none) : (s.placed k n).total_size L = s.total_size L := by
  rw [Syspage.total_size, placed_base hk]
  rfl

theorem placed_packed [Fintype ι] (h : Packed L s) (hb : Boundary L s) (hk : k ≠ none)
    (hempty : s.size k = 0) : Packed L (s.placed k n) where
  order i j hij := by
    have hij' := h.order i j hij
    rw [placed_p, placed_p, placed_size, placed_size]
    by_cases hik : i = k
    · subst hik
      have := hb.between j
      rw [if_pos rfl, if_neg hij.symm]
      omega
    · have := hb.between i
      rw [if_neg hik]
      split_ifs with hjk
      · subst hjk
        omega
      · exact hij'
  above i := by
    have hi := h.above i
    have hh := hb.header
    rw [placed_base hk, placed_size, placed_p]
    split_ifs <;> omega
  below i := by
    have hi := h.below i
    have hbb := hb.below
    rw [placed_base hk, placed_size, placed_p, placed_total hk]
    split_ifs with hik
    · subst hik
      omega
    · exact hi
  header := by rw [placed_size]; exact h.header
  total := by
    rw [placed_total hk, h.total]
    exact Finset.sum_congr rfl fun i _ => (placed_size s k n i).symm
  word := by rw [placed_total hk]; exact h.word
  room := by rw [placed_base hk, placed_total hk]; exact h.room
  limit := by
    have hmax : (s.placed k n).max_size L = s.max_size L := by
      rw [Syspage.max_size, placed_base hk]
      rfl
    rw [placed_base hk, hmax]
    exact h.limit

/-- Framing does not look at where an empty section stands. -/
theorem framed_of_placed (hk : k ≠ none) (hempty : s.size k = 0)
    (h : Framed L (s.placed k n) s') : Framed L s s' := by
  refine h.of_lsp rfl rfl (placed_base hk) (placed_size s k n) fun i hi => ?_
  rw [placed_p, if_neg]
  rintro rfl
  exact hi hempty

/-- `round` to 8 leaves a multiple of 8 as it is. -/
theorem round_round {x : ℕ} (h : round 64 x 8 < 2 ^ 32) (hx : x < 2 ^ 32) :
    round 64 (round 64 x 8) 8 = round 64 x 8 := by
  have h₁ : round 64 x 8 = (x + 7) / 8 * 8 :=
    round_two_pow (k := 3) (by decide) (by omega)
  have h₂ : round 64 (round 64 x 8) 8 = (round 64 x 8 + 7) / 8 * 8 :=
    round_two_pow (k := 3) (by decide) (by omega)
  omega

theorem set_spec [Fintype ι] (hL : L.Valid) (h : Packed L s) (hb : Boundary L s)
    (hempty : s.size k = 0) {size : ℕ} (hsz : size < 2 ^ 32)
    (hn : s.total_size L + round 64 size 8 < 2 ^ 32)
    (hs' : set_syspage_section L k size s = .ok s') :
    Packed L s' ∧ Boundary L s' ∧ Framed L s s' := by
  have hroom := h.room
  have hbb := hb.below
  have hk : k ≠ none := by
    have hpos := hL.pos
    have hhead := h.header
    rintro rfl
    omega
  have hround := round_round (show round 64 size 8 < 2 ^ 32 by omega) hsz
  simp only [set_syspage_section] at hs'
  set n := round 64 size 8
  rw [Nat.mod_eq_of_lt (show n < 2 ^ 32 by omega),
    addW_of_lt (show s.base + s.fixed_size < 2 ^ 64 by omega),
    addW_of_lt (show s.fixed_size + n < 2 ^ 32 by omega)] at hs'
  have hs' : grow_syspage_section L k n (s.placed k n) = .ok s' := hs'
  have hp : Packed L (s.placed k n) := placed_packed h hb hk hempty
  have hn' : (s.placed k n).total_size L + n < 2 ^ 32 := by rwa [placed_total hk]
  rcases Nat.eq_zero_or_pos n with hz | hpos
  · -- Nothing is reserved, and the section stays empty.
    rw [hz] at hs' hp
    cases hs'
    refine ⟨hp, ⟨fun i => ?_, ?_, ?_⟩, framed_of_placed hk hempty (.refl L _)⟩
    · rw [placed_base hk, placed_size, placed_p]
      split_ifs
      · exact .inr le_rfl
      · exact hb.between i
    · rw [placed_size]; exact hb.header
    · rw [placed_total hk]; exact hb.below
  · have g := grow_spec hL hp hpos (by rw [hround]; exact hn') hs'
    rw [hround] at g
    refine ⟨g.packed hp hn', ⟨fun i => ?_, ?_, ?_⟩, framed_of_placed hk hempty (g.framed hL hp)⟩
    · -- What was at or behind the old boundary is behind the new one.
      have hi := hb.between i
      rw [g.base, g.fixed, placed_base hk]
      change _ ∨ s.base + (s.fixed_size + n) ≤ _
      by_cases hik : i = k
      · subst hik
        rw [g.p_self, g.size_self, placed_p, placed_size, if_pos rfl]
        change _ ≤ s.base + (s.fixed_size + n) ∨ _
        omega
      · rw [g.p_of_ne hik, g.size_of_ne hik, placed_size, placed_p, placed_p, placed_size,
          if_pos rfl, if_neg hik]
        change _ ≤ s.base + (s.fixed_size + n) ∨ _
        split_ifs <;> omega
    · rw [g.fixed, g.size_of_ne hk.symm, placed_size]
      exact hb.header.trans (Nat.le_add_right _ _)
    · rw [g.fixed, g.total, placed_total hk]
      change s.fixed_size + n ≤ _
      omega

/-- Moving a pointer with the page. -/
theorem addW_diff {base base' o : ℕ} (h : base + o < 2 ^ 64) (h' : base' + o < 2 ^ 64) :
    addW 64 (base + o) (subW 64 base' base) = base' + o := by
  unfold addW subW
  omega

omit [DecidableEq ι] in
/-- The page moves, to a place that does not cover the `total_size` it is read from. -/
theorem reloc_spec [Fintype ι] (hL : L.Valid) (h : Packed L s) {base max_size : ℕ}
    (hroom : base + s.total_size L < 2 ^ 64) (hmax : base + max_size < 2 ^ 64)
    (hoff : base = s.base ∨ base + s.total_size L ≤ s.base + L.total_size_off ∨
      s.base + L.total_size_off + L.width ≤ base) :
    Packed L (reloc_syspage_memory L base max_size s) ∧
    (Boundary L s → Boundary L (reloc_syspage_memory L base max_size s)) ∧
    Framed L s (reloc_syspage_memory L base max_size s) := by
  have htot := hL.total_in
  have hsin := hL.size_in
  have hap := hL.apart
  have hhead := h.header
  have hroom' := h.room
  have hle : s.size none ≤ s.total_size L := by
    have := h.below none
    rw [s.base_eq] at this
    omega
  -- The old header still says how long the page is.
  have hread : load L.width (s.base + L.total_size_off)
      (memmove base s.base (s.total_size L) s.mem) = s.total_size L := by
    refine load_eq fun j hj => ?_
    rcases hoff with rfl | hoff
    · rw [Nat.add_assoc, memmove_inside (by omega)]
    · exact memmove_outside (by omega)
  set s' := reloc_syspage_memory L base max_size s with hs'
  have hp : ∀ i, s'.p i = base + (s.p i - s.base) := by
    intro i
    have h₁ := h.base_le i
    have h₂ := h.below i
    have hsum : s.p i = s.base + (s.p i - s.base) := by omega
    change addW 64 (s.p i) (subW 64 base s.base) = _
    rw [hsum, addW_diff (by omega) (by omega), Nat.add_sub_cancel_left]
  have hsize : ∀ i, s'.size i = s.size i := fun _ => rfl
  have hbase : s'.base = base := by
    rw [Syspage.base_eq, hp, s.base_eq, Nat.sub_self, Nat.add_zero]
  have hmem : ∀ a < s.total_size L, (a < L.size_off ∨ L.size_off + L.width ≤ a) →
      s'.mem (base + a) = s.mem (s.base + a) := by
    intro a ha hout
    change store L.width (s'.base + L.size_off) max_size _ (base + a) = _
    rw [hbase, store_outside (by omega)]
    exact memmove_inside ha
  have htotal : s'.total_size L = s.total_size L := by
    refine load_eq fun j hj => ?_
    rw [hbase, Nat.add_assoc, Nat.add_assoc]
    exact hmem _ (by omega) (by omega)
  have hlimit : s'.max_size L ≤ max_size := by
    change load L.width (s'.base + L.size_off)
      (store L.width (s'.base + L.size_off) max_size _) ≤ _
    rw [load_store]
    exact Nat.mod_le _ _
  refine ⟨⟨fun i j hij => ?_, fun i => ?_, fun i => ?_, hhead, ?_, ?_, ?_, ?_⟩, fun hb => ?_, ?_⟩
  · have := h.order i j hij
    have := h.base_le i
    have := h.base_le j
    rw [hp, hp, hsize, hsize]
    omega
  · have := h.above i
    rw [hbase, hp, hsize]
    omega
  · have := h.below i
    have := h.base_le i
    rw [hbase, hp, hsize, htotal]
    omega
  · rw [htotal]; exact h.total
  · rw [htotal]; exact h.word
  · rw [hbase, htotal]; exact hroom
  · rw [hbase]; omega
  · refine ⟨fun i => ?_, hb.header, by rw [htotal]; exact hb.below⟩
    have := hb.between i
    have := h.base_le i
    rw [hbase, hp, hsize]
    change _ ≤ base + s.fixed_size ∨ base + s.fixed_size ≤ _
    omega
  · refine ⟨fun i o ho => ?_, fun o ho hf => ?_, fun i => le_rfl, fun i o h₁ h₂ => ?_, ?_⟩
    · have h₁ := h.above i
      have h₂ := h.below (some i)
      rw [hp, Nat.add_assoc, hmem _ (by omega) (by omega)]
      congr 1
      omega
    · rw [hbase]
      exact hmem _ (by omega) hf.2
    · rw [hsize] at h₂
      omega
    · intro i pd hpd o ho how
      have h₁ := h.base_le i
      have h₂ := h.below i
      have hin : s.base ≤ pd.owner ∧ pd.owner < addW 64 s.base (s.total_size L) := by
        rw [addW_of_lt hroom']
        omega
      have hmoved : addW 64 pd.owner (subW 64 base s.base) = base + (s.p i - s.base) + o := by
        have hsum : pd.owner = s.base + (s.p i - s.base + o) := by omega
        rw [hsum, addW_diff (by omega) (by omega), Nat.add_assoc]
      change _ ∈ callout_reloc_data s.base (load L.width (s.base + L.total_size_off) _)
        (subW 64 base s.base) s.patch_data
      rw [hread, callout_reloc_data]
      refine List.mem_map.mpr ⟨pd, hpd, ?_⟩
      rw [if_pos hin, hmoved, hp]

end Calls

/-! ### Runs -/

/-- A call on the system page. -/
inductive SysCall (ι : Type) where
  | grow (sect : Option ι) (add : ℕ)
  | set (sect : Option ι) (size : ℕ)
  | reloc (base max_size : ℕ)
  | register (rp data : ℕ) (patched : Bool)

namespace SysCall

def run (L : Layout) : SysCall ι → Syspage ι → Except Crash (Syspage ι)
  | .grow sect add, s => grow_syspage_section L sect add s
  | .set sect size, s => set_syspage_section L sect size s
  | .reloc base max_size, s => .ok (reloc_syspage_memory L base max_size s)
  | .register rp data patched, s => .ok (callout_register_data rp data patched s)

/-- What the calls are allowed to be: an `unsigned` is one, a section that is set is still empty,
and the page is moved to where there is memory for it. -/
def Legal (L : Layout) : SysCall ι → Syspage ι → Prop
  | .grow _ add, _ => add < 2 ^ 32
  | .set sect size, s => size < 2 ^ 32 ∧ s.size sect = 0
  | .reloc base max_size, s => base + s.total_size L < 2 ^ 64 ∧ base + max_size < 2 ^ 64
  | .register _ _ _, _ => True

/-- Sizes do not wrap, and a move does not cover the field the code reads after it. -/
def NoWrap (L : Layout) : SysCall ι → Syspage ι → Prop
  | .grow _ n, s | .set _ n, s => s.total_size L + round 64 n 8 < 2 ^ 32
  | .reloc base _, s => base = s.base ∨ base + s.total_size L ≤ s.base + L.total_size_off ∨
      s.base + L.total_size_off + L.width ≤ base
  | .register _ _ _, _ => True

/-- The header or a section in front of `fixed_size` grows. -/
def GrowsFixed : SysCall ι → Syspage ι → Prop
  | .grow sect add, s => 0 < add ∧ s.p sect < s.base + s.fixed_size
  | _, _ => False

def IsSet : SysCall ι → Prop
  | .set _ _ => True
  | _ => False

instance (L : Layout) : ∀ (c : SysCall ι) (s : Syspage ι), Decidable (c.Legal L s)
  | .grow _ _, _ => inferInstanceAs (Decidable (_ < _))
  | .set _ _, _ | .reloc _ _, _ => inferInstanceAs (Decidable (_ ∧ _))
  | .register _ _ _, _ => isTrue trivial

instance (L : Layout) : ∀ (c : SysCall ι) (s : Syspage ι), Decidable (c.NoWrap L s)
  | .grow _ _, _ | .set _ _, _ => inferInstanceAs (Decidable (_ < _))
  | .reloc _ _, _ => inferInstanceAs (Decidable (_ ∨ _))
  | .register _ _ _, _ => isTrue trivial

instance : ∀ (c : SysCall ι) (s : Syspage ι), Decidable (c.GrowsFixed s)
  | .grow _ _, _ => inferInstanceAs (Decidable (_ ∧ _))
  | .set _ _, _ | .reloc _ _, _ | .register _ _ _, _ => isFalse id

instance : ∀ c : SysCall ι, Decidable c.IsSet
  | .set _ _ => isTrue trivial
  | .grow _ _ | .reloc _ _ | .register _ _ _ => isFalse id

end SysCall

/-- The calls of a run are legal and do not wrap, and no fixed section grows before another one is
set. -/
def FixedFirst (L : Layout) : List (SysCall ι) → Syspage ι → Prop
  | [], _ => True
  | c :: cs, s => c.Legal L s ∧ c.NoWrap L s ∧ (c.GrowsFixed s → ∀ d ∈ cs, ¬ d.IsSet) ∧
      IfOk (c.run L s) (FixedFirst L cs)

instance decideFixedFirst (L : Layout) : ∀ cs : List (SysCall ι), DecidablePred (FixedFirst L cs)
  | [], _ => isTrue trivial
  | c :: cs, s =>
      haveI := decideFixedFirst L cs
      inferInstanceAs (Decidable (c.Legal L s ∧ c.NoWrap L s ∧
        (c.GrowsFixed s → ∀ d ∈ cs, ¬ d.IsSet) ∧ IfOk (c.run L s) (FixedFirst L cs)))

/-- After every call of the run that comes back the sections are where they are to be, with their
bytes. -/
def KeptBy [Fintype ι] (L : Layout) : List (SysCall ι) → Syspage ι → Prop
  | [], _ => True
  | c :: cs, s => IfOk (c.run L s) fun s' => Tiled L s' ∧ Framed L s s' ∧ KeptBy L cs s'

theorem SysCall.run_packed [Fintype ι] {L : Layout} (hL : L.Valid) {c : SysCall ι}
    {s s' : Syspage ι} (h : Packed L s) (hb : c.IsSet → Boundary L s) (hlegal : c.Legal L s)
    (hwrap : c.NoWrap L s) (hs' : c.run L s = .ok s') :
    Packed L s' ∧ Framed L s s' ∧ (Boundary L s → ¬ c.GrowsFixed s → Boundary L s') := by
  cases c with
  | grow k add =>
      rcases Nat.eq_zero_or_pos add with rfl | hadd
      · cases hs'
        exact ⟨h, .refl L s, fun hb _ => hb⟩
      · have g := grow_spec hL h hadd hwrap hs'
        refine ⟨g.packed h hwrap, g.framed hL h, fun hb hfix => g.boundary hb ?_ ?_⟩
        · have hpos := hL.pos
          have hhead := h.header
          omega
        · exact not_lt.mp fun hlt => hfix ⟨hadd, hlt⟩
  | set k size =>
      obtain ⟨h', hb', hf⟩ := set_spec hL h (hb trivial) hlegal.2 hlegal.1 hwrap hs'
      exact ⟨h', hf, fun _ _ => hb'⟩
  | reloc base max_size =>
      cases hs'
      obtain ⟨h', hb', hf⟩ := reloc_spec hL h hlegal.1 hlegal.2 hwrap
      exact ⟨h', hf, fun hb _ => hb' hb⟩
  | register rp data patched =>
      cases hs'
      simp only [callout_register_data]
      split_ifs
      · refine ⟨⟨h.order, h.above, h.below, h.header, h.total, h.word, h.room, h.limit⟩, ?_,
          fun hb _ => ⟨hb.between, hb.header, hb.below⟩⟩
        have hf := Framed.refl L s
        exact ⟨hf.kept, hf.header, hf.longer, hf.zero, fun i pd hpd o ho how =>
          List.mem_cons_of_mem _ (hf.registered i pd hpd o ho how)⟩
      · exact ⟨h, .refl L s, fun hb _ => hb⟩

theorem keptBy_of_fixedFirst [Fintype ι] {L : Layout} (hL : L.Valid) {cs : List (SysCall ι)}
    {s : Syspage ι} (h : Packed L s) (hb : Boundary L s ∨ ∀ c ∈ cs, ¬ c.IsSet)
    (hff : FixedFirst L cs s) : KeptBy L cs s := by
  induction cs generalizing s with
  | nil => trivial
  | cons c cs ih =>
      obtain ⟨hlegal, hwrap, hfix, hrest⟩ := hff
      intro s' hs'
      have hset : c.IsSet → Boundary L s := fun hc =>
        hb.resolve_right fun hno => hno c (by simp) hc
      obtain ⟨h', hf, hb'⟩ := SysCall.run_packed hL h hset hlegal hwrap hs'
      refine ⟨h'.tiled, hf, ih h' ?_ (hrest s' hs')⟩
      -- The boundary lasts until a fixed section grows, and then it is not needed any more.
      by_cases hg : c.GrowsFixed s
      · exact .inr (hfix hg)
      · rcases hb with hb | hno
        · exact .inl (hb' hb hg)
        · exact .inr fun d hd => hno d (by simp [hd])

omit [DecidableEq ι] in
/-- `init_syspage_memory` leaves a header and empty sections behind it. -/
theorem init_packed [Fintype ι] {L : Layout} (hL : L.Valid) {base max_size : ℕ}
    (hroom : base + L.spsize < 2 ^ 64) (hmax : base + max_size < 2 ^ 64) (s : Syspage ι) :
    Packed L (init_syspage_memory L base max_size s) ∧
      Boundary L (init_syspage_memory L base max_size s) := by
  have hap := hL.apart
  set s' := init_syspage_memory L base max_size s
  have hp : ∀ i : ι, s'.p (some i) = base + L.spsize := fun i => addW_of_lt hroom
  have hbase : s'.base = base := rfl
  have hnone : s'.p none = base := rfl
  have hsize : s'.size none = L.spsize := rfl
  have hempty : ∀ i : ι, s'.size (some i) = 0 := fun _ => rfl
  have htotal : s'.total_size L = L.spsize := by
    change load L.width (base + L.total_size_off)
      (store L.width (base + L.size_off) max_size
        (store L.width (base + L.total_size_off) L.spsize _)) = _
    rw [load_eq fun j hj => store_outside (by omega), load_store, Nat.mod_eq_of_lt hL.fits]
  have hlimit : s'.max_size L ≤ max_size := by
    change load L.width (base + L.size_off) (store L.width (base + L.size_off) max_size _) ≤ _
    rw [load_store]
    exact Nat.mod_le _ _
  refine ⟨⟨fun i j hij => ?_, fun i => ?_, fun i => ?_, le_rfl, ?_, ?_, ?_, ?_⟩,
    ⟨fun i => ?_, le_rfl, ?_⟩⟩
  · cases i with
    | none =>
        cases j with
        | none => exact absurd rfl hij
        | some j => rw [hnone, hsize, hp]; exact .inl le_rfl
    | some i =>
        cases j with
        | none => rw [hnone, hsize, hp]; exact .inr le_rfl
        | some j => rw [hp, hp, hempty]; exact .inl le_rfl
  · rw [hbase, hsize, hp]
  · cases i with
    | none => rw [hnone, hsize, hbase, htotal]
    | some i => rw [hp, hempty, hbase, htotal, Nat.add_zero]
  · rw [htotal, Fintype.sum_option, hsize]
    simp [hempty]
  · rw [htotal]; exact hL.small
  · rw [hbase, htotal]; exact hroom
  · rw [hbase]; omega
  · cases i with
    | none => exact .inl le_rfl
    | some i => rw [hp]; exact .inr le_rfl
  · rw [htotal]; exact le_rfl

/-- **Sections keep their bytes.**  From `init_syspage_memory` on, whatever calls are made, as long
as no fixed section grows before another one is set: after every call the sections are disjoint and
fill the page up to `total_size`, each has the bytes it had, with zeros added, and addresses
registered in it still point to the same place in it. -/
theorem sections_keep_their_bytes [Fintype ι] {L : Layout} (hL : L.Valid) {base max_size : ℕ}
    (hroom : base + L.spsize < 2 ^ 64) (hmax : base + max_size < 2 ^ 64) (s : Syspage ι)
    {cs : List (SysCall ι)} (hff : FixedFirst L cs (init_syspage_memory L base max_size s)) :
    Tiled L (init_syspage_memory L base max_size s) ∧
      KeptBy L cs (init_syspage_memory L base max_size s) := by
  obtain ⟨hp, hb⟩ := init_packed hL hroom hmax s
  exact ⟨hp.tiled, keptBy_of_fixedFirst hL hp (.inl hb) hff⟩

/-- A header of 16 bytes with two 32-bit fields. -/
def smallLayout : Layout := ⟨16, 0, 4, 4⟩

def smallPage : Syspage (Fin 2) :=
  init_syspage_memory smallLayout 0x1000 0x800 ⟨fun _ => 0xff, fun _ => ⟨0, 0⟩, 0, []⟩

/-- A fixed section in front of one that grows, twice, around a registered address and a move. -/
def fixedThenGrown : List (SysCall (Fin 2)) :=
  [.grow (some 1) 5, .set (some 0) 8, .register 0x1018 7 true, .grow (some 1) 9,
    .reloc 0x8000 0x800, .grow (some 0) 1]

theorem sections_keep_their_bytes_moved :
    Tiled smallLayout smallPage ∧ KeptBy smallLayout fixedThenGrown smallPage :=
  sections_keep_their_bytes ⟨by decide, by decide, by decide, by decide, by decide, by decide⟩
    (by decide) (by decide) _ (by decide +kernel)

/-- The calls of a run are legal and do not wrap, whatever grows. -/
def LegalRun (L : Layout) : List (SysCall ι) → Syspage ι → Prop
  | [], _ => True
  | c :: cs, s => c.Legal L s ∧ c.NoWrap L s ∧ IfOk (c.run L s) (LegalRun L cs)

instance decideLegalRun (L : Layout) : ∀ cs : List (SysCall ι), DecidablePred (LegalRun L cs)
  | [], _ => isTrue trivial
  | c :: cs, s =>
      haveI := decideLegalRun L cs
      inferInstanceAs (Decidable (c.Legal L s ∧ c.NoWrap L s ∧ IfOk (c.run L s) (LegalRun L cs)))

/-- A fixed section that grows, and then another one that is set. -/
def grownThenSet : List (SysCall (Fin 2)) := [.set (some 0) 8, .grow (some 0) 8, .set (some 1) 8]

/-- The second section is set inside the first: `fixed_size` did not grow with it. -/
theorem fixed_section_overlaps : LegalRun smallLayout grownThenSet smallPage ∧
    ¬ KeptBy smallLayout grownThenSet smallPage := by
  refine ⟨by decide +kernel, fun hkept => ?_⟩
  have hrun : (do
      let s ← SysCall.run smallLayout (.set (some 0) 8) smallPage
      let s ← SysCall.run smallLayout (.grow (some 0) 8) s
      SysCall.run smallLayout (.set (some 1) 8) s).toOption.map
        (fun s : Syspage (Fin 2) => (s.lsp (some 0), s.lsp (some 1))) =
      some (⟨0x1010, 16⟩, ⟨0x1018, 8⟩) := by decide +kernel
  obtain ⟨s₃, hs₃, hlsp⟩ := Option.map_eq_some_iff.mp hrun
  obtain ⟨s₁, hs₁, hs₃⟩ := bind_eq_ok.mp (toOption_eq_some.mp hs₃)
  obtain ⟨s₂, hs₂, hs₃⟩ := bind_eq_ok.mp hs₃
  obtain ⟨h₀, h₁⟩ := Prod.mk.inj hlsp
  obtain ⟨-, -, hkept⟩ := hkept s₁ hs₁
  obtain ⟨-, -, hkept⟩ := hkept s₂ hs₂
  obtain ⟨htiled, -, -⟩ := hkept s₃ hs₃
  have hap := htiled.apart (some 0) (some 1) (by decide)
  simp only [Syspage.p, Syspage.size, h₀, h₁] at hap
  exact Set.disjoint_left.mp hap (show 0x1018 ∈ Set.Ico 0x1010 (0x1010 + 16) by simp) (by simp)

end Startup
