import RpiBsp.Startup.Mmu.Keeps

/-!
# Startup — MMU — mapping a range

The three loops of `aarch64_map` walk one range of addresses.  A `Job` is what a call is about, and
`Job.leaf` the descriptor it gives to a page: the attributes, the physical address, and the
contiguous bit where a group of 16 pages lies in the range and is aligned on both sides.

* `fill_mapped`, `mapL3_spec`, `mapL2_spec`, `mapL1_spec` — each loop maps what its table covers of
  the range, and keeps every other descriptor;
* `aarch64_map_spec` — so does the call, and it writes to no other pages than its own.
-/

namespace Startup

open Support

/-! ### Jobs -/

/-- What a call maps: the pages of `[va, end_)`, in the table `b`, to what follows `paddr`. -/
structure Job where
  b : Bool
  va : ℕ
  end_ : ℕ
  paddr : ℕ
  attr : ℕ

namespace Job

/-- The first address of a group of 16 pages. -/
def group (u : ℕ) : ℕ := u / 2 ^ 16 * 2 ^ 16

/-- The page is in a group that is mapped as one. -/
def Contig (X : Job) (u : ℕ) : Prop :=
  X.va % 2 ^ 16 = X.paddr % 2 ^ 16 ∧ X.va ≤ group u ∧ group u + 2 ^ 16 ≤ X.end_

instance (X : Job) (u : ℕ) : Decidable (X.Contig u) := inferInstanceAs (Decidable (_ ∧ _ ∧ _))

/-- The descriptor for the page at `u`. -/
def leaf (X : Job) (u : ℕ) : ℕ :=
  X.paddr + (u - X.va) + X.attr + if X.Contig u then PTE_CONTIG else 0

/-- The range is one of pages that one table maps. -/
structure Good (C : MmuConsts) (X : Job) : Prop where
  va : X.va % 2 ^ 12 = 0
  end_ : X.end_ % 2 ^ 12 = 0
  le : X.va ≤ X.end_
  lt : X.end_ < 2 ^ 64
  region : ∀ u, X.va ≤ u → u < X.end_ → Region C X.b u

/-- The physical range stays in the address field of a descriptor. -/
structure Fits (X : Job) : Prop where
  aligned : X.paddr % 2 ^ 12 = 0
  room : X.paddr + (X.end_ - X.va) ≤ 2 ^ 52
  attr : Attr X.attr

/-- Where the walk stands in the range.  A group that is mapped as one is not entered halfway. -/
structure At (X : Job) (w : Walk) : Prop where
  aligned : w.va % 2 ^ 12 = 0
  lo : X.va ≤ w.va
  hi : w.va ≤ X.end_
  pte : X.Fits → w.va < X.end_ → w.pte = X.paddr + (w.va - X.va) + X.attr
  group : X.Fits → X.Contig w.va → w.va % 2 ^ 16 = 0

/-- Between `w` and `w'` the walk mapped what it passed, and nothing else. -/
structure Mapped (C : MmuConsts) (env : MmuEnv) (X : Job) (w w' : Walk) : Prop where
  tables : Tables C env w'.m
  extended : Extended C w.m w'.m
  le : w.va ≤ w'.va
  frame : ∀ c u, Region C c u → ¬ (c = X.b ∧ w.va ≤ u ∧ u < w'.va) → view w'.m c u = view w.m c u
  value : X.Fits → ∀ u, u % 2 ^ 12 = 0 → w.va ≤ u → u < w'.va → view w'.m X.b u = X.leaf u

variable {C : MmuConsts} {env : MmuEnv} {X : Job} {w w' w'' : Walk}

theorem Mapped.refl (h : Tables C env w.m) : X.Mapped C env w w :=
  ⟨h, .refl C w.m, le_rfl, fun _ _ _ _ => rfl, fun _ u _ h₁ h₂ => absurd h₂ (by omega)⟩

/-- What is mapped later leaves alone what is mapped earlier. -/
theorem Mapped.trans (hX : X.Good C) (hw : X.At w) (hw' : X.At w') (h₁ : X.Mapped C env w w')
    (h₂ : X.Mapped C env w' w'') : X.Mapped C env w w'' where
  tables := h₂.tables
  extended := h₁.extended.trans h₂.extended
  le := h₁.le.trans h₂.le
  frame c u hu hout := by
    have hle := h₁.le
    have hle' := h₂.le
    rw [h₂.frame c u hu fun hin => hout ⟨hin.1, hle.trans hin.2.1, hin.2.2⟩,
      h₁.frame c u hu fun hin => hout ⟨hin.1, hin.2.1, hin.2.2.trans_le hle'⟩]
  value hf u hu hlo hhi := by
    by_cases hmid : u < w'.va
    · have hreg := hX.region u (hw.lo.trans hlo) (hmid.trans_le hw'.hi)
      rw [h₂.frame X.b u hreg fun hin => absurd hin.2.1 (not_le.mpr hmid)]
      exact h₁.value hf u hu hlo hmid
    · exact h₂.value hf u hu (not_lt.mp hmid) hhi

theorem Mapped.with_pte (h : X.Mapped C env w w') (pte : ℕ) :
    X.Mapped C env w { w' with pte := pte } :=
  ⟨h.tables, h.extended, h.le, h.frame, h.value⟩

/-- A step that changes no descriptor. -/
theorem Mapped.of_view {m : Mmu} (ht : Tables C env m) (he : Extended C w.m m)
    (hview : ∀ c u, Region C c u → view m c u = view w.m c u) :
    X.Mapped C env w { w with m := m } :=
  ⟨ht, he, le_rfl, fun c u hu _ => hview c u hu, fun _ _ _ h₁ h₂ => absurd h₂ (not_lt.mpr h₁)⟩

end Job

/-! ### The innermost loop -/

theorem addW_page {x : ℕ} (h : x + 2 ^ 12 < 2 ^ 64) : addW 64 x PAGESIZE = x + 2 ^ 12 := by
  rw [show PAGESIZE = 2 ^ 12 from rfl, addW_of_lt h]

/-- What `fill` writes. -/
theorem fill_spec (L3 : ℕ) : ∀ (n i : ℕ) (w : Walk), w.va + n * 2 ^ 12 < 2 ^ 64 →
    (fill L3 n i w).va = w.va + n * 2 ^ 12 ∧
    ∃ mem', (fill L3 n i w).m = { w.m with mem := mem' } ∧
      (∀ q j, ¬ (q = L3 ∧ i ≤ j ∧ j < i + n) → mem' q j = w.m.mem q j) ∧
      (w.pte + n * 2 ^ 12 < 2 ^ 64 → (fill L3 n i w).pte = w.pte + n * 2 ^ 12 ∧
        ∀ j, i ≤ j → j < i + n → mem' L3 j = w.pte + (j - i) * 2 ^ 12)
  | 0, i, w, _ => by
      refine ⟨rfl, w.m.mem, rfl, fun _ _ _ => rfl, fun _ => ⟨rfl, fun j h₁ h₂ => ?_⟩⟩
      omega
  | n + 1, i, w, hva => by
      have hva' : addW 64 w.va PAGESIZE = w.va + 2 ^ 12 := addW_page (by omega)
      rw [fill, hva']
      obtain ⟨h₁, mem', h₂, h₃, h₄⟩ := fill_spec L3 n (i + 1)
        ⟨w.va + 2 ^ 12, addW 64 w.pte PAGESIZE, w.m.write L3 i w.pte⟩
        (show w.va + 2 ^ 12 + n * 2 ^ 12 < 2 ^ 64 by omega)
      dsimp only at h₁ h₄
      refine ⟨by rw [h₁]; omega, mem', h₂, ?_, ?_⟩
      · intro q j hqj
        rw [h₃ q j fun hin => hqj ⟨hin.1, by omega, by omega⟩]
        refine Mmu.write_other _ ?_
        by_cases hq : q = L3
        · exact .inr fun hj => hqj ⟨hq, by omega, by omega⟩
        · exact .inl hq
      · intro hpte
        have hpte' : addW 64 w.pte PAGESIZE = w.pte + 2 ^ 12 := addW_page (by omega)
        simp only [hpte'] at h₄
        obtain ⟨h₅, h₆⟩ := h₄ (by omega)
        rw [hpte']
        refine ⟨by rw [h₅]; omega, fun j hj hj' => ?_⟩
        rcases hj.eq_or_lt with rfl | hj
        · rw [h₃ L3 i (by omega), Mmu.write_same, Nat.sub_self, Nat.zero_mul, Nat.add_zero]
        · rw [h₆ j hj (by omega)]
          omega

section Loops

variable {C : MmuConsts} {env : MmuEnv} {X : Job}

/-- A round of the L3 loop, whether it does one page or a group. -/
theorem fill_mapped (hC : C.Standard) (hX : X.Good C) {w : Walk} (hw : X.At w)
    (ht : Tables C env w.m) {L3 : ℕ} (hL3 : w.m.walk X.b (path w.va) = some L3) (n pte : ℕ)
    (hn : 0 < n) (hend : w.va + n * 2 ^ 12 ≤ X.end_) (htop : w.va % 2 ^ 21 + n * 2 ^ 12 ≤ 2 ^ 21)
    (hpte : X.Fits → pte + n * 2 ^ 12 < 2 ^ 64)
    (hval : X.Fits → ∀ k < n, pte + k * 2 ^ 12 = X.leaf (w.va + k * 2 ^ 12)) :
    X.Mapped C env w (fill L3 n (L3_IDX w.va) { w with pte := pte }) ∧
    (fill L3 n (L3_IDX w.va) { w with pte := pte }).va = w.va + n * 2 ^ 12 ∧
    (X.Fits → (fill L3 n (L3_IDX w.va) { w with pte := pte }).pte = pte + n * 2 ^ 12) := by
  have hlt := hX.lt
  have hal := hw.aligned
  have hreg : Region C X.b w.va := hX.region w.va hw.lo (by omega)
  obtain ⟨hva, mem', hm, hsame, hfits⟩ := fill_spec L3 n (L3_IDX w.va) { w with pte := pte }
    (show w.va + n * 2 ^ 12 < 2 ^ 64 by omega)
  obtain ⟨htab, hext, hframe, hread⟩ := ht.put hreg hL3 mem' fun q j hq =>
    hsame q j fun hin => hq hin.1
  refine ⟨⟨hm ▸ htab, hm ▸ hext, by rw [hva]; exact Nat.le_add_right _ _, ?_, ?_⟩, hva,
    fun hf => (hfits (hpte hf)).1⟩
  · intro c u hu hout
    rw [hm]
    refine hframe c u hu fun hc hp => hsame L3 _ fun ⟨_, h₁, h₂⟩ => hout ⟨hc, ?_⟩
    -- Within the table, the index tells the page.
    subst hc
    have hblock := path_inj hC hu hreg hp
    rw [L3_IDX_eq, L3_IDX_eq] at h₁ h₂
    rw [hva]
    dsimp only
    omega
  · intro hf u hu hlo hhi
    rw [hva] at hhi
    dsimp only at hhi
    have hblock : u / 2 ^ 21 = w.va / 2 ^ 21 := by omega
    rw [hm, hread u (path_eq hblock), (hfits (hpte hf)).2 _ (by rw [L3_IDX_eq, L3_IDX_eq]; omega)
      (by rw [L3_IDX_eq, L3_IDX_eq]; omega), hval hf _ (by rw [L3_IDX_eq, L3_IDX_eq]; omega)]
    congr 1
    rw [L3_IDX_eq, L3_IDX_eq]
    omega

theorem use_contig_iff {va pa size : ℕ} : USE_CONTIG va pa size = true ↔
    2 ^ 16 ≤ size ∧ va % 2 ^ 16 = 0 ∧ pa % 2 ^ 16 = 0 := by
  rw [USE_CONTIG, decide_eq_true_iff, show CONTIG_PAGES * PAGESIZE = 2 ^ 16 from rfl,
    Nat.and_two_pow_sub_one_eq_mod, Nat.or_mod_two_pow, Nat.or_eq_zero_iff]

/-- The test of the loop asks for a group that can be mapped as one. -/
theorem use_contig_spec (hX : X.Good C) {w : Walk} (hw : X.At w) (hlt : w.va < X.end_)
    (hf : X.Fits) :
    USE_CONTIG w.va (trunc 64 w.pte PAGESIZE) (X.end_ - w.va) = true ↔
      w.va % 2 ^ 16 = 0 ∧ X.Contig w.va := by
  have hmod := hf.attr.mod
  have hbound := hf.attr.bound
  have hroom := hf.room
  have hal := hf.aligned
  have hlo := hw.lo
  have hhi := hw.hi
  have hwa := hw.aligned
  have hva := hX.va
  have hpte := hw.pte hf hlt
  have htrunc : trunc 64 w.pte PAGESIZE % 2 ^ 16 = (X.paddr + (w.va - X.va)) % 2 ^ 16 := by
    rw [show PAGESIZE = 2 ^ 12 from rfl, trunc_two_pow (by decide) (by omega)]
    omega
  rw [use_contig_iff, htrunc]
  simp only [Job.Contig, Job.group]
  omega

/-- A page outside the groups that are mapped as one. -/
theorem Job.At.single (hX : X.Good C) {w : Walk} (hw : X.At w) (hlt : w.va < X.end_)
    (hno : X.Fits → ¬ X.Contig w.va) {w' : Walk} (hva : w'.va = w.va + 1 * 2 ^ 12)
    (hpte : X.Fits → w'.pte = w.pte + 1 * 2 ^ 12) : X.At w' := by
  have h₁ := hw.aligned
  have h₂ := hX.end_
  have h₃ := hw.lo
  refine ⟨by omega, by omega, by omega, fun hf hlt' => ?_, fun hf hc => ?_⟩
  · rw [hpte hf, hw.pte hf hlt, hva]; omega
  · have := hno hf
    simp only [Job.Contig, Job.group, hva] at this hc ⊢
    omega

theorem Job.At.leaf_single {w : Walk} (hw : X.At w) (hlt : w.va < X.end_)
    (hno : X.Fits → ¬ X.Contig w.va) (hf : X.Fits) : w.pte = X.leaf w.va := by
  rw [Job.leaf, if_neg (hno hf), hw.pte hf hlt, Nat.add_zero]

/-- The bound on a descriptor, with the contiguous bit and whatever is added in a round. -/
theorem Job.At.pte_lt {w : Walk} (hw : X.At w) (hlt : w.va < X.end_) (hf : X.Fits) :
    w.pte < 2 ^ 52 + 2 ^ 63 := by
  have h₁ := hf.room
  have h₂ := hf.attr.bound
  rw [hw.pte hf hlt]
  omega

/-- The contiguous bit is not set yet. -/
theorem Job.At.pte_or {w : Walk} (hX : X.Good C) (hw : X.At w) (hlt : w.va < X.end_)
    (hf : X.Fits) : w.pte ||| PTE_CONTIG = w.pte + 2 ^ 52 := by
  have h₁ := hf.room
  have h₂ := hf.attr.mod
  have h₃ := hf.aligned
  have h₄ := hX.va
  have h₅ := hw.aligned
  have h₆ := hw.lo
  refine or_two_pow ?_
  rw [hw.pte hf hlt]
  omega

/-- A group that is mapped as one. -/
theorem Job.At.leaf_group {w : Walk} (hX : X.Good C) (hw : X.At w) (hlt : w.va < X.end_)
    (hf : X.Fits) (hc : X.Contig w.va) {k : ℕ} (hk : k < 16) :
    (w.pte ||| PTE_CONTIG) + k * 2 ^ 12 = X.leaf (w.va + k * 2 ^ 12) := by
  have h₁ := hw.group hf hc
  have h₂ := hw.lo
  have hsame : Job.group (w.va + k * 2 ^ 12) = Job.group w.va := by
    simp only [Job.group]; omega
  have hck : X.Contig (w.va + k * 2 ^ 12) := by rwa [Job.Contig, hsame]
  rw [Job.leaf, if_pos hck, hw.pte_or hX hlt hf, hw.pte hf hlt, PTE_CONTIG]
  omega

theorem Job.At.group_end {w : Walk} (hX : X.Good C) (hw : X.At w) (hlt : w.va < X.end_)
    (hal : w.va % 2 ^ 16 = 0) (hend : w.va + 16 * 2 ^ 12 ≤ X.end_) {w' : Walk}
    (hva : w'.va = w.va + 16 * 2 ^ 12)
    (hpte : X.Fits → w'.pte = (w.pte ||| PTE_CONTIG) + 16 * 2 ^ 12) :
    X.At { w' with pte := w'.pte &&& notW 64 PTE_CONTIG } := by
  have h₁ := hw.aligned
  have h₂ := hw.lo
  refine ⟨by dsimp only; omega, by dsimp only; omega, by dsimp only; omega, fun hf hlt' => ?_,
    fun _ _ => by dsimp only; omega⟩
  dsimp only at hlt' ⊢
  have h₃ := hf.room
  have h₄ := hf.attr.mod
  have h₅ := hf.aligned
  have h₆ := hX.va
  have h₇ := hf.attr.bound
  have hold := hw.pte hf hlt
  rw [hpte hf, hw.pte_or hX hlt hf]
  have hsub : w.pte + 2 ^ 52 + 16 * 2 ^ 12 &&& notW 64 PTE_CONTIG =
      w.pte + 2 ^ 52 + 16 * 2 ^ 12 - 2 ^ 52 :=
    and_notW_two_pow (by omega) (by decide) (by omega)
  rw [hsub, hold, hva]
  omega

/-- **The loop over an L3 table** maps what the table covers. -/
theorem mapL3_spec (hC : C.Standard) (hX : X.Good C) {L3 T : ℕ} : ∀ (fuel L3i : ℕ) (w : Walk),
    X.At w → Tables C env w.m → w.m.walk X.b (path (T * 2 ^ 21)) = some L3 →
    w.va = T * 2 ^ 21 + L3i * 2 ^ 12 → L3i ≤ 512 → 512 - L3i ≤ fuel →
    X.Mapped C env w (mapL3 L3 X.end_ fuel L3i w) ∧ X.At (mapL3 L3 X.end_ fuel L3i w) ∧
      (mapL3 L3 X.end_ fuel L3i w).va = min ((T + 1) * 2 ^ 21) X.end_ := by
  intro fuel
  induction fuel with
  | zero =>
      intro L3i w hw ht hL3 hva hi hfuel
      have hhi := hw.hi
      exact ⟨.refl ht, hw, by rw [mapL3]; omega⟩
  | succ fuel ih =>
      intro L3i w hw ht hL3 hva hi hfuel
      have hhi := hw.hi
      have hlo := hw.lo
      by_cases hin : L3i < NPTE_PTBL ∧ w.va < X.end_
      · have hi' : L3i < 512 := hin.1
        have hlt := hin.2
        have hal := hw.aligned
        have hend := hX.end_
        have hLi : L3_IDX w.va = L3i := by rw [L3_IDX_eq]; omega
        have hpath : path (T * 2 ^ 21) = path w.va := path_eq (by omega)
        have hreg := hX.region w.va hlo hlt
        rw [mapL3, if_pos hin]
        by_cases hcontig :
            USE_CONTIG w.va (trunc 64 w.pte PAGESIZE) (X.end_ - w.va) = true
        · rw [if_pos hcontig]
          obtain ⟨hsize, hal₁₆, -⟩ := use_contig_iff.mp hcontig
          have hcf : X.Fits → X.Contig w.va :=
            fun hf => ((use_contig_spec hX hw hlt hf).mp hcontig).2
          have hgend : w.va + 16 * 2 ^ 12 ≤ X.end_ := by omega
          rw [show CONTIG_PAGES = 16 from rfl]
          obtain ⟨hmap, hva₁, hpte₁⟩ := fill_mapped hC hX hw ht (hpath ▸ hL3) 16
            (w.pte ||| PTE_CONTIG) (by decide) hgend (by omega)
            (fun hf => by rw [hw.pte_or hX hlt hf]; have := hw.pte_lt hlt hf; omega)
            (fun hf k hk => hw.leaf_group hX hlt hf (hcf hf) hk)
          rw [hLi] at hmap hva₁ hpte₁
          have hw₁ := hw.group_end hX hlt hal₁₆ hgend hva₁ hpte₁
          have hwalk := hmap.extended.walk X.b _ L3 (hpath ▸ dom_path hreg) hL3
          obtain ⟨hmap', hw', hva'⟩ := ih (L3i + 16) _ hw₁ hmap.tables hwalk
            (by rw [hva₁, hva]; omega) (by omega) (by omega)
          exact ⟨(hmap.with_pte _).trans hX hw hw₁ hmap', hw', hva'⟩
        · rw [if_neg hcontig]
          have hno : X.Fits → ¬ X.Contig w.va := fun hf hc =>
            hcontig ((use_contig_spec hX hw hlt hf).mpr ⟨hw.group hf hc, hc⟩)
          obtain ⟨hmap, hva₁, hpte₁⟩ := fill_mapped hC hX hw ht (hpath ▸ hL3) 1 w.pte
            (by decide) (by omega) (by omega)
            (fun hf => by have := hw.pte_lt hlt hf; omega)
            (fun hf k hk => by
              obtain rfl : k = 0 := by omega
              simpa using hw.leaf_single hlt hno hf)
          rw [hLi] at hmap hva₁ hpte₁
          have hw₁ := hw.single hX hlt hno hva₁ hpte₁
          have hwalk := hmap.extended.walk X.b _ L3 (hpath ▸ dom_path hreg) hL3
          obtain ⟨hmap', hw', hva'⟩ := ih (L3i + 1) _ hw₁ hmap.tables hwalk
            (by rw [hva₁, hva]; omega) (by omega) (by omega)
          exact ⟨hmap.trans hX hw hw₁ hmap', hw', hva'⟩
      · rw [mapL3, if_neg hin]
        refine ⟨.refl ht, hw, ?_⟩
        have hi' : L3i = 512 ∨ X.end_ ≤ w.va := by
          simp only [NPTE_PTBL] at hin; omega
        omega

/-- The innermost loop writes to the table only. -/
theorem fill_mem (L3 : ℕ) :
    ∀ (n i : ℕ) (w : Walk), ∃ mem', (fill L3 n i w).m = { w.m with mem := mem' } ∧
    ∀ q j, q ≠ L3 → mem' q j = w.m.mem q j
  | 0, _, w => ⟨w.m.mem, rfl, fun _ _ _ => rfl⟩
  | n + 1, i, w => by
      obtain ⟨mem', hm, hsame⟩ := fill_mem L3 n (i + 1)
        ⟨addW 64 w.va PAGESIZE, addW 64 w.pte PAGESIZE, w.m.write L3 i w.pte⟩
      exact ⟨mem', hm, fun q j hq => (hsame q j hq).trans (Mmu.write_other _ (.inl hq))⟩

theorem mapL3_mem (L3 end_ : ℕ) : ∀ (fuel L3i : ℕ) (w : Walk), ∃ mem',
    (mapL3 L3 end_ fuel L3i w).m = { w.m with mem := mem' } ∧ ∀ q j, q ≠ L3 →
    mem' q j = w.m.mem q j := by
  intro fuel
  induction fuel with
  | zero => exact fun _ w => ⟨w.m.mem, rfl, fun _ _ _ => rfl⟩
  | succ fuel ih =>
      -- A round, and the rounds after it.
      have hround : ∀ (n i i' pte : ℕ) (w w' : Walk), w'.m = (fill L3 n i { w with pte := pte }).m →
          ∃ mem',
          (mapL3 L3 end_ fuel i' w').m = { w.m with mem := mem' } ∧ ∀ q j, q ≠ L3 →
          mem' q j = w.m.mem q j := by
        intro n i i' pte w w' hw'
        obtain ⟨mem₁, hm₁, hsame₁⟩ := fill_mem L3 n i { w with pte := pte }
        obtain ⟨mem₂, hm₂, hsame₂⟩ := ih i' w'
        rw [hw', hm₁] at hm₂ hsame₂
        exact ⟨mem₂, hm₂, fun q j hq => (hsame₂ q j hq).trans (hsame₁ q j hq)⟩
      intro L3i w
      rw [mapL3]
      split_ifs with hin hcontig
      · exact hround CONTIG_PAGES L3i _ (w.pte ||| PTE_CONTIG) w _ rfl
      · exact hround 1 L3i _ w.pte w _ rfl
      · exact ⟨w.m.mem, rfl, fun _ _ _ => rfl⟩

/-- Where an inner loop stops: at the end of the range, or where the next table begins. -/
theorem min_block {B : ℕ} (hB : 0 < B) (q e : ℕ) :
    min ((q + 1) * B) e = e ∨ min ((q + 1) * B) e / B = q + 1 := by
  rcases Nat.le_total ((q + 1) * B) e with h | h
  · rw [min_eq_left h, Nat.mul_div_cancel _ hB]
    exact .inr rfl
  · exact .inl (min_eq_right h)

/-- It does not go past the last of the `n` blocks of an outer table. -/
theorem min_block_le {B n K q p : ℕ} (e : ℕ) (hK : n * B = K) (h : q < p * n) :
    min ((q + 1) * B) e ≤ p * K := by
  calc min ((q + 1) * B) e ≤ (q + 1) * B := min_le_left _ _
    _ ≤ p * n * B := Nat.mul_le_mul_right B h
    _ = p * K := by rw [Nat.mul_assoc, hK]

/-- **The loop over an L2 table** goes on where the inner loop stopped. -/
theorem mapL2_spec (hC : C.Standard) (hX : X.Good C) {L2 T : ℕ} : ∀ (fuel L2i : ℕ) (w w' : Walk),
    X.At w → Tables C env w.m → w.m.walk X.b [T % 512] = some L2 →
    (w.va = X.end_ ∨ w.va / 2 ^ 21 = T * 512 + L2i) → w.va ≤ (T + 1) * 2 ^ 30 → L2i ≤ 512 →
    512 - L2i ≤ fuel → mapL2 C env L2 X.end_ fuel L2i w = .ok w' →
    X.Mapped C env w w' ∧ X.At w' ∧ w'.va = min ((T + 1) * 2 ^ 30) X.end_ ∧ Keeps C w.m w'.m := by
  intro fuel
  induction fuel with
  | zero =>
      intro L2i w w' hw ht hL2 hva htop hi hfuel h
      cases h
      have hhi := hw.hi
      exact ⟨.refl ht, hw, by omega, .refl C w.m⟩
  | succ fuel ih =>
      intro L2i w w' hw ht hL2 hva htop hi hfuel h
      have hhi := hw.hi
      have hlo := hw.lo
      rw [mapL2] at h
      by_cases hin : L2i < NPTE_PTBL ∧ w.va < X.end_
      · have hi' : L2i < 512 := hin.1
        have hfuel' : 512 - (L2i + 1) ≤ fuel := by omega
        have hlt := hin.2
        have hal := hw.aligned
        have hreg := hX.region w.va hlo hlt
        have hblock : w.va / 2 ^ 21 = T * 512 + L2i := by omega
        have hL1 : L1_IDX w.va = T % 512 := by rw [L1_IDX_eq]; omega
        have hL2i : L2_IDX w.va = L2i := by rw [L2_IDX_eq]; omega
        have hpath : path w.va = [T % 512] ++ [L2i] := by rw [path, hL1, hL2i]; rfl
        rw [if_pos hin] at h
        obtain ⟨m, hm, h⟩ := bind_eq_ok.mp h
        obtain ⟨ht₁, hext₁, hwalk₁, hview₁⟩ :=
          ensure_spec hC ht (hpath ▸ dom_path hreg) hL2 hm
        have hw₁ : X.At { w with m := m } := ⟨hw.aligned, hw.lo, hw.hi, hw.pte, hw.group⟩
        have hpath' : path (w.va / 2 ^ 21 * 2 ^ 21) = [T % 512] ++ [L2i] := by
          rw [← hpath]; exact path_eq (by omega)
        obtain ⟨hmap₂, hw₂, hva₂⟩ := mapL3_spec hC hX NPTE_PTBL (L3_IDX w.va) { w with m := m } hw₁
          ht₁ (hpath'.symm ▸ hwalk₁) (by rw [L3_IDX_eq]; dsimp only; omega)
          (by rw [L3_IDX_eq]; omega) (Nat.sub_le _ _)
        have hmap₁ := (Job.Mapped.of_view ht₁ hext₁ hview₁).trans hX hw hw₁ hmap₂
        have hdom : dom C X.b [T % 512] := hL1 ▸ dom_L1 hreg
        -- What the round writes: a new table, and descriptors in the L3 table.
        obtain ⟨mem', hm', hsame⟩ :=
          mapL3_mem (PTP_PADDR (m.mem L2 L2i)) X.end_ NPTE_PTBL (L3_IDX w.va)
          { w with m := m }
        have hkeeps := (ensure_keeps hC ht (hpath ▸ dom_path hreg) hL2 hm).trans
          (hm'.symm ▸ ht₁.put_keeps hreg (hpath.symm ▸ hwalk₁) hsame)
        have hnext := min_block (Nat.two_pow_pos 21) (w.va / 2 ^ 21) X.end_
        rw [← hva₂, hblock, Nat.add_assoc] at hnext
        have hle : min ((T * 512 + L2i + 1) * 2 ^ 21) X.end_ ≤ (T + 1) * 2 ^ 30 :=
          min_block_le X.end_ (n := 512) (by decide) (by omega)
        rw [← hblock, ← hva₂] at hle
        obtain ⟨hmap', hw', hva', hkeeps'⟩ := ih (L2i + 1) _ w' hw₂ hmap₂.tables
          (hmap₁.extended.walk X.b _ L2 hdom hL2) hnext hle hi' hfuel' h
        exact ⟨hmap₁.trans hX hw hw₂ hmap', hw', hva', hkeeps.trans hkeeps'⟩
      · rw [if_neg hin] at h
        cases h
        refine ⟨.refl ht, hw, ?_, .refl C w.m⟩
        have hi' : L2i = 512 ∨ X.end_ ≤ w.va := by
          simp only [NPTE_PTBL] at hin; omega
        omega

theorem mapL1_spec (hC : C.Standard) (hX : X.Good C) {T : ℕ} : ∀ (fuel L1i : ℕ) (w w' : Walk),
    X.At w → Tables C env w.m →
    (w.va = X.end_ ∨ w.va / 2 ^ 30 = T * 512 + L1i) → w.va ≤ (T + 1) * 2 ^ 39 → L1i ≤ 512 →
    512 - L1i ≤ fuel → mapL1 C env (w.m.root X.b) X.end_ fuel L1i w = .ok w' →
    X.Mapped C env w w' ∧ X.At w' ∧ w'.va = min ((T + 1) * 2 ^ 39) X.end_ ∧ Keeps C w.m w'.m := by
  intro fuel
  induction fuel with
  | zero =>
      intro L1i w w' hw ht hva htop hi hfuel h
      cases h
      have hhi := hw.hi
      exact ⟨.refl ht, hw, by omega, .refl C w.m⟩
  | succ fuel ih =>
      intro L1i w w' hw ht hva htop hi hfuel h
      have hhi := hw.hi
      have hlo := hw.lo
      rw [mapL1] at h
      by_cases hin : L1i < NPTE_PTBL ∧ w.va < X.end_
      · have hi' : L1i < 512 := hin.1
        have hfuel' : 512 - (L1i + 1) ≤ fuel := by omega
        have hlt := hin.2
        have hreg := hX.region w.va hlo hlt
        have hblock : w.va / 2 ^ 30 = T * 512 + L1i := by omega
        have hL1 : L1_IDX w.va = L1i := by rw [L1_IDX_eq]; omega
        rw [if_pos hin] at h
        obtain ⟨m, hm, h⟩ := bind_eq_ok.mp h
        obtain ⟨w₂, hw₂, h⟩ := bind_eq_ok.mp h
        have hdom : dom C X.b ([] ++ [L1i]) := hL1 ▸ dom_L1 hreg
        have hhere : w.m.walk X.b [] = some (w.m.root X.b) := rfl
        obtain ⟨ht₁, hext₁, hwalk₁, hview₁⟩ := ensure_spec hC ht hdom hhere hm
        have hw₁ : X.At { w with m := m } := ⟨hw.aligned, hw.lo, hw.hi, hw.pte, hw.group⟩
        have hwalk : m.walk X.b [w.va / 2 ^ 30 % 512] =
            some (PTP_PADDR (m.mem (w.m.root X.b) L1i)) := by
          rw [show w.va / 2 ^ 30 % 512 = L1i by omega]; exact hwalk₁
        obtain ⟨hmap₂, hw₂, hva₂, hkeeps₂⟩ :=
          mapL2_spec hC hX NPTE_PTBL (L2_IDX w.va) { w with m := m } w₂
          hw₁ ht₁ hwalk (.inr (by rw [L2_IDX_eq]; dsimp only; omega))
          (Nat.lt_mul_of_div_lt (Nat.lt_succ_self _) (Nat.two_pow_pos 30)).le
          (by rw [L2_IDX_eq]; omega) (Nat.sub_le _ _) hw₂
        have hmap₁ := (Job.Mapped.of_view ht₁ hext₁ hview₁).trans hX hw hw₁ hmap₂
        have hroot : w₂.m.root = w.m.root := hmap₁.extended.root
        have hnext := min_block (Nat.two_pow_pos 30) (w.va / 2 ^ 30) X.end_
        rw [← hva₂, hblock, Nat.add_assoc] at hnext
        have hle : min ((T * 512 + L1i + 1) * 2 ^ 30) X.end_ ≤ (T + 1) * 2 ^ 39 :=
          min_block_le X.end_ (n := 512) (by decide) (by omega)
        rw [← hblock, ← hva₂] at hle
        have hkeeps := (ensure_keeps hC ht hdom hhere hm).trans hkeeps₂
        obtain ⟨hmap', hw', hva', hkeeps'⟩ := ih (L1i + 1) w₂ w' hw₂ hmap₂.tables
          hnext hle hi' hfuel' (hroot ▸ h)
        exact ⟨hmap₁.trans hX hw hw₂ hmap', hw', hva', hkeeps.trans hkeeps'⟩
      · rw [if_neg hin] at h
        cases h
        refine ⟨.refl ht, hw, ?_, .refl C w.m⟩
        have hi' : L1i = 512 ∨ X.end_ ≤ w.va := by
          simp only [NPTE_PTBL] at hin; omega
        omega

end Loops

/-! ### The call -/

/-- The address at which a call maps. -/
def mapStart (vaddr : ℕ) (m : Mmu) : ℕ := if vaddr = 2 ^ 64 - 1 then m.free_vaddr else vaddr

/-- What a call maps. -/
def mapJob (C : MmuConsts) (env : MmuEnv) (vaddr paddr size : ℕ) (flags : MapFlags) (m : Mmu) :
    Job where
  b := decide (C.USER_END ≤ mapStart vaddr m - mapStart vaddr m % 2 ^ 12)
  va := mapStart vaddr m - mapStart vaddr m % 2 ^ 12
  end_ := mapStart vaddr m - mapStart vaddr m % 2 ^ 12 +
    round 64 (addW 64 size (paddr % 2 ^ 12)) PAGESIZE
  paddr := paddr - paddr % 2 ^ 12
  attr := set_pte C env 0 flags

theorem and_page (x : ℕ) : x &&& (PAGESIZE - 1) = x % 2 ^ 12 := Nat.and_two_pow_sub_one_eq_mod x 12

theorem and_not_page {x : ℕ} (h : x < 2 ^ 64) : x &&& notW 64 (PAGESIZE - 1) = x - x % 2 ^ 12 := by
  have := trunc_two_pow (k := 12) (by decide) h
  rwa [trunc, show subW 64 (2 ^ 12) 1 = PAGESIZE - 1 by decide] at this

theorem round_page (x : ℕ) : round 64 x PAGESIZE % 2 ^ 12 = 0 := by
  rw [show PAGESIZE = 2 ^ 12 from rfl]
  exact round_mod (by decide) x

theorem round_lt (x : ℕ) : round 64 x PAGESIZE < 2 ^ 64 := trunc_lt (addW_lt ..)

/-- `mapVaddr` leaves the tables alone. -/
theorem mapVaddr_spec {C : MmuConsts} {env : MmuEnv} {m m₁ : Mmu} (ht : Tables C env m)
    {vaddr v off size : ℕ} (hsize : size % 2 ^ 12 = 0)
    (h : mapVaddr vaddr off size m = .ok (v, m₁)) :
    v = mapStart vaddr m ∧ (vaddr ≠ 2 ^ 64 - 1 → vaddr % 2 ^ 12 = off) ∧ Tables C env m₁ ∧
      m₁.root = m.root ∧ (∀ c u, view m₁ c u = view m c u) ∧ Keeps C m m₁ := by
  rw [mapVaddr] at h
  by_cases hv : vaddr = 2 ^ 64 - 1
  · rw [if_pos hv] at h
    cases h
    obtain ⟨h₁, h₂⟩ := ht.vaddr
    have hroot : ({ m with free_vaddr := addW 64 m.free_vaddr size } : Mmu).root = m.root := by
      funext c; cases c <;> rfl
    refine ⟨by rw [mapStart, if_pos hv], fun hne => absurd hv hne, ?_, hroot, fun c u => ?_,
      fun P hP => by rwa [Mmu.Own, hroot] at hP, fun _ _ _ => rfl⟩
    · refine ⟨ht.ram, hroot ▸ ht.apart, hroot ▸ ht.page, ?_, ?_, addW_lt ..⟩
      · intro b is i p hd hw
        rw [Mmu.walk, hroot] at hw
        exact ht.entry b is i p hd hw
      · simp only [addW]
        omega
    · rw [view, hroot]; rfl
  · rw [if_neg hv] at h
    split_ifs at h with hal
    cases h
    rw [and_page] at hal
    exact ⟨by rw [mapStart, if_neg hv], fun _ => not_not.mp hal, ht, rfl, fun _ _ => rfl, .refl C m⟩

theorem mapTable_spec {C : MmuConsts} {va end_ L1 : ℕ} {m : Mmu}
    (h : mapTable C va end_ m = .ok L1) : va ≤ end_ ∧ L1 = m.root (decide (C.USER_END ≤ va)) ∧
      (va < C.USER_END → end_ < C.USER_END) ∧ (C.USER_END ≤ va → C.STARTUP_BASE ≤ va) := by
  unfold mapTable at h
  split_ifs at h with h₁ h₂ h₃ h₄ <;> cases h
  · refine ⟨by omega, ?_, fun _ => by omega, fun hu => by omega⟩
    rw [decide_eq_false (by omega)]; rfl
  · refine ⟨by omega, ?_, fun hu => by omega, fun _ => by omega⟩
    rw [decide_eq_true (by omega)]; rfl

/-- **What a call maps**, that it maps nothing else, and what it writes to. -/
theorem aarch64_map_spec {C : MmuConsts} (hC : C.Standard) {env : MmuEnv} {m m' : Mmu}
    (hvirt : env.is_virtual = true) (ht : Tables C env m) {vaddr paddr size r : ℕ}
    {flags : MapFlags} (hvaddr : vaddr < 2 ^ 64) (hpaddr : paddr < 2 ^ 64)
    (h : aarch64_map C env vaddr paddr size flags m = .ok (r, m')) :
    (mapJob C env vaddr paddr size flags m).Good C ∧ Tables C env m' ∧
      r = addW 64 (mapStart vaddr m) (paddr % 2 ^ 12) ∧
      (vaddr ≠ 2 ^ 64 - 1 → vaddr % 2 ^ 12 = paddr % 2 ^ 12) ∧
      (∀ c u, Region C c u → ¬ (c = (mapJob C env vaddr paddr size flags m).b ∧
        (mapJob C env vaddr paddr size flags m).va ≤ u ∧
        u < (mapJob C env vaddr paddr size flags m).end_) → view m' c u = view m c u) ∧
      ((mapJob C env vaddr paddr size flags m).Fits → ∀ u, u % 2 ^ 12 = 0 →
        (mapJob C env vaddr paddr size flags m).va ≤ u →
        u < (mapJob C env vaddr paddr size flags m).end_ →
        view m' (mapJob C env vaddr paddr size flags m).b u =
          (mapJob C env vaddr paddr size flags m).leaf u) ∧ Keeps C m m' := by
  set X := mapJob C env vaddr paddr size flags m with hXdef
  rw [aarch64_map, if_neg (not_not.mpr hvirt)] at h
  rw [and_page, and_not_page hpaddr] at h
  have hsz := round_page (addW 64 size (paddr % 2 ^ 12))
  have hszlt := round_lt (addW 64 size (paddr % 2 ^ 12))
  have hend : X.end_ = X.va + round 64 (addW 64 size (paddr % 2 ^ 12)) PAGESIZE := rfl
  set size' := round 64 (addW 64 size (paddr % 2 ^ 12)) PAGESIZE
  obtain ⟨⟨v, m₁⟩, hv, h⟩ := bind_eq_ok.mp h
  obtain ⟨rfl, hoff, ht₁, hroot₁, hview₁, hkeeps₁⟩ :=
    mapVaddr_spec ht hsz hv
  have hstart : mapStart vaddr m < 2 ^ 64 := by
    rw [mapStart]; split_ifs
    · exact ht.vaddr.2
    · exact hvaddr
  have htrunc : trunc 64 (mapStart vaddr m) PAGESIZE = X.va :=
    trunc_two_pow (k := 12) (by decide) hstart
  have hXva : X.va = mapStart vaddr m - mapStart vaddr m % 2 ^ 12 := rfl
  dsimp only at h
  rw [htrunc] at h
  obtain ⟨L1, hL1, h⟩ := bind_eq_ok.mp h
  obtain ⟨w, hw, h⟩ := bind_eq_ok.mp h
  cases h
  obtain ⟨hle, rfl, hlow, hhigh⟩ := mapTable_spec hL1
  have hnowrap : X.va + size' < 2 ^ 64 := add_lt_of_le_addW (by omega) hszlt hle
  rw [addW_of_lt hnowrap, ← hend] at hle hw hlow
  have hb : X.b = decide (C.USER_END ≤ X.va) := rfl
  have hgood : X.Good C := by
    refine ⟨by omega, by omega, hle, by omega, fun u h₁ h₂ => ?_⟩
    by_cases huser : C.USER_END ≤ X.va
    · rw [hb, decide_eq_true huser]
      exact ⟨(hhigh huser).trans h₁, by omega⟩
    · rw [hb, decide_eq_false huser]
      exact h₂.trans (hlow (by omega))
  have hat : X.At ⟨X.va, set_pte C env (paddr - paddr % 2 ^ 12) flags, m₁⟩ := by
    refine ⟨hgood.va, le_rfl, hle, fun hf hlt => ?_, fun _ hc => ?_⟩
    · have hroom := hf.room
      have hpa : X.paddr = paddr - paddr % 2 ^ 12 := rfl
      dsimp only at hlt ⊢
      rw [set_pte_add hC env flags (hpa ▸ hf.aligned) (by omega), Nat.sub_self]
      rfl
    · simp only [Job.Contig, Job.group] at hc ⊢
      omega
  obtain ⟨hmap, hat', hva', hkeeps⟩ :=
    mapL1_spec hC hgood (T := X.va / 2 ^ 39) NPTE_PTBL (L1_IDX X.va) _ w
    hat ht₁ (.inr (by rw [L1_IDX_eq]; dsimp only; omega))
    (Nat.lt_mul_of_div_lt (Nat.lt_succ_self _) (Nat.two_pow_pos 39)).le
    (by rw [L1_IDX_eq]; omega) (Nat.sub_le _ _) hw
  have hwva : w.va = X.end_ := by
    rcases hle.eq_or_lt with heq | hlt
    · exact le_antisymm hat'.hi (heq ▸ hmap.le)
    · -- All of the range is in one table.
      have hfirst := (hgood.region X.va le_rfl hlt).high hC
      have hlast := (hgood.region (X.end_ - 1) (Nat.le_sub_one_of_lt hlt)
        (Nat.sub_one_lt_of_lt hlt)).high hC
      have htop : X.end_ - 1 < (X.va / 2 ^ 39 + 1) * 2 ^ 39 := by
        rw [hfirst, ← hlast]
        exact Nat.lt_mul_of_div_lt (Nat.lt_succ_self _) (Nat.two_pow_pos 39)
      have hcover : X.end_ ≤ (X.va / 2 ^ 39 + 1) * 2 ^ 39 := Nat.le_of_pred_lt htop
      rw [hva', min_eq_right hcover]
  refine ⟨hgood, hmap.tables, rfl, hoff, fun c u hu hout => ?_, fun hf u hu h₁ h₂ => ?_,
    hkeeps₁.trans hkeeps⟩
  · rw [hmap.frame c u hu (by rwa [hwva]), hview₁]
  · exact hmap.value hf u hu h₁ (by rwa [hwva])

end Startup
