import RpiBsp.Startup.Mmu.Calls

/-!
# Startup — MMU — groups of 16 pages

The contiguous bit tells the CPU that the 16 descriptors of an aligned group are one run of pages,
so that it may keep a single translation for all of them (`GroupOk`).

* `groups_consistent` — the groups of every L3 table stay so in every run in which no call maps over
  a part of a group that has the bit;
* `remap_breaks_group` — a call that does leaves the bit on the rest of the group.
-/

namespace Startup

open Support

/-! ### Groups -/

/-- What a descriptor says beside its address. -/
def attrOf (e : ℕ) : ℕ := e &&& notW 64 0x0000fffffffff000

/-- If any of 16 descriptors has the contiguous bit, then all have it, all are valid and have the
same attributes, and their addresses are consecutive from a multiple of 64 KiB on. -/
def GroupOk (f : ℕ → ℕ) : Prop :=
  (∃ k < 16, f k &&& PTE_CONTIG ≠ 0) → PTP_PADDR (f 0) % 2 ^ 16 = 0 ∧
    ∀ k < 16, f k &&& PTE_VALID = PTE_VALID ∧ f k &&& PTE_CONTIG ≠ 0 ∧
      attrOf (f k) = attrOf (f 0) ∧ PTP_PADDR (f k) = PTP_PADDR (f 0) + k * 2 ^ 12

/-- Every aligned group of every L3 table. -/
def GroupsOk (C : MmuConsts) (m : Mmu) : Prop :=
  ∀ b va L3, Region C b va → m.walk b (path va) = some L3 → ∀ n < 32,
    GroupOk fun k => m.mem L3 (n * 16 + k)

theorem contig_iff (e : ℕ) : e &&& PTE_CONTIG ≠ 0 ↔ e / 2 ^ 52 % 2 = 1 := by
  rw [PTE_CONTIG, Nat.and_two_pow, Nat.testBit_eq_decide_div_mod_eq]
  by_cases h : e / 2 ^ 52 % 2 = 1 <;> simp

theorem GroupOk.congr {f g : ℕ → ℕ} (h : ∀ k < 16, f k = g k) (hf : GroupOk f) : GroupOk g := by
  rintro ⟨k, hk, hc⟩
  obtain ⟨h₀, hall⟩ := hf ⟨k, hk, by rwa [h k hk]⟩
  refine ⟨by rwa [← h 0 (by decide)], fun j hj => ?_⟩
  rw [← h j hj, ← h 0 (by decide)]
  exact hall j hj

/-- A group none of whose descriptors has the bit. -/
theorem GroupOk.of_clear {f : ℕ → ℕ} (h : ∀ k < 16, f k &&& PTE_CONTIG = 0) : GroupOk f :=
  fun ⟨k, hk, hc⟩ => absurd (h k hk) hc

theorem attrOf_eq {e : ℕ} (h : e < 2 ^ 64) : attrOf e = e - PTP_PADDR e := by
  have hsplit := and_add_and_notW h (show 0x0000fffffffff000 < 2 ^ 64 by decide)
  have hpaddr : PTP_PADDR e = e &&& 0x0000fffffffff000 := by
    rw [PTP_PADDR, Nat.and_assoc]
    congr 1
  rw [attrOf, hpaddr]
  omega

namespace Job

variable {C : MmuConsts} {X : Job}

theorem leaf_clear (hX : X.Good C) (hf : X.Fits) {u : ℕ} (hu : u % 2 ^ 12 = 0) (hlo : X.va ≤ u)
    (hhi : u < X.end_) (hno : ¬ X.Contig u) : X.leaf u &&& PTE_CONTIG = 0 := by
  have hroom := hf.room
  have hmod := hf.attr.mod
  have hal := hf.aligned
  have hva := hX.va
  by_contra hc
  have hc := (contig_iff _).mp hc
  rw [leaf, if_neg hno] at hc
  omega

/-- A group that lies in the range gets the bit as a whole, or not at all. -/
theorem groupOk_leaf (hX : X.Good C) (hf : X.Fits) {g : ℕ} (hg : g % 2 ^ 16 = 0)
    (hlo : X.va ≤ g) (hhi : g + 2 ^ 16 ≤ X.end_) : GroupOk fun k => X.leaf (g + k * 2 ^ 12) := by
  have hgroup : ∀ k < 16, group (g + k * 2 ^ 12) = g := by
    intro k hk
    rw [group]
    omega
  by_cases hal : X.va % 2 ^ 16 = X.paddr % 2 ^ 16
  · have hroom := hf.room
    have hmod := hf.attr.mod
    have hbound := hf.attr.bound
    have hvalid := hf.attr.valid
    rw [show X.attr &&& 3 = X.attr % 2 ^ 2 from Nat.and_two_pow_sub_one_eq_mod X.attr 2] at hvalid
    -- The first page of the group, and the others after it.
    obtain ⟨P, hP⟩ : ∃ P, P = X.paddr + (g - X.va) := ⟨_, rfl⟩
    have hP₁ : P % 2 ^ 16 = 0 := by omega
    have hP₂ : P + 2 ^ 16 ≤ 2 ^ 52 := by omega
    have hleaf : ∀ k < 16, X.leaf (g + k * 2 ^ 12) = P + k * 2 ^ 12 + X.attr + 2 ^ 52 := by
      intro k hk
      have hc : X.Contig (g + k * 2 ^ 12) := ⟨hal, by rwa [hgroup k hk], by rwa [hgroup k hk]⟩
      rw [leaf, if_pos hc, PTE_CONTIG]
      omega
    have hpaddr : ∀ k < 16, PTP_PADDR (X.leaf (g + k * 2 ^ 12)) = P % 2 ^ 48 + k * 2 ^ 12 := by
      intro k hk
      rw [hleaf k hk, PTP_PADDR_eq]
      omega
    have hattr : ∀ k < 16, attrOf (X.leaf (g + k * 2 ^ 12)) = P - P % 2 ^ 48 + X.attr + 2 ^ 52 := by
      intro k hk
      have h₁ := hpaddr k hk
      have h₂ := hleaf k hk
      rw [attrOf_eq (by omega)]
      omega
    refine fun _ => ⟨?_, fun k hk => ⟨?_, ?_, ?_, ?_⟩⟩
    · dsimp only
      rw [hpaddr 0 (by decide)]
      omega
    · dsimp only
      rw [show X.leaf (g + k * 2 ^ 12) &&& PTE_VALID = X.leaf (g + k * 2 ^ 12) % 2 ^ 2 from
        Nat.and_two_pow_sub_one_eq_mod _ 2, hleaf k hk, PTE_VALID]
      omega
    · dsimp only
      rw [contig_iff, hleaf k hk]
      omega
    · dsimp only
      rw [hattr k hk, hattr 0 (by decide)]
    · dsimp only
      rw [hpaddr k hk, hpaddr 0 (by decide), Nat.zero_mul, Nat.add_zero]
  · have hva := hX.va
    exact .of_clear fun k hk => leaf_clear hX hf (by omega) (by omega) (by omega)
      fun hc => hal hc.1

end Job

/-! ### Runs -/

/-- The groups as `view` has them. -/
def GroupsView (C : MmuConsts) (m : Mmu) : Prop :=
  ∀ b u, Region C b u → GroupOk fun k => view m b (Job.group u + k * 2 ^ 12)

/-- The regions consist of whole L3 tables. -/
theorem Region.table {C : MmuConsts} (hC : C.Standard) {b : Bool} {u v : ℕ} (h : Region C b u)
    (huv : u / 2 ^ 21 = v / 2 ^ 21) : Region C b v := by
  obtain ⟨h₁, h₂⟩ := hC.aligned
  cases b with
  | false => simp only [Region] at h ⊢; omega
  | true => simp only [Region] at h ⊢; omega

theorem Region.group {C : MmuConsts} (hC : C.Standard) {b : Bool} {u k : ℕ} (h : Region C b u)
    (hk : k < 16) : Region C b (Job.group u + k * 2 ^ 12) :=
  h.table hC (by rw [Job.group]; omega)

theorem GroupsView.groupsOk {C : MmuConsts} (hC : C.Standard) {m : Mmu} (h : GroupsView C m) :
    GroupsOk C m := by
  intro b va L3 hva hL3 n hn
  set u := va / 2 ^ 21 * 2 ^ 21 + n * 2 ^ 16 with hu
  have hreg : Region C b u := hva.table hC (by omega)
  refine (h b u hreg).congr fun k hk => ?_
  have hpath : path (Job.group u + k * 2 ^ 12) = path va := path_eq (by rw [Job.group]; omega)
  have hidx : L3_IDX (Job.group u + k * 2 ^ 12) = n * 16 + k := by
    rw [L3_IDX_eq, Job.group]; omega
  rw [view_of_walk (hpath ▸ hL3), hidx]
  rfl

/-- The call does not map over a part of a group that has the bit, and its physical range stays in
the address field. -/
structure MapCall.KeepsGroups (C : MmuConsts) (env : MmuEnv) (c : MapCall) (m : Mmu) : Prop where
  room : (c.job C env m).paddr + ((c.job C env m).end_ - (c.job C env m).va) ≤ 2 ^ 52
  whole : ∀ u, (c.job C env m).va ≤ u → u < (c.job C env m).end_ →
    ¬ ((c.job C env m).va ≤ Job.group u ∧ Job.group u + 2 ^ 16 ≤ (c.job C env m).end_) →
    ∀ k < 16, view m (c.job C env m).b (Job.group u + k * 2 ^ 12) &&& PTE_CONTIG = 0

/-- What one call preserves. -/
theorem MapCall.run_groups {C : MmuConsts} (hC : C.Standard) {env : MmuEnv}
    (hvirt : env.is_virtual = true) {m m' : Mmu} (ht : Tables C env m) {c : MapCall}
    (hv : c.vaddr < 2 ^ 64) (hp : c.paddr < 2 ^ 64) {r : ℕ} (h : c.run C env m = .ok (r, m'))
    (hkeep : c.KeepsGroups C env m)
    (hg : GroupsView C m) : GroupsView C m' := by
  obtain ⟨hgood, -, -, -, hframe, hvalue, -⟩ := aarch64_map_spec hC hvirt ht hv hp h
  change (c.job C env m).Good C at hgood
  have hfits : (c.job C env m).Fits := by
    refine ⟨?_, hkeep.room, attr_set_pte hC env c.flags⟩
    rw [job_paddr]
    omega
  have hwhole := hkeep.whole
  change ∀ b u, Region C b u → ¬ (b = (c.job C env m).b ∧ (c.job C env m).va ≤ u ∧
    u < (c.job C env m).end_) → view m' b u = view m b u at hframe
  change (c.job C env m).Fits → ∀ u, u % 2 ^ 12 = 0 → (c.job C env m).va ≤ u →
    u < (c.job C env m).end_ → view m' (c.job C env m).b u = (c.job C env m).leaf u at hvalue
  generalize c.job C env m = X at hgood hfits hwhole hframe hvalue
  have hva := hgood.va
  have hend := hgood.end_
  intro b u hu
  have hgal : Job.group u % 2 ^ 16 = 0 := by rw [Job.group]; omega
  by_cases hmeet : b = X.b ∧ X.va < X.end_ ∧ Job.group u < X.end_ ∧ X.va < Job.group u + 2 ^ 16
  · obtain ⟨rfl, hne, hlt, hgt⟩ := hmeet
    by_cases hin : X.va ≤ Job.group u ∧ Job.group u + 2 ^ 16 ≤ X.end_
    · refine (Job.groupOk_leaf hgood hfits hgal hin.1 hin.2).congr fun k hk => ?_
      exact (hvalue hfits _ (by omega) (by omega) (by omega)).symm
    · -- Neither the pages mapped now nor the others of the group have the bit.
      refine .of_clear fun k hk => ?_
      by_cases hk' : X.va ≤ Job.group u + k * 2 ^ 12 ∧ Job.group u + k * 2 ^ 12 < X.end_
      · have hsame : Job.group (Job.group u + k * 2 ^ 12) = Job.group u := by
          simp only [Job.group]; omega
        rw [hvalue hfits _ (by omega) hk'.1 hk'.2]
        refine Job.leaf_clear hgood hfits (by omega) hk'.1 hk'.2 fun hcon => hin ?_
        rw [← hsame]
        exact hcon.2
      · have hfirst : Job.group (max X.va (Job.group u)) = Job.group u := by
          simp only [Job.group] at hgt ⊢; omega
        have hclear := hwhole _ (le_max_left X.va (Job.group u)) (max_lt hne hlt)
        rw [hfirst] at hclear
        rw [hframe X.b _ (hu.group hC hk) fun hcov => hk' hcov.2]
        exact hclear hin k hk
  · refine (hg b u hu).congr fun k hk => ?_
    have hout : ¬ (b = X.b ∧ X.va ≤ Job.group u + k * 2 ^ 12 ∧
        Job.group u + k * 2 ^ 12 < X.end_) := by
      rintro ⟨hb, h₁, h₂⟩
      exact hmeet ⟨hb, by omega, by omega, by omega⟩
    exact (hframe b _ (hu.group hC hk) hout).symm

/-- **Groups with the contiguous bit stay one run of pages**, in every state of every run in which
no call maps over a part of one. -/
theorem groups_consistent {C : MmuConsts} (hC : C.Standard) {env : MmuEnv} {m : Mmu}
    (h : Reach C env (MapCall.KeepsGroups C env) m) : GroupsOk C m := by
  refine GroupsView.groupsOk hC ?_
  induction h with
  | @init m₀ m hram hvirt h =>
      obtain ⟨m₁, L0_paddr, size, r, ht, hzero, hlt, hmap⟩ := aarch64_map_init_tables hC hram h
      have hclear : ∀ b u, Region C b u → ∀ k < 16,
          view m₁ b (Job.group u + k * 2 ^ 12) &&& PTE_CONTIG = 0 := by
        intro b u hu k hk
        rw [hzero b _ (hu.group hC hk), Nat.zero_and]
      have hp : L0_paddr < 2 ^ 64 := hlt.trans (by decide)
      let c : MapCall := ⟨2 ^ 64 - 1, L0_paddr, size, { write := true }⟩
      have hgood : (c.job C env m₁).Good C := (aarch64_map_spec hC hvirt ht (by decide) hp hmap).1
      have hkeep : c.KeepsGroups C env m₁ := by
        refine ⟨(job_fits hC hgood hlt).room, fun u h₁ h₂ _ k hk => ?_⟩
        exact hclear _ u (hgood.region u h₁ h₂) k hk
      have hv : c.vaddr < 2 ^ 64 := show 2 ^ 64 - 1 < 2 ^ 64 by decide
      have hrun : c.run C env m₁ = .ok (r, m) := hmap
      exact MapCall.run_groups hC hvirt ht hv hp hrun hkeep fun b u hu => .of_clear (hclear b u hu)
  | map hm hc hok h ih =>
      obtain ⟨ht, hvirt⟩ := hm.tables hC
      exact MapCall.run_groups hC hvirt ht hc.vaddr hc.paddr h hok ih
  | ram hm hram hsub ih =>
      obtain ⟨ht, -⟩ := hm.tables hC
      intro b u hu
      refine (ih b u hu).congr fun k hk => ?_
      exact ((ht.with_ram hram hsub).2 b _).symm

/-- A group that is mapped as one. -/
def groupCall : MapCall := ⟨0x10000, 0x80000, 0x10000, { write := true }⟩

/-- One page of it, mapped again. -/
def pageCall : MapCall := ⟨0x11000, 0x81000, 0x1000, {}⟩

theorem groupCall_keeps (m : Mmu) : groupCall.KeepsGroups armConsts bootEnv m := by
  have hva : (groupCall.job armConsts bootEnv m).va = 0x10000 := by
    rw [job_va, mapStart, if_neg (by decide)]; decide
  have hend : (groupCall.job armConsts bootEnv m).end_ = 0x20000 := by
    rw [job_end, hva]; decide
  refine ⟨by rw [hva, hend, job_paddr]; decide, fun u h₁ h₂ hpart => absurd ?_ hpart⟩
  simp only [hva, hend, Job.group] at h₁ h₂ ⊢
  omega

/-- Descriptors 16 and 17 of the L3 table for the call, as far as the contiguous bit goes. -/
def groupBits (m : Mmu) : Option (ℕ × ℕ) :=
  (m.walk false (path 0x10000)).map fun L3 =>
    (m.mem L3 16 &&& PTE_CONTIG, m.mem L3 17 &&& PTE_CONTIG)

theorem groups_consistent_one : ∃ m, Reach armConsts bootEnv
    (MapCall.KeepsGroups armConsts bootEnv) m ∧ groupBits m = some (PTE_CONTIG, PTE_CONTIG) ∧
    GroupsOk armConsts m := by
  have hrun : (firstTables.bind fun m => groupCall.run armConsts bootEnv m).toOption.map
      (fun x => groupBits x.2) = some (some (PTE_CONTIG, PTE_CONTIG)) := by decide +kernel
  obtain ⟨⟨r, m'⟩, hx, hbits⟩ := Option.map_eq_some_iff.mp hrun
  obtain ⟨m, hm, hx⟩ := bind_eq_ok.mp (toOption_eq_some.mp hx)
  have hreach : Reach armConsts bootEnv (MapCall.KeepsGroups armConsts bootEnv) m' :=
    .map (.init bootMmu_ok rfl hm) ⟨by decide, by decide, by decide⟩ (groupCall_keeps m) hx
  exact ⟨m', hreach, hbits, groups_consistent armConsts_standard hreach⟩

theorem remap_breaks_group : ∃ m, Reach armConsts bootEnv anyCall m ∧ ¬ GroupsOk armConsts m := by
  have hrun : (firstTables.bind fun m => (groupCall.run armConsts bootEnv m).bind fun x =>
      pageCall.run armConsts bootEnv x.2).toOption.map (fun x => groupBits x.2) =
      some (some (PTE_CONTIG, 0)) := by decide +kernel
  obtain ⟨⟨r, m'⟩, hx, hbits⟩ := Option.map_eq_some_iff.mp hrun
  obtain ⟨m, hm, hx⟩ := bind_eq_ok.mp (toOption_eq_some.mp hx)
  obtain ⟨⟨r₁, m₁⟩, hm₁, hx⟩ := bind_eq_ok.mp hx
  have hfirst : Reach armConsts bootEnv anyCall m₁ :=
    .map (.init bootMmu_ok rfl hm) ⟨by decide, by decide, by decide⟩ trivial hm₁
  refine ⟨m', .map hfirst ⟨by decide, by decide, by decide⟩ trivial hx, fun hok => ?_⟩
  obtain ⟨L3, hL3, hpair⟩ := Option.map_eq_some_iff.mp hbits
  obtain ⟨h₁₆, h₁₇⟩ := Prod.mk.inj hpair
  have huser : Region armConsts false 0x10000 := show 0x10000 < 2 ^ 39 by decide
  obtain ⟨-, hall⟩ := hok false 0x10000 L3 huser hL3 1 (by decide)
    ⟨0, by decide, by rw [h₁₆]; decide⟩
  exact (hall 1 (by decide)).2.1 h₁₇

end Startup
