import RpiBsp.Startup.Mmu.Map

/-!
# Startup — MMU — runs

From `aarch64_map_init` on, the tables change through calls of `aarch64_map`, and the RAM they are
made of shrinks as the rest of startup allocates (`Reach`).

* `maps_what_it_returns` — when the addresses from the one a call returns on translate to the
  physical range it was given: unless it is given both an address and an offset into a page, in
  which case the offset is added twice.
-/

namespace Startup

open Support

/-! ### Runs -/

structure MapCall where
  vaddr : ℕ
  paddr : ℕ
  size : ℕ
  flags : MapFlags
deriving DecidableEq, Repr

def MapCall.run (C : MmuConsts) (env : MmuEnv) (c : MapCall) (m : Mmu) : Except Crash (ℕ × Mmu) :=
  aarch64_map C env c.vaddr c.paddr c.size c.flags m

def MapCall.job (C : MmuConsts) (env : MmuEnv) (c : MapCall) (m : Mmu) : Job :=
  mapJob C env c.vaddr c.paddr c.size c.flags m

/-- The arguments are of their types. -/
structure MapCall.InRange (c : MapCall) : Prop where
  vaddr : c.vaddr < 2 ^ 64
  paddr : c.paddr < 2 ^ 64
  size : c.size < 2 ^ 64

/-- The states of runs whose calls all meet `Ok` where they are made.  The board's `main` calls
`init_mmu` only for a virtual system.  What else startup does may take RAM, but adds none. -/
inductive Reach (C : MmuConsts) (env : MmuEnv) (Ok : MapCall → Mmu → Prop) : Mmu → Prop where
  | init {m m' : Mmu} (hram : RamOk m.ram) (hvirt : env.is_virtual = true)
      (h : aarch64_map_init C env m = .ok m') : Reach C env Ok m'
  | map {m m' : Mmu} {r : ℕ} (hm : Reach C env Ok m) {c : MapCall} (hc : c.InRange) (hok : Ok c m)
      (h : c.run C env m = .ok (r, m')) : Reach C env Ok m'
  | ram {m : Mmu} (hm : Reach C env Ok m) {ram : RamState} (hram : RamOk ram)
      (hsub : ram.ram.bytes ⊆ m.ram.ram.bytes) : Reach C env Ok { m with ram := ram }

/-- Any call may be made. -/
abbrev anyCall : MapCall → Mmu → Prop := fun _ _ => True

theorem Tables.with_ram {C : MmuConsts} {env : MmuEnv} {m : Mmu} (h : Tables C env m)
    {ram : RamState} (hram : RamOk ram) (hsub : ram.ram.bytes ⊆ m.ram.ram.bytes) :
    Tables C env { m with ram := ram } ∧ ∀ b u, view { m with ram := ram } b u = view m b u := by
  have hroot : ({ m with ram := ram } : Mmu).root = m.root := by funext c; cases c <;> rfl
  refine ⟨(h.same hroot h.vaddr hram hsub fun _ _ => rfl).1, fun b u => ?_⟩
  rw [view, hroot]; rfl

theorem Reach.tables {C : MmuConsts} (hC : C.Standard) {env : MmuEnv} {Ok : MapCall → Mmu → Prop}
    {m : Mmu} (h : Reach C env Ok m) : Tables C env m ∧ env.is_virtual = true := by
  induction h with
  | init hram hvirt h =>
      obtain ⟨m₁, L0_paddr, size, r, ht, -, hlt, hmap⟩ := aarch64_map_init_tables hC hram h
      exact ⟨(aarch64_map_spec hC hvirt ht (by decide) (hlt.trans (by decide)) hmap).2.1, hvirt⟩
  | map hm hc hok h ih =>
      exact ⟨(aarch64_map_spec hC ih.2 ih.1 hc.vaddr hc.paddr h).2.1, ih.2⟩
  | ram hm hram hsub ih => exact ⟨(ih.1.with_ram hram hsub).1, ih.2⟩

/-! ### Addresses -/

/-- What a descriptor gives: nothing, or an address of 48 bits at the same place in its page. -/
theorem translate_cases (e va : ℕ) : translate e va = NULL_PADDR ∨
    translate e va = PTP_PADDR e + va % 2 ^ 12 ∧ translate e va < 2 ^ 48 := by
  rw [translate]
  split_ifs with hv
  · exact .inl rfl
  · have hadd : PTP_PADDR e ||| L3_VOFF va = PTP_PADDR e + va % 2 ^ 12 := by
      rw [PTP_PADDR_eq, L3_VOFF_eq, ← Nat.shiftLeft_eq,
        Nat.shiftLeft_add_eq_or_of_lt (Nat.mod_lt _ (Nat.two_pow_pos 12))]
    refine .inr ⟨hadd, ?_⟩
    rw [hadd, PTP_PADDR_eq]
    omega

/-- The address that a descriptor of a job gives. -/
theorem translate_leaf {X : Job} (hf : X.Fits) {u va : ℕ} (hu : u % 2 ^ 12 = 0)
    (hva : X.va % 2 ^ 12 = 0) (hle : X.va ≤ u) (hlt : X.paddr + (u - X.va) < 2 ^ 48) :
    translate (X.leaf u) va = X.paddr + (u - X.va) + va % 2 ^ 12 := by
  have hmod := hf.attr.mod
  have hvalid := hf.attr.valid
  have hal := hf.aligned
  have hleaf : X.leaf u = X.paddr + (u - X.va) + X.attr ∨
      X.leaf u = X.paddr + (u - X.va) + X.attr + 2 ^ 52 := by
    rw [Job.leaf]
    split_ifs
    · exact .inr rfl
    · exact .inl rfl
  rw [show X.attr &&& 3 = X.attr % 2 ^ 2 from Nat.and_two_pow_sub_one_eq_mod X.attr 2] at hvalid
  have hok : X.leaf u &&& PTE_VALID = PTE_VALID := by
    rw [show X.leaf u &&& PTE_VALID = X.leaf u % 2 ^ 2 from
      Nat.and_two_pow_sub_one_eq_mod (X.leaf u) 2, PTE_VALID]
    omega
  have hpaddr : PTP_PADDR (X.leaf u) = X.paddr + (u - X.va) := by
    rw [PTP_PADDR_eq]
    omega
  rw [translate, if_neg (not_not.mpr hok), hpaddr, L3_VOFF_eq]
  have : X.paddr + (u - X.va) = (X.paddr + (u - X.va)) / 2 ^ 12 * 2 ^ 12 := by omega
  rw [this, ← Nat.shiftLeft_eq, Nat.shiftLeft_add_eq_or_of_lt (Nat.mod_lt _ (Nat.two_pow_pos 12))]

/-- The pages that a call is about, in unbounded arithmetic. -/
def MapCall.Covers (c : MapCall) (m : Mmu) (u : ℕ) : Prop :=
  mapStart c.vaddr m / 2 ^ 12 * 2 ^ 12 ≤ u ∧
    u < mapStart c.vaddr m / 2 ^ 12 * 2 ^ 12 +
      (c.size + c.paddr % 2 ^ 12 + (2 ^ 12 - 1)) / 2 ^ 12 * 2 ^ 12

/-- What a call is for: from the address it returns on, the physical range; elsewhere nothing
new. -/
def MapCall.Maps (C : MmuConsts) (c : MapCall) (m : Mmu) (r : ℕ) (m' : Mmu) : Prop :=
  (∀ k < c.size, elf_vaddr_to_paddr C (addW 64 r k) m' = .ok (c.paddr + k)) ∧
  ∀ u < 2 ^ 64, ¬ c.Covers m u → elf_vaddr_to_paddr C u m' = elf_vaddr_to_paddr C u m

theorem round_le_ceil (size off : ℕ) : round 64 (addW 64 size off) PAGESIZE ≤
    (size + off + (2 ^ 12 - 1)) / 2 ^ 12 * 2 ^ 12 := by
  have hy : addW 64 (addW 64 size off) (2 ^ 12 - 1) ≤ size + off + (2 ^ 12 - 1) :=
    (Nat.mod_le _ _).trans (Nat.add_le_add_right (Nat.mod_le _ _) _)
  rw [Support.round, show subW 64 PAGESIZE 1 = 2 ^ 12 - 1 by decide,
    show PAGESIZE = 2 ^ 12 from rfl, trunc_two_pow (by decide) (addW_lt ..)]
  omega

theorem job_paddr (C : MmuConsts) (env : MmuEnv) (c : MapCall) (m : Mmu) :
    (c.job C env m).paddr = c.paddr - c.paddr % 2 ^ 12 := rfl

theorem job_va (C : MmuConsts) (env : MmuEnv) (c : MapCall) (m : Mmu) :
    (c.job C env m).va = mapStart c.vaddr m - mapStart c.vaddr m % 2 ^ 12 := rfl

theorem job_end (C : MmuConsts) (env : MmuEnv) (c : MapCall) (m : Mmu) : (c.job C env m).end_ =
    (c.job C env m).va + round 64 (addW 64 c.size (c.paddr % 2 ^ 12)) PAGESIZE := rfl

/-- A range that a table covers has at most 39 bits, so a physical range that starts in 48 bits
stays in 52. -/
theorem job_fits {C : MmuConsts} (hC : C.Standard) {env : MmuEnv} {c : MapCall} {m : Mmu}
    (hgood : (c.job C env m).Good C) (hp : c.paddr < 2 ^ 48) : (c.job C env m).Fits := by
  have hpa := job_paddr C env c m
  refine ⟨by omega, ?_, attr_set_pte hC env c.flags⟩
  rcases hgood.le.eq_or_lt with heq | hlt
  · rw [heq, Nat.sub_self, hpa]
    omega
  · have h₁ := (hgood.region _ le_rfl hlt).high hC
    have h₂ := (hgood.region ((c.job C env m).end_ - 1) (by omega) (by omega)).high hC
    omega

section Translation

variable {C : MmuConsts} {env : MmuEnv} {m m' : Mmu} {c : MapCall} {r : ℕ}

/-- The translation of an address is read off its descriptor. -/
theorem elf_vaddr_to_paddr_congr (hC : C.Standard) (ht : Tables C env m)
    (ht' : Tables C env m') {u : ℕ}
    (hu : u < 2 ^ 64) (hview : ∀ b, Region C b u → view m' b u = view m b u) :
    elf_vaddr_to_paddr C u m' = elf_vaddr_to_paddr C u m := by
  have hin : ∀ b, Region C b u → elf_vaddr_to_paddr C u m' = elf_vaddr_to_paddr C u m := by
    intro b hb
    rw [elf_vaddr_to_paddr_eq hC ht' hb, elf_vaddr_to_paddr_eq hC ht hb, hview b hb]
  by_cases h₀ : Region C false u
  · exact hin false h₀
  by_cases h₁ : Region C true u
  · exact hin true h₁
  rw [elf_vaddr_to_paddr_bad hu h₀ h₁, elf_vaddr_to_paddr_bad hu h₀ h₁]

/-- No address outside the pages of a call is translated in another way. -/
theorem MapCall.run_frame (hC : C.Standard) (hvirt : env.is_virtual = true)
    (ht : Tables C env m) (hc : c.InRange) (h : c.run C env m = .ok (r, m')) {u : ℕ}
    (hu : u < 2 ^ 64) (hout : ¬ c.Covers m u) :
    elf_vaddr_to_paddr C u m' = elf_vaddr_to_paddr C u m := by
  obtain ⟨-, ht', -, -, hframe, -, -⟩ := aarch64_map_spec hC hvirt ht hc.vaddr hc.paddr h
  refine elf_vaddr_to_paddr_congr hC ht ht' hu fun b hb => hframe b u hb ?_
  rintro ⟨-, hlo, hhi⟩
  have hva := job_va C env c m
  have hend := job_end C env c m
  have hceil := round_le_ceil c.size (c.paddr % 2 ^ 12)
  exact hout ⟨by simp only [MapCall.job] at hva; omega, by
    simp only [MapCall.job] at hva hend; omega⟩

/-- The range is mapped where the call says, if it says so once. -/
theorem MapCall.run_value (hC : C.Standard) (hvirt : env.is_virtual = true)
    (ht : Tables C env m) (hc : c.InRange) (h : c.run C env m = .ok (r, m'))
    (hoff : c.vaddr = 2 ^ 64 - 1 ∨ c.paddr % 2 ^ 12 = 0) (hfit : c.paddr + c.size ≤ 2 ^ 48)
    {k : ℕ} (hk : k < c.size) : elf_vaddr_to_paddr C (addW 64 r k) m' = .ok (c.paddr + k) := by
  obtain ⟨hgood, ht', rfl, hal, -, hvalue, -⟩ := aarch64_map_spec hC hvirt ht hc.vaddr hc.paddr h
  have hfits : (c.job C env m).Fits := job_fits hC hgood (by omega)
  have hstart : mapStart c.vaddr m % 2 ^ 12 = 0 := by
    rw [mapStart]
    split_ifs with hv
    · exact ht.vaddr.1
    · rw [hal hv]; exact hoff.resolve_left hv
  have hva := job_va C env c m
  have hpa := job_paddr C env c m
  have hend := job_end C env c m
  have hlt := hgood.lt
  have hwrap : c.size + c.paddr % 2 ^ 12 < 2 ^ 64 := by omega
  have hround : round 64 (addW 64 c.size (c.paddr % 2 ^ 12)) PAGESIZE =
      (c.size + c.paddr % 2 ^ 12 + (2 ^ 12 - 1)) / 2 ^ 12 * 2 ^ 12 := by
    rw [addW_of_lt hwrap, show PAGESIZE = 2 ^ 12 from rfl, round_two_pow (by decide) (by omega)]
  rw [hround] at hend
  change (c.job C env m).end_ < 2 ^ 64 at hlt
  have haddr : addW 64 (addW 64 (mapStart c.vaddr m) (c.paddr % 2 ^ 12)) k =
      mapStart c.vaddr m + c.paddr % 2 ^ 12 + k := by
    rw [addW_of_lt (show mapStart c.vaddr m + c.paddr % 2 ^ 12 < 2 ^ 64 by omega),
      addW_of_lt (by omega)]
  set va := mapStart c.vaddr m + c.paddr % 2 ^ 12 + k with hvadef
  have hreg : Region C (c.job C env m).b va := hgood.region va
    (show (c.job C env m).va ≤ va by omega) (show va < (c.job C env m).end_ by omega)
  have hpage : view m' (c.job C env m).b va = (c.job C env m).leaf (va - va % 2 ^ 12) := by
    rw [view_page m' _ (show va / 2 ^ 12 = (va - va % 2 ^ 12) / 2 ^ 12 by omega)]
    exact hvalue hfits _ (by omega) (show (c.job C env m).va ≤ _ by omega)
      (show _ < (c.job C env m).end_ by omega)
  rw [haddr, elf_vaddr_to_paddr_eq hC ht' hreg, hpage,
    translate_leaf hfits (by omega) hgood.va (by omega) (by omega)]
  congr 1
  omega

end Translation

/-- **When a call maps what it returns.**  In every state of every run, a call that comes back maps
the physical range it is given from the address it returns on, and changes no other page, exactly
if the range is empty, or it ends within 48 bits and the address is not both given and within a
page: `vaddr` then has the offset already, and `vaddr + off` has it twice. -/
theorem maps_what_it_returns {C : MmuConsts} (hC : C.Standard) {env : MmuEnv} {m m' : Mmu}
    (hm : Reach C env anyCall m) {c : MapCall} (hc : c.InRange) (hp : c.paddr < 2 ^ 48) {r : ℕ}
    (h : c.run C env m = .ok (r, m')) : c.Maps C m r m' ↔
      c.size = 0 ∨ (c.vaddr = 2 ^ 64 - 1 ∨ c.paddr % 2 ^ 12 = 0) ∧ c.paddr + c.size ≤ 2 ^ 48 := by
  obtain ⟨ht, hvirt⟩ := hm.tables hC
  obtain ⟨-, ht', hr, hal, -, -, -⟩ := aarch64_map_spec hC hvirt ht hc.vaddr hc.paddr h
  constructor
  · intro hmaps
    by_cases hzero : c.size = 0
    · exact .inl hzero
    -- An address is translated to one of 48 bits with the same offset, or not at all.
    have hshape : ∀ va x, va < 2 ^ 64 → elf_vaddr_to_paddr C va m' = .ok x →
        x = NULL_PADDR ∨ x % 2 ^ 12 = va % 2 ^ 12 ∧ x < 2 ^ 48 := by
      intro va x hva hx
      have hin : ∀ b, Region C b va → x = NULL_PADDR ∨ x % 2 ^ 12 = va % 2 ^ 12 ∧ x < 2 ^ 48 := by
        intro b hb
        rw [elf_vaddr_to_paddr_eq hC ht' hb] at hx
        cases hx
        refine (translate_cases _ va).imp_right fun ⟨h₁, h₂⟩ => ⟨?_, h₂⟩
        rw [h₁, PTP_PADDR_eq]
        omega
      by_cases h₀ : Region C false va
      · exact hin false h₀
      by_cases h₁ : Region C true va
      · exact hin true h₁
      rw [elf_vaddr_to_paddr_bad hva h₀ h₁] at hx
      cases hx
    refine .inr ⟨?_, ?_⟩
    · by_contra hboth
      push Not at hboth
      have hfirst := hshape _ _ (addW_lt ..) (hmaps.1 0 (Nat.pos_of_ne_zero hzero))
      have hoff := hal hboth.1
      have hne := hboth.2
      rw [hr, mapStart, if_neg hboth.1] at hfirst
      simp only [addW, NULL_PADDR] at hfirst
      omega
    · by_contra hbig
      have hlast := hshape _ _ (addW_lt ..) (hmaps.1 (2 ^ 48 - c.paddr) (by omega))
      simp only [NULL_PADDR] at hlast
      omega
  · intro hcond
    refine ⟨fun k hk => ?_, fun u hu hout => MapCall.run_frame hC hvirt ht hc h hu hout⟩
    rcases hcond with hzero | ⟨hoff, hfit⟩
    · omega
    · exact MapCall.run_value hC hvirt ht hc h hoff hfit hk

/-! ### A run -/

/-- The architecture's values. -/
def armConsts : MmuConsts where
  USER_END := 2 ^ 39
  STARTUP_BASE := 0xffffff8040200000
  L1_L1_IDX := 0
  L1_L2_IDX := 1
  L2_L2_IDX := 0
  PTE_AF := 2 ^ 10
  PTE_URW := 2 ^ 6
  PTE_KRW := 0
  PTE_URO := 3 * 2 ^ 6
  PTE_KRO := 2 ^ 7
  PTE_UXN := 2 ^ 54
  PTE_PXN := 2 ^ 53
  PTE_SODEV := 0
  PTE_DEV := 2 ^ 2
  PTE_NC := 2 ^ 3
  PTE_WBWA := 3 * 2 ^ 2
  PTE_ISH := 3 * 2 ^ 8
  PTE_nG := 2 ^ 11
  PROCESSORS_MAX := 64

theorem armConsts_standard : armConsts.Standard where
  user := le_rfl
  startup := ⟨by decide, by decide⟩
  aligned := ⟨by decide, by decide⟩
  L1_L1 va h₁ h₂ := by
    simp only [armConsts, L1_IDX_eq] at h₁ ⊢
    omega
  L2_L2 va h₁ h₂ := by
    simp only [armConsts, L1_IDX_eq, L2_IDX_eq] at h₁ ⊢
    omega
  attr := by decide

def bootEnv : MmuEnv := ⟨true, true, false⟩

/-- One bank of a megabyte, and the startup program below it to be avoided. -/
def bootMmu : Mmu where
  ram :=
    { inited := true
      ram := ⟨fun r => if r = 0 then ⟨0x100000, 0x100000⟩ else ⟨0, 0⟩, 2 * ENTRY_SIZE⟩
      avoid := ⟨fun r => if r = 0 then ⟨0x80000, 0x90000⟩ else ⟨0, 0⟩, 2 * ENTRY_SIZE⟩
      ws_early_next := 0x90000
      temp_syspage := NULL_PADDR
      sysram_added := false
      asinfo := ⟨[], 0⟩ }
  mem _ _ := 0
  L1_ttbr0 := 0
  L1_ttbr1 := 0
  free_vaddr := 0

theorem bootMmu_ok : RamOk bootMmu.ram := by
  have hrep : bootMmu.ram.ram.Rep [⟨0x100000, 0x200000⟩] := by
    refine ⟨⟨⟨0, 0⟩, rfl, ?_⟩, rfl, by decide, normal_singleton (by simp), by simp⟩
    rw [List.map_singleton, List.singleton_append, holds_cons, holds_cons]
    exact ⟨rfl, rfl, Holds.nil _ _⟩
  have havoid : bootMmu.ram.avoid.Rep [⟨0x80000, 0x90000⟩] := by
    refine ⟨⟨⟨0, 0⟩, rfl, ?_⟩, rfl, by decide, by simp, by simp⟩
    rw [List.map_singleton, List.singleton_append, holds_cons, holds_cons]
    exact ⟨rfl, rfl, Holds.nil _ _⟩
  refine ⟨rfl, ⟨_, hrep⟩, ⟨_, havoid⟩, fun a ha => ?_, fun hs => absurd hs (by decide)⟩
  rw [hrep.bytes] at ha
  obtain ⟨s, hs, -, hlt⟩ := ha
  obtain rfl := List.mem_singleton.mp hs
  exact hlt.trans (by decide)

/-- The tables after `aarch64_map_init`. -/
def firstTables : Except Crash Mmu := aarch64_map_init armConsts bootEnv bootMmu

/-- A range in the middle of a page, at an address of the code's own choice. -/
def assignedCall : MapCall := ⟨2 ^ 64 - 1, 0x80ff0, 0x30, { write := true }⟩

/-- The same range, at a given address. -/
def fixedCall : MapCall := ⟨0x1ff0, 0x80ff0, 0x30, { write := true }⟩

theorem maps_what_it_returns_assigned : ∃ m r m', Reach armConsts bootEnv anyCall m ∧
    assignedCall.run armConsts bootEnv m = .ok (r, m') ∧ assignedCall.Maps armConsts m r m' := by
  have hrun : (firstTables.bind fun m => (assignedCall.run armConsts bootEnv m).map fun x =>
      (m, x)).toOption.isSome := by decide +kernel
  obtain ⟨⟨m, r, m'⟩, hx⟩ := Option.isSome_iff_exists.mp hrun
  obtain ⟨m₁, hm₁, hx⟩ := bind_eq_ok.mp (toOption_eq_some.mp hx)
  obtain ⟨⟨r₁, m₂⟩, hm₂, hx⟩ := bind_eq_ok.mp hx
  cases hx
  have hreach : Reach armConsts bootEnv anyCall m := .init bootMmu_ok rfl hm₁
  have hrange : assignedCall.InRange := ⟨by decide, by decide, by decide⟩
  refine ⟨m, r, m', hreach, hm₂, ?_⟩
  exact (maps_what_it_returns armConsts_standard hreach hrange (by decide) hm₂).mpr
    (.inr ⟨.inl rfl, by decide⟩)

theorem fixed_call_adds_offset_twice : ∃ (m : Mmu) (c : MapCall) (r : ℕ) (m' : Mmu),
    Reach armConsts bootEnv anyCall m ∧ c.InRange ∧ c.paddr < 2 ^ 48 ∧
    c.run armConsts bootEnv m = .ok (r, m') ∧
    elf_vaddr_to_paddr armConsts r m' ≠ .ok c.paddr ∧ ¬ c.Maps armConsts m r m' := by
  have hrun : (firstTables.bind fun m => (fixedCall.run armConsts bootEnv m).bind fun x =>
      (elf_vaddr_to_paddr armConsts x.1 x.2).map fun p => (m, x, p)).toOption.map
        (fun y => (y.2.1.1, y.2.2)) = some (0x2fe0, 0x81fe0) := by decide +kernel
  obtain ⟨⟨m, ⟨r, m'⟩, p⟩, hx, hp⟩ := Option.map_eq_some_iff.mp hrun
  obtain ⟨m₁, hm₁, hx⟩ := bind_eq_ok.mp (toOption_eq_some.mp hx)
  obtain ⟨⟨r₁, m₂⟩, hm₂, hx⟩ := bind_eq_ok.mp hx
  obtain ⟨p₁, hp₁, hx⟩ := bind_eq_ok.mp hx
  cases hx
  obtain ⟨rfl, rfl⟩ := Prod.mk.inj hp
  have hne : elf_vaddr_to_paddr armConsts 0x2fe0 m' ≠ .ok fixedCall.paddr := by
    rw [hp₁]
    intro h
    exact absurd (Except.ok.inj h) (by decide)
  refine ⟨m, fixedCall, 0x2fe0, m', .init bootMmu_ok rfl hm₁, ⟨by decide, by decide, by decide⟩,
    by decide, hm₂, hne, fun hmaps => hne ?_⟩
  exact hmaps.1 0 (by decide)

end Startup
