import RpiBsp.Startup.Mmu.Definitions
import RpiBsp.Startup.Ram.Search
import RpiBsp.Support.Radix

/-!
# Startup — MMU — the tables as a tree

Between calls the page tables are two radix trees, one below `L1_ttbr0` and one below `L1_ttbr1`, in
pages that are no longer free (`Tables`).  The recursive entries of `aarch64_map_init` are at places
that no address below `USER_END` or from `STARTUP_BASE` on leads to.

* `elf_vaddr_to_paddr_eq` — the walk of `elf_vaddr_to_paddr` reads off `view`, the descriptor that
  the tree has for an address;
* `ensure_spec` — a table made on the way changes no descriptor;
* `Tables.put` — writing descriptors into an L3 table keeps the tree;
* `aarch64_map_init_tables` — the tables that `aarch64_map_init` makes before it maps its own.
-/

namespace Startup

open Support

/-! ### Descriptors -/

/-- The attributes that `set_pte` puts together. -/
def MmuConsts.attrs (C : MmuConsts) : List ℕ :=
  [C.PTE_AF, C.PTE_URW, C.PTE_KRW, C.PTE_URO, C.PTE_KRO, C.PTE_UXN, C.PTE_PXN, C.PTE_SODEV,
    C.PTE_DEV, C.PTE_NC, C.PTE_WBWA, C.PTE_ISH, C.PTE_nG]

/-- What the code relies on.  Both halves of the address space have 39 bits and consist of whole L3
tables, the recursive tables are below `STARTUP_BASE`, and no attribute is in the address field
(bits 12 to 51) or is the contiguous bit. -/
structure MmuConsts.Standard (C : MmuConsts) : Prop where
  user : C.USER_END ≤ 2 ^ 39
  startup : 2 ^ 64 - 2 ^ 39 ≤ C.STARTUP_BASE ∧ C.STARTUP_BASE < 2 ^ 64
  aligned : C.USER_END % 2 ^ 21 = 0 ∧ C.STARTUP_BASE % 2 ^ 21 = 0
  L1_L1 : ∀ va, C.STARTUP_BASE ≤ va → va < 2 ^ 64 → L1_IDX va ≠ C.L1_L1_IDX
  L2_L2 : ∀ va, C.STARTUP_BASE ≤ va → va < 2 ^ 64 → L1_IDX va = C.L1_L2_IDX →
    L2_IDX va ≠ C.L2_L2_IDX
  attr : ∀ a ∈ C.attrs, a &&& 0x1ffffffffff000 = 0 ∧ a < 2 ^ 63

theorem L1_IDX_eq (va : ℕ) : L1_IDX va = va / 2 ^ 30 % 512 := by
  rw [L1_IDX, Nat.shiftRight_eq_div_pow, show 0x1ff = 2 ^ 9 - 1 by rfl,
    Nat.and_two_pow_sub_one_eq_mod]

theorem L2_IDX_eq (va : ℕ) : L2_IDX va = va / 2 ^ 21 % 512 := by
  rw [L2_IDX, Nat.shiftRight_eq_div_pow, show 0x1ff = 2 ^ 9 - 1 by rfl,
    Nat.and_two_pow_sub_one_eq_mod]

theorem L3_IDX_eq (va : ℕ) : L3_IDX va = va / 2 ^ 12 % 512 := by
  rw [L3_IDX, Nat.shiftRight_eq_div_pow, show 0x1ff = 2 ^ 9 - 1 by rfl,
    Nat.and_two_pow_sub_one_eq_mod]

theorem L3_VOFF_eq (va : ℕ) : L3_VOFF va = va % 2 ^ 12 := Nat.and_two_pow_sub_one_eq_mod va 12

theorem PTP_PADDR_eq (e : ℕ) : PTP_PADDR e = e / 2 ^ 12 % 2 ^ 36 * 2 ^ 12 := by
  rw [PTP_PADDR, Nat.and_assoc,
    show 0x0000fffffffff000 &&& notW 64 (PAGESIZE - 1) = (2 ^ 36 - 1) * 2 ^ 12 by decide +kernel,
    and_field]

/-- A descriptor is its address and its attributes. -/
theorem set_pte_eq (C : MmuConsts) (env : MmuEnv) (paddr : ℕ) (flags : MapFlags) :
    set_pte C env paddr flags = paddr ||| set_pte C env 0 flags := by
  simp only [set_pte, Nat.zero_or]
  split_ifs <;> simp only [Nat.or_assoc]

/-- What an attribute word may hold. -/
structure Attr (t : ℕ) : Prop where
  valid : t &&& 3 = 3
  field : t &&& 0x1ffffffffff000 = 0
  bound : t < 2 ^ 63

theorem Attr.or {s t : ℕ} (hs : Attr s) (ht : t &&& 0x1ffffffffff000 = 0 ∧ t < 2 ^ 63) :
    Attr (s ||| t) where
  valid := by
    apply Nat.eq_of_testBit_eq
    intro i
    have h := congrArg (Nat.testBit · i) hs.valid
    simp only [Nat.testBit_and, Nat.testBit_or] at h ⊢
    cases h₁ : s.testBit i <;> cases h₂ : (3 : ℕ).testBit i <;> simp_all
  field := by rw [Nat.and_or_distrib_right, hs.field, ht.1, Nat.or_zero]
  bound := Nat.or_lt_two_pow hs.bound ht.2

theorem attr_set_pte {C : MmuConsts} (hC : C.Standard) (env : MmuEnv) (flags : MapFlags) :
    Attr (set_pte C env 0 flags) := by
  have ha := hC.attr
  simp only [MmuConsts.attrs, List.forall_mem_cons] at ha
  obtain ⟨hAF, hURW, hKRW, hURO, hKRO, hUXN, hPXN, hSODEV, hDEV, hNC, hWBWA, hISH, hnG, -⟩ := ha
  have hbase : Attr PTE_VALID := ⟨by decide, by decide, by decide⟩
  simp only [set_pte, Nat.zero_or]
  have h₁ := hbase.or hAF
  have h₂ : Attr (PTE_VALID ||| C.PTE_AF |||
      if flags.write then (if flags.user then C.PTE_URW else C.PTE_KRW)
      else (if flags.user then C.PTE_URO else C.PTE_KRO)) := by
    split_ifs
    exacts [h₁.or hURW, h₁.or hKRW, h₁.or hURO, h₁.or hKRO]
  generalize PTE_VALID ||| C.PTE_AF |||
      (if flags.write then (if flags.user then C.PTE_URW else C.PTE_KRW)
      else (if flags.user then C.PTE_URO else C.PTE_KRO)) = t at h₂ ⊢
  have h₃ : Attr (if flags.exec then t else t ||| (C.PTE_UXN ||| C.PTE_PXN)) := by
    split_ifs
    · exact h₂
    · rw [← Nat.or_assoc]; exact (h₂.or hUXN).or hPXN
  generalize (if flags.exec then t else t ||| (C.PTE_UXN ||| C.PTE_PXN)) = t at h₃ ⊢
  have h₄ : Attr (if flags.device then t ||| (if flags.nocache then C.PTE_SODEV else C.PTE_DEV)
      else if env.smp then (t ||| if flags.nocache then C.PTE_NC else C.PTE_WBWA) ||| C.PTE_ISH
        else t ||| if flags.nocache then C.PTE_NC else C.PTE_WBWA) := by
    split_ifs
    exacts [h₃.or hSODEV, h₃.or hDEV, (h₃.or hNC).or hISH, (h₃.or hWBWA).or hISH, h₃.or hNC,
      h₃.or hWBWA]
  split_ifs at h₄ ⊢ <;> first | exact h₄.or hnG | exact h₄

/-- The low bits of an attribute word are below the address field, the others above it and the
contiguous bit. -/
theorem Attr.mod {t : ℕ} (h : Attr t) : t % 2 ^ 53 < 2 ^ 12 := by
  have hf := h.field
  rw [show 0x1ffffffffff000 = (2 ^ 41 - 1) * 2 ^ 12 by rfl, and_field] at hf
  omega

/-- With an aligned address below `2 ^ 52`, the address and the attributes add up. -/
theorem set_pte_add {C : MmuConsts} (hC : C.Standard) (env : MmuEnv) (flags : MapFlags) {paddr : ℕ}
    (ha : paddr % 2 ^ 12 = 0) (hb : paddr < 2 ^ 52) :
    set_pte C env paddr flags = paddr + set_pte C env 0 flags := by
  have ht := attr_set_pte hC env flags
  rw [set_pte_eq, add_eq_or]
  have hp : paddr &&& 0x1ffffffffff000 = paddr := by
    rw [show 0x1ffffffffff000 = (2 ^ 41 - 1) * 2 ^ 12 by rfl, and_field]; omega
  rw [← hp, Nat.and_assoc, Nat.and_comm 0x1ffffffffff000, ht.field, Nat.and_zero]

/-! ### Places -/

/-- The addresses that each of the two tables maps. -/
def Region (C : MmuConsts) : Bool → ℕ → Prop
  | false, va => va < C.USER_END
  | true, va => C.STARTUP_BASE ≤ va ∧ va < 2 ^ 64

/-- The indices of the L3 table for an address. -/
def path (va : ℕ) : List ℕ := [L1_IDX va, L2_IDX va]

/-- The places that some address leads to. -/
def dom (C : MmuConsts) (b : Bool) (is : List ℕ) : Prop := ∃ va, Region C b va ∧ is <+: path va

/-- The page that a descriptor leads to. -/
def child (e : ℕ) : Option ℕ := if e = 0 then none else some (PTP_PADDR e)

def Mmu.root (m : Mmu) : Bool → ℕ
  | false => m.L1_ttbr0
  | true => m.L1_ttbr1

/-- The page that some indices lead to. -/
def Mmu.walk (m : Mmu) (b : Bool) (is : List ℕ) : Option ℕ := Radix.walk child m.mem (m.root b) is

/-- The L3 descriptor for an address, 0 if there is no table for it. -/
def view (m : Mmu) (b : Bool) (va : ℕ) : ℕ :=
  Radix.lookup child m.mem 0 (m.root b) (path va) (L3_IDX va)

theorem Mmu.walk_concat (m : Mmu) (b : Bool) (is : List ℕ) (i : ℕ) :
    m.walk b (is ++ [i]) = (m.walk b is).bind fun p => child (m.mem p i) :=
  Radix.walk_concat ..

theorem Mmu.walk_path (m : Mmu) (b : Bool) (va : ℕ) :
    m.walk b (path va) = (m.walk b [L1_IDX va]).bind fun p => child (m.mem p (L2_IDX va)) :=
  m.walk_concat b [L1_IDX va] (L2_IDX va)

theorem view_of_walk {m : Mmu} {b : Bool} {va : ℕ} {o : Option ℕ} (h : m.walk b (path va) = o) :
    view m b va = o.elim 0 fun p => m.mem p (L3_IDX va) := h ▸ rfl

theorem dom_closed (C : MmuConsts) : Radix.Closed (dom C) :=
  fun _ is i ⟨va, hva, hp⟩ => ⟨va, hva, (List.prefix_append is [i]).trans hp⟩

theorem dom_path {C : MmuConsts} {b : Bool} {va : ℕ} (h : Region C b va) : dom C b (path va) :=
  ⟨va, h, List.prefix_refl _⟩

theorem dom_L1 {C : MmuConsts} {b : Bool} {va : ℕ} (h : Region C b va) : dom C b [L1_IDX va] :=
  ⟨va, h, ⟨[L2_IDX va], rfl⟩⟩

/-- An address leads to its root, to its L2 table and to its L3 table. -/
theorem path_prefix {va : ℕ} {is : List ℕ} (h : is <+: path va) :
    is = [] ∨ is = [L1_IDX va] ∨ is = path va := by
  rcases List.prefix_cons_iff.mp h with rfl | ⟨t, rfl, h₁⟩
  · exact .inl rfl
  rcases List.prefix_cons_iff.mp h₁ with rfl | ⟨t, rfl, h₂⟩
  · exact .inr (.inl rfl)
  · rw [List.prefix_nil.mp h₂]
    exact .inr (.inr rfl)

theorem dom_length {C : MmuConsts} {b : Bool} {is : List ℕ} (h : dom C b is) : is.length ≤ 2 := by
  obtain ⟨va, -, hp⟩ := h
  exact hp.length_le

theorem Region.high {C : MmuConsts} (hC : C.Standard) {b : Bool} {va : ℕ} (h : Region C b va) :
    va / 2 ^ 39 = cond b (2 ^ 25 - 1) 0 := by
  have h₁ := hC.user
  have h₂ := hC.startup
  cases b with
  | false => simp only [Region] at h; simp only [cond_false]; omega
  | true => simp only [Region] at h; simp only [cond_true]; omega

/-- Within a region the indices tell the L3 tables apart. -/
theorem path_inj {C : MmuConsts} (hC : C.Standard) {b : Bool} {va u : ℕ} (h : Region C b va)
    (h' : Region C b u) (hp : path va = path u) : va / 2 ^ 21 = u / 2 ^ 21 := by
  have h₁ := h.high hC
  have h₂ := h'.high hC
  simp only [path, List.cons.injEq, and_true, L1_IDX_eq, L2_IDX_eq] at hp
  omega

theorem path_eq {va u : ℕ} (h : va / 2 ^ 21 = u / 2 ^ 21) : path va = path u := by
  simp only [path, List.cons.injEq, and_true, L1_IDX_eq, L2_IDX_eq]
  omega

/-- The descriptor is the same for all of a page. -/
theorem view_page (m : Mmu) (b : Bool) {va u : ℕ} (h : va / 2 ^ 12 = u / 2 ^ 12) :
    view m b va = view m b u := by
  rw [view, view, path_eq (show va / 2 ^ 21 = u / 2 ^ 21 by omega), L3_IDX_eq, L3_IDX_eq, h]

/-! ### The tree -/

/-- What `ram.c` brings along: the tables it needs, RAM that a descriptor can name and, since a
secure system clears memory through 32-bit addresses, RAM below 4 GiB there. -/
structure RamOk (s : RamState) : Prop where
  inited : s.inited = true
  ram : ∃ l, s.ram.Rep l
  avoid : ∃ al, s.avoid.Rep al
  below : ∀ a ∈ s.ram.bytes, a < 2 ^ 48
  secure : s.secure_system = true → ∀ a ∈ s.ram.bytes, a < 2 ^ 32

/-- **The page tables are two trees**, in pages that are not free. -/
structure Tables (C : MmuConsts) (env : MmuEnv) (m : Mmu) : Prop where
  ram : RamOk m.ram
  apart : Radix.Apart child m.mem m.root (dom C)
  page : ∀ p, Radix.Reached child m.mem m.root (dom C) p →
    p % 2 ^ 12 = 0 ∧ p < 2 ^ 48 ∧ Disjoint (Set.Ico p (p + PAGESIZE)) m.ram.ram.bytes
  entry : ∀ b is i p, dom C b (is ++ [i]) → m.walk b is = some p →
    m.mem p i = 0 ∨ m.mem p i &&& 3 = 3
  vaddr : m.free_vaddr % 2 ^ 12 = 0 ∧ m.free_vaddr < 2 ^ 64

/-- The address that a descriptor gives. -/
def translate (e va : ℕ) : ℕ :=
  if e &&& PTE_VALID ≠ PTE_VALID then NULL_PADDR else PTP_PADDR e ||| L3_VOFF va

theorem translate_zero (va : ℕ) : translate 0 va = NULL_PADDR := by
  rw [translate, Nat.zero_and]; rfl

theorem table_or_zero {e : ℕ} (h : e = 0 ∨ e &&& 3 = 3) :
    e = 0 ∨ e ≠ 0 ∧ e &&& PTP_VALID ≠ 0 ∧ PTP_TYPE e ≠ PTP_BLOCK := by
  refine h.imp_right fun h => ⟨by rintro rfl; simp at h, ?_, ?_⟩
  · rw [show e &&& 3 = e % 2 ^ 2 from Nat.and_two_pow_sub_one_eq_mod e 2] at h
    rw [PTP_VALID, Nat.and_one_is_mod]
    omega
  · rw [PTP_TYPE, h]; decide

/-- The code's walk, from a table whose upper descriptors are tables or nothing. -/
theorem walkFrom_eq {C : MmuConsts} {env : MmuEnv} {m : Mmu} (h : Tables C env m) {b : Bool}
    {va : ℕ} (hva : Region C b va) : walkFrom (m.root b) va m.mem = translate (view m b va) va := by
  have hL1 : m.walk b [L1_IDX va] = child (m.mem (m.root b) (L1_IDX va)) := rfl
  have hL2 := m.walk_path b va
  simp only [walkFrom]
  rcases table_or_zero (h.entry b [] _ _ (dom_L1 hva) rfl) with h₁ | ⟨h₁, h₂, h₃⟩
  · rw [hL1, h₁] at hL2
    rw [view_of_walk hL2, h₁, if_pos (Nat.zero_and _)]
    exact (translate_zero va).symm
  rw [child, if_neg h₁] at hL1
  rw [hL1] at hL2
  rw [if_neg h₂, if_neg h₃, view_of_walk hL2]
  rcases table_or_zero (h.entry b [L1_IDX va] _ _ (dom_path hva) hL1) with h₄ | ⟨h₄, h₅, h₆⟩
  · rw [Option.bind_some, h₄, if_pos (Nat.zero_and _)]
    exact (translate_zero va).symm
  · rw [if_neg h₅, if_neg h₆, Option.bind_some, child, if_neg h₄]
    rfl

theorem elf_vaddr_to_paddr_eq {C : MmuConsts} {env : MmuEnv} (hC : C.Standard) {m : Mmu}
    (h : Tables C env m) {b : Bool} {va : ℕ} (hva : Region C b va) :
    elf_vaddr_to_paddr C va m = .ok (translate (view m b va) va) := by
  have hw := walkFrom_eq h hva
  have h₁ := hC.user
  have h₂ := hC.startup
  cases b with
  | false =>
      simp only [Region] at hva
      simp only [elf_vaddr_to_paddr, walkTable, if_pos hva, bind, Except.bind, ← hw]
      rfl
  | true =>
      simp only [Region] at hva
      have hu : ¬ va < C.USER_END := by omega
      have hs : ¬ va < C.STARTUP_BASE := by omega
      simp only [elf_vaddr_to_paddr, walkTable, if_neg hu, if_neg hs, bind, Except.bind, ← hw]
      rfl

/-- Outside both regions it crashes. -/
theorem elf_vaddr_to_paddr_bad {C : MmuConsts} {va : ℕ} (hva : va < 2 ^ 64)
    (h₀ : ¬ Region C false va)
    (h₁ : ¬ Region C true va) (m : Mmu) : elf_vaddr_to_paddr C va m = .error .bad_vaddr := by
  simp only [Region] at h₀ h₁
  have hs : va < C.STARTUP_BASE := by omega
  simp only [elf_vaddr_to_paddr, walkTable, if_neg h₀, if_pos hs, bind, Except.bind]

/-! ### New tables -/

@[simp] theorem Mmu.clear_ram (m : Mmu) (a size : ℕ) : (m.clear a size).ram = m.ram := rfl

/-- What `calloc_ram` comes back with: pages that were free and are not any more. -/
structure Fresh (m : Mmu) (a size : ℕ) (ram : RamState) : Prop where
  aligned : a % 2 ^ 12 = 0
  below : a < 2 ^ 48
  free : Set.Ico a (a + size) ⊆ m.ram.ram.bytes
  taken : ram.ram.bytes = m.ram.ram.bytes \ Set.Ico a (a + size)
  ok : RamOk ram

theorem callocPages_spec {m m' : Mmu} {a size : ℕ} (hr : RamOk m.ram)
    (h : callocPages size m = .ok (a, m')) :
    a = NULL_PADDR ∧ m' = m ∨
      a ≠ NULL_PADDR ∧ ∃ ram, m' = { m.clear a size with ram := ram } ∧ Fresh m a size ram := by
  obtain ⟨l, hl⟩ := hr.ram
  obtain ⟨al, hal⟩ := hr.avoid
  have hbytes := hl.bytes
  have hlim : ∀ u ∈ l, u.hi ≤ RAM_LIMIT := fun u hu => by
    have hp := hl.normal.proper u hu
    have := hr.below (u.hi - 1) (hbytes ▸ mem_cover.mpr ⟨u, hu, ⟨by omega, by omega⟩⟩)
    simp only [RAM_LIMIT]; omega
  obtain ⟨⟨a', ram⟩, hc, h⟩ := bind_eq_ok.mp h
  dsimp only at h
  obtain ⟨hfind, hres⟩ := alloc_ram_found hr.inited hl hal hlim (by decide) (by decide) hc
  rcases hres with ⟨rfl, rfl⟩ | ⟨hnull, hu, hw, hat⟩
  · rw [if_pos rfl] at h
    cases h
    exact .inl ⟨rfl, rfl⟩
  obtain ⟨hl', hav, hin⟩ := allocAt_tables hl hw hat
  obtain ⟨u, hul, hlo, hhi, -⟩ := hu.inside
  have hmem : a' ∈ m.ram.ram.bytes := hbytes ▸ mem_cover.mpr ⟨u, hul, ⟨hlo, hhi⟩⟩
  have htaken : ram.ram.bytes = m.ram.ram.bytes \ Set.Ico a' (a' + size) := by
    rw [hl'.bytes, hbytes, cover_cutAll]
  have hsub : ram.ram.bytes ⊆ m.ram.ram.bytes := htaken ▸ Set.sdiff_subset
  have hfresh : Fresh m a' size ram := by
    refine ⟨(find_ram_aligned (k := 12) (by decide) hfind).resolve_left hnull, hr.below a' hmem,
      hbytes ▸ hu.cover, htaken, ?_⟩
    exact ⟨hin.trans hr.inited, ⟨_, hl'⟩, ⟨al, hav ▸ hal⟩, fun b hb => hr.below b (hsub hb),
      fun hs b hb => hr.secure (allocAt_secure hat ▸ hs) b (hsub hb)⟩
  rw [if_neg hnull] at h
  by_cases hsec : m.ram.secure_system = true
  · rw [if_pos hsec, Nat.mod_eq_of_lt (hr.secure hsec a' hmem)] at h
    cases h
    exact .inr ⟨hnull, ram, rfl, hfresh⟩
  · rw [if_neg hsec] at h
    cases h
    exact .inr ⟨hnull, ram, rfl, hfresh⟩

theorem pt_alloc_spec {C : MmuConsts} (hC : C.Standard) {env : MmuEnv} {m m' : Mmu} {e : ℕ}
    (hr : RamOk m.ram) (h : pt_alloc C env m = .ok (e, m')) :
    ∃ a ram, m' = { m.clear a PAGESIZE with ram := ram } ∧ Fresh m a PAGESIZE ram ∧
      PTP_PADDR e = a ∧ child e = some a ∧ e &&& 3 = 3 := by
  obtain ⟨⟨a, m₁⟩, hc, h⟩ := bind_eq_ok.mp h
  rcases callocPages_spec hr hc with ⟨rfl, -⟩ | ⟨hnull, ram, rfl, hf⟩
  · cases h
  dsimp only at h
  rw [if_neg hnull] at h
  cases h
  have ht := attr_set_pte hC env { write := true }
  have hmod := ht.mod
  have hb := hf.below
  have ha := hf.aligned
  have hvalid : set_pte C env a { write := true } &&& 3 = 3 := by
    rw [set_pte_eq, Nat.and_or_distrib_right, ht.valid]
    rw [show a &&& 3 = a % 2 ^ 2 from Nat.and_two_pow_sub_one_eq_mod a 2,
      show a % 2 ^ 2 = 0 by omega]; rfl
  have hpaddr : PTP_PADDR (set_pte C env a { write := true }) = a := by
    rw [PTP_PADDR_eq, set_pte_add hC env _ ha (by omega)]; omega
  refine ⟨a, ram, rfl, hf, hpaddr, ?_, hvalid⟩
  rw [child, if_neg (by intro h0; rw [h0] at hvalid; simp at hvalid), hpaddr]

/-- Tables may be added, but where there was one it stays. -/
structure Extended (C : MmuConsts) (m m' : Mmu) : Prop where
  root : m'.root = m.root
  vaddr : m'.free_vaddr = m.free_vaddr
  walk : ∀ b is q, dom C b is → m.walk b is = some q → m'.walk b is = some q

theorem Extended.refl (C : MmuConsts) (m : Mmu) : Extended C m m := ⟨rfl, rfl, fun _ _ _ _ h => h⟩

theorem Extended.trans {C : MmuConsts} {m₁ m₂ m₃ : Mmu} (h₁ : Extended C m₁ m₂)
    (h₂ : Extended C m₂ m₃) :
    Extended C m₁ m₃ :=
  ⟨h₂.root.trans h₁.root, h₂.vaddr.trans h₁.vaddr,
    fun b is q hd hw => h₂.walk b is q hd (h₁.walk b is q hd hw)⟩

/-- A page of the tree is not free. -/
theorem Tables.not_fresh {C : MmuConsts} {env : MmuEnv} {m : Mmu} (h : Tables C env m) {a size : ℕ}
    {ram : RamState} (hf : Fresh m a size ram) {p : ℕ} (hp : a ≤ p) (hp' : p < a + size) :
    ¬ Radix.Reached child m.mem m.root (dom C) p := fun hr =>
  Set.disjoint_left.mp (h.page p hr).2.2 ⟨le_rfl, Nat.lt_add_of_pos_right (by decide)⟩
    (hf.free ⟨hp, hp'⟩)

/-- Either there is a table already, or one that was free is linked in. -/
theorem ensure_link {C : MmuConsts} (hC : C.Standard) {env : MmuEnv} {m m' : Mmu}
    (ht : Tables C env m) {b : Bool} {is : List ℕ} {i p : ℕ} (hd : dom C b (is ++ [i]))
    (hp : m.walk b is = some p) (h : ensure C env p i m = .ok m') :
    m.mem p i ≠ 0 ∧ m' = m ∨ m.mem p i = 0 ∧ ∃ a ram e,
      m' = ({ m.clear a PAGESIZE with ram := ram } : Mmu).write p i e ∧ Fresh m a PAGESIZE ram ∧
      PTP_PADDR e = a ∧ e &&& 3 = 3 ∧ Radix.Link child m.root (dom C) 0 m.mem m'.mem b is i e p a ∧
      ∀ q j, m'.mem q j =
        if q = p ∧ j = i then e else if a ≤ q ∧ q < a + PAGESIZE then 0 else m.mem q j := by
  rw [ensure] at h
  by_cases hz : m.mem p i = 0
  · rw [if_pos hz] at h
    obtain ⟨⟨e, m₁⟩, halloc, h⟩ := bind_eq_ok.mp h
    obtain ⟨a, ram, rfl, hf, hpa, hchild, hvalid⟩ := pt_alloc_spec hC ht.ram halloc
    cases h
    have hreach : Radix.Reached child m.mem m.root (dom C) p := ⟨b, is, dom_closed C _ _ _ hd, hp⟩
    have hfresh : ∀ q, a ≤ q → q < a + PAGESIZE → ¬ Radix.Reached child m.mem m.root (dom C) q :=
      fun q h₁ h₂ => ht.not_fresh hf h₁ h₂
    have hpa' : ¬ (a ≤ p ∧ p < a + PAGESIZE) := fun hq => hfresh p hq.1 hq.2 hreach
    have hne : p ≠ a := fun hpe => hpa' ⟨hpe.ge, hpe ▸ Nat.lt_add_of_pos_right (by decide)⟩
    set m' : Mmu := ({ m.clear a PAGESIZE with ram := ram } : Mmu).write p i e with hm'
    have hmem : ∀ q j, m'.mem q j = if q = p ∧ j = i then e
        else if a ≤ q ∧ q < a + PAGESIZE then 0 else m.mem q j := by
      intro q j
      simp only [hm', Mmu.write, Mmu.clear, Function.update_apply]
      by_cases hq : q = p
      · subst hq
        by_cases hj : j = i
        · simp [hj]
        · simp [hj, hpa']
      · simp only [hq, false_and, if_false]
        split_ifs <;> rfl
    refine .inr ⟨hz, a, ram, e, rfl, hf, hpa, hvalid, ?_, hmem⟩
    refine ⟨dom_closed C, ht.apart, rfl, hfresh a le_rfl (Nat.lt_add_of_pos_right (by decide)),
      ?_, hp, hd, by rw [hz]; rfl, by rw [hmem, if_pos ⟨rfl, rfl⟩], hchild, ?_⟩
    · intro j
      rw [hmem, if_neg fun hq =>
        hne hq.1.symm, if_pos ⟨le_rfl, Nat.lt_add_of_pos_right (by decide)⟩]
    · intro q j hq hqp
      rw [hmem, if_neg hqp, if_neg fun hin => hfresh q hin.1 hin.2 hq]
  · rw [if_neg hz] at h
    cases h
    exact .inl ⟨hz, rfl⟩

/-- **A table made on the way** is empty, so every address keeps its descriptor. -/
theorem ensure_spec {C : MmuConsts} (hC : C.Standard) {env : MmuEnv} {m m' : Mmu}
    (ht : Tables C env m) {b : Bool} {is : List ℕ} {i p : ℕ} (hd : dom C b (is ++ [i]))
    (hp : m.walk b is = some p) (h : ensure C env p i m = .ok m') :
    Tables C env m' ∧ Extended C m m' ∧ m'.walk b (is ++ [i]) = some (PTP_PADDR (m'.mem p i)) ∧
      ∀ c va, Region C c va → view m' c va = view m c va := by
  rcases ensure_link hC ht hd hp h with
    ⟨hz, rfl⟩ | ⟨hz, a, ram, e, hm', hf, hpa, hvalid, hlink, hmem⟩
  · refine ⟨ht, .refl C m', ?_, fun _ _ _ => rfl⟩
    rw [Mmu.walk_concat, hp, Option.bind_some, child, if_neg hz]
  · have hroot : m'.root = m.root := by rw [hm']; funext c; cases c <;> rfl
    have hram : m'.ram = ram := by rw [hm']; rfl
    have hvaddr : m'.free_vaddr = m.free_vaddr := by rw [hm']; rfl
    have hwalk : ∀ c js, dom C c js → m'.walk c js =
        if c = b ∧ js = is ++ [i] then some a else m.walk c js := by
      intro c js hc
      rw [Mmu.walk, hroot, hlink.walk hc]
      split_ifs <;> rfl
    refine ⟨⟨hram ▸ hf.ok, ?_, ?_, ?_, hvaddr ▸ ht.vaddr⟩, ⟨hroot, hvaddr, ?_⟩, ?_, ?_⟩
    · rw [hroot]; exact hlink.apart_after
    · intro q hq
      rw [hroot] at hq
      have hsub : ram.ram.bytes ⊆ m.ram.ram.bytes := hf.taken ▸ Set.sdiff_subset
      rw [hram]
      rcases hlink.reached hq with rfl | hq
      · exact ⟨hf.aligned, hf.below, hf.taken ▸ Set.disjoint_sdiff_right⟩
      · obtain ⟨h₁, h₂, h₃⟩ := ht.page q hq
        exact ⟨h₁, h₂, h₃.mono_right hsub⟩
    · intro c js j q hc hw
      rw [hwalk c js (dom_closed C _ _ _ hc)] at hw
      rw [hmem]
      by_cases hhere : q = p ∧ j = i
      · rw [if_pos hhere]; exact .inr hvalid
      by_cases hin : a ≤ q ∧ q < a + PAGESIZE
      · rw [if_neg hhere, if_pos hin]; exact .inl rfl
      rw [if_neg hhere, if_neg hin]
      split_ifs at hw with hat
      · cases hw
        exact absurd ⟨le_rfl, Nat.lt_add_of_pos_right (by decide)⟩ hin
      · exact ht.entry c js j q hc hw
    · intro c js q hc hw
      rw [hwalk c js hc, if_neg, hw]
      rintro ⟨rfl, rfl⟩
      rw [Mmu.walk_concat, hp, Option.bind_some, hz] at hw
      cases hw
    · rw [hwalk b _ hd, if_pos ⟨rfl, rfl⟩, hmem, if_pos ⟨rfl, rfl⟩, hpa]
    · intro c va hva
      rw [view, view, hroot]
      refine hlink.lookup (dom_path hva) ?_
      rintro ⟨-, heq⟩
      have := congrArg List.length heq
      have hlen := dom_length hd
      simp only [List.length_append, path, List.length_cons, List.length_nil] at this hlen
      omega

/-- Writing to pages outside the tree, and taking RAM, changes no descriptor. -/
theorem Tables.same {C : MmuConsts} {env : MmuEnv} {m m' : Mmu} (ht : Tables C env m)
    (hroot : m'.root = m.root) (hvaddr : m'.free_vaddr % 2 ^ 12 = 0 ∧ m'.free_vaddr < 2 ^ 64)
    (hram : RamOk m'.ram) (hsub : m'.ram.ram.bytes ⊆ m.ram.ram.bytes)
    (hsame : ∀ p, Radix.Reached child m.mem m.root (dom C) p → m'.mem p = m.mem p) :
    Tables C env m' ∧ (∀ b va, Region C b va → view m' b va = view m b va) ∧
      ∀ p, Radix.Reached child m'.mem m'.root (dom C) p →
      Radix.Reached child m.mem m.root (dom C) p := by
  have hs : Radix.Same child m.root (dom C) m.mem m'.mem := ⟨dom_closed C, hsame⟩
  have hreached : ∀ p, Radix.Reached child m'.mem m'.root (dom C) p →
      Radix.Reached child m.mem m.root (dom C) p := by
    rw [hroot]
    exact fun p => hs.reached
  refine ⟨⟨hram, ?_, fun p hp => ?_, fun b is i p hd hw => ?_, hvaddr⟩, fun b va hva =>
    ?_, hreached⟩
  · rw [hroot]; exact hs.apart_after ht.apart
  · obtain ⟨h₁, h₂, h₃⟩ := ht.page p (hreached p hp)
    exact ⟨h₁, h₂, h₃.mono_right hsub⟩
  · have hdi := dom_closed C _ _ _ hd
    rw [Mmu.walk, hroot, hs.walk hdi] at hw
    rw [hsame p ⟨b, is, hdi, hw⟩]
    exact ht.entry b is i p hd hw
  · rw [view, hroot]; exact hs.lookup (dom_path hva)

/-! ### Descriptors of pages -/

/-- An L3 table is a lowest one. -/
theorem Tables.lowest {C : MmuConsts} {env : MmuEnv} {m : Mmu} (ht : Tables C env m) {b : Bool}
    {va p : ℕ} (hva : Region C b va) (hp : m.walk b (path va) = some p) {mem' : ℕ → ℕ → ℕ}
    (hsame : ∀ q j, q ≠ p → mem' q j = m.mem q j) :
    Radix.Put child m.root (dom C) m.mem mem' b (path va) p := by
  refine ⟨dom_closed C, ht.apart, hp, dom_path hva, fun i hd => ?_, hsame⟩
  have := dom_length hd
  simp [path] at this

/-- **Writing into an L3 table** keeps the tree, and the descriptors of all other pages. -/
theorem Tables.put {C : MmuConsts} {env : MmuEnv} {m : Mmu} (ht : Tables C env m) {b : Bool}
    {va p : ℕ} (hva : Region C b va) (hp : m.walk b (path va) = some p) (mem' : ℕ → ℕ → ℕ)
    (hsame : ∀ q j, q ≠ p → mem' q j = m.mem q j) :
    Tables C env { m with mem := mem' } ∧ Extended C m { m with mem := mem' } ∧
      (∀ c u, Region C c u → (c = b → path u = path va →
        mem' p (L3_IDX u) = m.mem p (L3_IDX u)) →
        view { m with mem := mem' } c u = view m c u) ∧
      ∀ u, path u = path va → view { m with mem := mem' } b u = mem' p (L3_IDX u) := by
  have hput := ht.lowest hva hp hsame
  have hroot : ({ m with mem := mem' } : Mmu).root = m.root := by funext c; cases c <;> rfl
  have hwalk : ∀ c is, dom C c is → ({ m with mem := mem' } : Mmu).walk c is = m.walk c is := by
    intro c is hc
    rw [Mmu.walk, hroot]
    exact hput.walk hc
  refine ⟨⟨ht.ram, ?_, ?_, ?_, ht.vaddr⟩, ⟨hroot, rfl, ?_⟩, ?_, ?_⟩
  · rw [hroot]; exact hput.apart_after
  · intro q hq
    rw [hroot] at hq
    exact ht.page q (hput.reached hq)
  · intro c is i q hd hw
    have hc := dom_closed C _ _ _ hd
    rw [hwalk c is hc] at hw
    have hne : q ≠ p := by
      rintro rfl
      obtain ⟨rfl, rfl⟩ := ht.apart c is b (path va) q hc (dom_path hva) hw hp
      exact hput.lowest i hd
    rw [show ({ m with mem := mem' } : Mmu).mem q i = m.mem q i from hsame q i hne]
    exact ht.entry c is i q hd hw
  · intro c is q hc hw
    rw [hwalk c is hc, hw]
  · intro c u hu hk
    rw [view, hroot]
    exact hput.lookup (dom_path hu) hk
  · intro u hu
    have hw : ({ m with mem := mem' } : Mmu).walk b (path u) = some p := by
      rw [hu, hwalk b _ (dom_path hva), hp]
    rw [view_of_walk hw]; rfl

/-! ### The first tables -/

/-- The tables of `aarch64_map_init`: an empty one for `L1_ttbr0`; one for `L1_ttbr1` that has
itself and one L2 table in it; and that L2 table, with the L1 table in it. -/
structure FirstTables (C : MmuConsts) (m : Mmu) (L2 : ℕ) : Prop where
  apart : m.L1_ttbr0 ≠ m.L1_ttbr1 ∧ m.L1_ttbr0 ≠ L2 ∧ m.L1_ttbr1 ≠ L2
  low : ∀ i, m.mem m.L1_ttbr0 i = 0
  high : ∀ i, i ≠ C.L1_L1_IDX → i ≠ C.L1_L2_IDX → m.mem m.L1_ttbr1 i = 0
  link : m.mem m.L1_ttbr1 C.L1_L2_IDX &&& 3 = 3 ∧
    child (m.mem m.L1_ttbr1 C.L1_L2_IDX) = some L2
  startup : ∀ i, i ≠ C.L2_L2_IDX → m.mem L2 i = 0

/-- The recursive entries lead nowhere that an address does. -/
theorem FirstTables.place {C : MmuConsts} (hC : C.Standard) {m : Mmu} {L2 : ℕ}
    (h : FirstTables C m L2) {b : Bool} {is : List ℕ} {p : ℕ} (hd : dom C b is)
    (hw : m.walk b is = some p) :
    is = [] ∧ p = m.root b ∨ b = true ∧ is = [C.L1_L2_IDX] ∧ p = L2 := by
  obtain ⟨va, hva, hpre⟩ := hd
  have hfirst : m.walk b [L1_IDX va] = none ∨
      b = true ∧ L1_IDX va = C.L1_L2_IDX ∧ m.walk b [L1_IDX va] = some L2 := by
    have hL1 : m.walk b [L1_IDX va] = child (m.mem (m.root b) (L1_IDX va)) := rfl
    cases b with
    | false => exact .inl (by rw [hL1, Mmu.root, h.low]; rfl)
    | true =>
        by_cases hi : L1_IDX va = C.L1_L2_IDX
        · exact .inr ⟨rfl, hi, by rw [hL1, hi]; exact h.link.2⟩
        · exact .inl (by rw [hL1, Mmu.root, h.high _ (hC.L1_L1 va hva.1 hva.2) hi]; rfl)
  have hL2 := m.walk_path b va
  rcases path_prefix hpre with rfl | rfl | rfl
  · cases hw
    exact .inl ⟨rfl, rfl⟩
  · rcases hfirst with hnone | ⟨rfl, hi, hsome⟩
    · rw [hnone] at hw; cases hw
    · rw [hsome] at hw
      exact .inr ⟨rfl, by rw [hi], (Option.some.inj hw).symm⟩
  · -- Neither table below the roots leads further.
    rcases hfirst with hnone | ⟨rfl, hi, hsome⟩
    · rw [hL2, hnone] at hw; cases hw
    · rw [hL2, hsome, Option.bind_some, h.startup _ (hC.L2_L2 va hva.1 hva.2 hi)] at hw
      cases hw

theorem FirstTables.tables {C : MmuConsts} (hC : C.Standard) {env : MmuEnv} {m : Mmu} {L2 : ℕ}
    (h : FirstTables C m L2) (hram : RamOk m.ram)
    (hv : m.free_vaddr % 2 ^ 12 = 0 ∧ m.free_vaddr < 2 ^ 64)
    (hpage : ∀ p ∈ [m.L1_ttbr0, m.L1_ttbr1, L2], p % 2 ^ 12 = 0 ∧ p < 2 ^ 48 ∧
      Disjoint (Set.Ico p (p + PAGESIZE)) m.ram.ram.bytes) :
    Tables C env m ∧ ∀ b va, Region C b va → view m b va = 0 := by
  obtain ⟨h01, h02, h12⟩ := h.apart
  refine ⟨⟨hram, ?_, ?_, ?_, hv⟩, ?_⟩
  · intro b is b' is' p hd hd' hw hw'
    rcases h.place hC hd hw with ⟨rfl, rfl⟩ | ⟨rfl, rfl, rfl⟩ <;>
      rcases h.place hC hd' hw' with ⟨rfl, hp⟩ | ⟨rfl, rfl, hp⟩
    · cases b <;> cases b' <;> first | exact ⟨rfl, rfl⟩ | exact absurd hp h01 |
        exact absurd hp.symm h01
    · cases b
      · exact absurd hp h02
      · exact absurd hp h12
    · cases b'
      · exact absurd hp.symm h02
      · exact absurd hp.symm h12
    · exact ⟨rfl, rfl⟩
  · rintro p ⟨b, is, hd, hw⟩
    apply hpage
    rcases h.place hC hd hw with ⟨rfl, rfl⟩ | ⟨rfl, rfl, rfl⟩
    · cases b <;> simp [Mmu.root]
    · simp
  · intro b is i p hd hw
    obtain ⟨va, hva, hpre⟩ := hd
    rcases h.place hC ⟨va, hva, (List.prefix_append is [i]).trans hpre⟩ hw with
      ⟨rfl, rfl⟩ | ⟨rfl, rfl, rfl⟩
    · obtain ⟨rfl, -⟩ : i = L1_IDX va ∧ [] <+: [L2_IDX va] := by simpa [path] using hpre
      cases b with
      | false => exact .inl (h.low _)
      | true =>
          by_cases hi : L1_IDX va = C.L1_L2_IDX
          · rw [hi]; exact .inr h.link.1
          · exact .inl (h.high _ (hC.L1_L1 va hva.1 hva.2) hi)
    · obtain ⟨hi, rfl⟩ : C.L1_L2_IDX = L1_IDX va ∧ i = L2_IDX va := by simpa [path] using hpre
      exact .inl (h.startup _ (hC.L2_L2 va hva.1 hva.2 hi.symm))
  · intro b va hva
    have hnone : m.walk b (path va) = none := by
      rw [Option.eq_none_iff_forall_not_mem]
      intro p hp
      rcases h.place hC (dom_path hva) hp with ⟨hnil, -⟩ | ⟨-, hone, -⟩
      · cases hnil
      · simp [path] at hone
    rw [view_of_walk hnone]; rfl

/-- A page that is not free keeps out of what is allocated after it. -/
theorem Fresh.apart {m : Mmu} {a size p : ℕ} {ram : RamState}
    (hf : Fresh m a size ram) (hp : Disjoint (Set.Ico p (p + PAGESIZE)) m.ram.ram.bytes) :
    ¬ (a ≤ p ∧ p < a + size) ∧ Disjoint (Set.Ico p (p + PAGESIZE)) ram.ram.bytes := by
  refine ⟨fun hin => ?_, hp.mono_right (hf.taken ▸ Set.sdiff_subset)⟩
  exact Set.disjoint_left.mp hp ⟨le_rfl, Nat.lt_add_of_pos_right (by decide)⟩ (hf.free hin)

theorem Fresh.own {m : Mmu} {a : ℕ} {ram : RamState}
    (hf : Fresh m a PAGESIZE ram) : Disjoint (Set.Ico a (a + PAGESIZE)) ram.ram.bytes :=
  hf.taken ▸ Set.disjoint_sdiff_right

theorem Mmu.clear_inside (m : Mmu) {a size p : ℕ} (h : a ≤ p ∧ p < a + size) :
    (m.clear a size).mem p = fun _ => 0 := if_pos h

theorem Mmu.clear_outside (m : Mmu) {a size p : ℕ} (h : ¬ (a ≤ p ∧ p < a + size)) :
    (m.clear a size).mem p = m.mem p := if_neg h

theorem Mmu.write_same (m : Mmu) (p i v : ℕ) : (m.write p i v).mem p i = v := by
  simp [Mmu.write]

theorem Mmu.write_other (m : Mmu) {p i v q j : ℕ} (h : q ≠ p ∨ j ≠ i) :
    (m.write p i v).mem q j = m.mem q j := by
  simp only [Mmu.write, Function.update_apply]
  split_ifs <;> simp_all

/-- The L1 table for `L1_ttbr0` is allocated without a check, but if there is no page for it there
is none for the next table either, and that is a crash. -/
theorem pt_alloc_null {C : MmuConsts} {env : MmuEnv} {m m₁ m₂ : Mmu} {x : ℕ × Mmu}
    (h : callocPages PAGESIZE m = .ok (NULL_PADDR, m₁)) (hram : m₂.ram = m.ram) :
    pt_alloc C env m₂ ≠ .ok x := by
  intro hx
  obtain ⟨⟨a, ram⟩, hc, h⟩ := bind_eq_ok.mp h
  obtain rfl : a = NULL_PADDR := by
    dsimp only at h
    split_ifs at h with h₁ h₂ <;> cases h <;> first | exact h₁ | rfl
  obtain ⟨⟨a, m₃⟩, hc', hx⟩ := bind_eq_ok.mp hx
  rw [callocPages, hram, hc] at hc'
  cases hc'
  cases hx

theorem aarch64_map_init_tables {C : MmuConsts} (hC : C.Standard) {env : MmuEnv} {m m' : Mmu}
    (hr : RamOk m.ram) (h : aarch64_map_init C env m = .ok m') :
    ∃ m₁ L0_paddr size r, Tables C env m₁ ∧ (∀ b va, Region C b va → view m₁ b va = 0) ∧
      L0_paddr < 2 ^ 48 ∧ aarch64_map C env (2 ^ 64 - 1) L0_paddr size { write := true } m₁ =
        .ok (r, m') := by
  obtain ⟨⟨a₀, m₁⟩, h₀, h⟩ := bind_eq_ok.mp h
  obtain ⟨⟨e₁, m₂⟩, h₁, h⟩ := bind_eq_ok.mp h
  rcases callocPages_spec hr h₀ with ⟨rfl, rfl⟩ | ⟨-, ram₀, rfl, hf₀⟩
  · exact absurd h₁ (pt_alloc_null h₀ rfl)
  have hpa₀ : PTP_PADDR a₀ = a₀ := by
    have h₁ := hf₀.aligned
    have h₂ := hf₀.below
    rw [PTP_PADDR_eq]; omega
  obtain ⟨a₁, ram₁, rfl, hf₁, hpa₁, hch₁, -⟩ := pt_alloc_spec hC hf₀.ok h₁
  obtain ⟨⟨e₂, m₃⟩, h₂, h⟩ := bind_eq_ok.mp h
  obtain ⟨a₂, ram₂, rfl, hf₂, hpa₂, hch₂, hv₂⟩ := pt_alloc_spec hC hf₁.ok h₂
  obtain ⟨⟨L0, m₄⟩, h₃, h⟩ := bind_eq_ok.mp h
  dsimp only at h
  rcases callocPages_spec hf₂.ok h₃ with ⟨rfl, -⟩ | ⟨hnull, ram₃, rfl, hf₃⟩
  · cases h
  rw [if_neg hnull] at h
  obtain ⟨⟨r, m₅⟩, hmap, h⟩ := bind_eq_ok.mp h
  cases h
  -- Each page is off everything allocated after it.
  obtain ⟨ho₁, hd₀⟩ := hf₁.apart hf₀.own
  obtain ⟨ho₂, hd₀⟩ := hf₂.apart hd₀
  obtain ⟨ho₃, hd₀⟩ := hf₃.apart hd₀
  obtain ⟨ht₂, hd₁⟩ := hf₂.apart hf₁.own
  obtain ⟨ht₃, hd₁⟩ := hf₃.apart hd₁
  obtain ⟨hu₃, hd₂⟩ := hf₃.apart hf₂.own
  have hin : ∀ a, a ≤ a ∧ a < a + PAGESIZE := fun a => ⟨le_rfl, Nat.lt_add_of_pos_right (by decide)⟩
  have h01 : a₀ ≠ a₁ := fun he => ho₁ (he ▸ hin a₀)
  have h02 : a₀ ≠ a₂ := fun he => ho₂ (he ▸ hin a₀)
  have h12 : a₁ ≠ a₂ := fun he => ht₂ (he ▸ hin a₁)
  rw [hpa₀] at hmap
  rw [hpa₁] at hmap
  rw [hpa₂] at hmap
  set size := round 64 (64 * C.PROCESSORS_MAX) PAGESIZE
  set M := ((((((m.clear a₀ PAGESIZE).clear a₁ PAGESIZE).write a₁ C.L1_L1_IDX e₁).clear a₂
    PAGESIZE).write a₁ C.L1_L2_IDX e₂).write a₂ C.L2_L2_IDX e₁).clear L0 size with hM
  change aarch64_map C env (2 ^ 64 - 1) L0 size { write := true }
    ⟨ram₃, M.mem, a₀, a₁, C.STARTUP_BASE⟩ = .ok (r, m₅) at hmap
  have hfirst : FirstTables C ⟨ram₃, M.mem, a₀, a₁, C.STARTUP_BASE⟩ a₂ := by
    refine ⟨⟨h01, h02, h12⟩, fun i => ?_, fun i hi₁ hi₂ => ?_, ?_, fun i hi => ?_⟩
    · change M.mem a₀ i = 0
      rw [hM, Mmu.clear_outside _ ho₃, Mmu.write_other _ (.inl h02), Mmu.write_other _ (.inl h01),
        Mmu.clear_outside _ ho₂, Mmu.write_other _ (.inl h01), Mmu.clear_outside _ ho₁,
        Mmu.clear_inside _ (hin a₀)]
    · change M.mem a₁ i = 0
      rw [hM, Mmu.clear_outside _ ht₃, Mmu.write_other _ (.inl h12), Mmu.write_other _ (.inr hi₂),
        Mmu.clear_outside _ ht₂, Mmu.write_other _ (.inr hi₁), Mmu.clear_inside _ (hin a₁)]
    · have he : M.mem a₁ C.L1_L2_IDX = e₂ := by
        rw [hM, Mmu.clear_outside _ ht₃, Mmu.write_other _ (.inl h12), Mmu.write_same]
      change M.mem a₁ C.L1_L2_IDX &&& 3 = 3 ∧ child (M.mem a₁ C.L1_L2_IDX) = some a₂
      rw [he]
      exact ⟨hv₂, hch₂⟩
    · change M.mem a₂ i = 0
      rw [hM, Mmu.clear_outside _ hu₃, Mmu.write_other _ (.inr hi),
        Mmu.write_other _ (.inl h12.symm), Mmu.clear_inside _ (hin a₂)]
  have hpages : ∀ p ∈ [a₀, a₁, a₂], p % 2 ^ 12 = 0 ∧ p < 2 ^ 48 ∧
      Disjoint (Set.Ico p (p + PAGESIZE)) ram₃.ram.bytes := by
    simp only [List.forall_mem_cons, List.not_mem_nil, false_imp_iff, implies_true, and_true]
    exact ⟨⟨hf₀.aligned, hf₀.below, hd₀⟩, ⟨hf₁.aligned, hf₁.below, hd₁⟩, hf₂.aligned,
      hf₂.below, hd₂⟩
  have hvaddr : C.STARTUP_BASE % 2 ^ 12 = 0 := by
    have := hC.aligned.2
    omega
  obtain ⟨ht, hview⟩ := hfirst.tables hC hf₃.ok ⟨hvaddr, hC.startup.2⟩ hpages
  exact ⟨_, L0, size, r, ht, hview, hf₃.below, hmap⟩

end Startup
