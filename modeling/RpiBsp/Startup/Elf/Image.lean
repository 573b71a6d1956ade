import RpiBsp.Startup.Elf.Load

/-!
# Startup — ELF — what an image becomes

For an image whose segments have pages of their own (`Loadable`), loading is to make every address
of a segment lead to its byte, to leave the file alone, and to find the range of addresses
(`Loaded`).

* `load_elf64mmu_iff` — it does so, or crashes, unless a segment that is copied is a multiple of 4
  GiB, the size of one wraps when it is rounded to pages, or one starts at address 0 and another one
  is loaded after it.
-/

namespace Startup.Elf

open Support

/-- What is given: tables, an image with sound segments at pages of their own, and its bytes neither
in free RAM nor in a table. -/
structure Loadable (C : MmuConsts) (env : MmuEnv) (addr : ℕ) (phs : List Elf64_Phdr)
    (s : Boot) : Prop where
  virt : env.is_virtual = true
  tables : Tables C env s.mmu
  wf : ∀ ph ∈ loads phs, ph.Wf
  apart : (loads phs).Pairwise fun a b => Disjoint a.span b.span
  file : ∀ ph ∈ loads phs, ∀ k < ph.p_filesz, ph.fileAddr addr k ∉ s.mmu.ram.ram.bytes ∧
    ¬ Radix.Reached child s.mmu.mem s.mmu.root (dom C) (page (ph.fileAddr addr k))

/-- The range is the smallest one from the start of a first page to the end of a segment; before any
segment is loaded, it is empty. -/
def Spans (l : List Elf64_Phdr) (s : Boot) : Prop :=
  l = [] ∧ s.boot_vaddr_base = 0 ∧ s.boot_vaddr_end = 0 ∨
    IsLeast {v | v ∈ l.map Elf64_Phdr.vaddr} s.boot_vaddr_base ∧
      IsGreatest {v | v ∈ l.map Elf64_Phdr.top} s.boot_vaddr_end

/-- What is to hold after loading.  Images may have been loaded before; `earlier` are their
segments. -/
structure Loaded (C : MmuConsts) (addr : ℕ) (phs earlier : List Elf64_Phdr)
    (s s' : Boot) : Prop where
  bytes : ∀ ph ∈ loads phs, ∀ k < ph.p_memsz, ∃ x, x ≠ NULL_PADDR ∧
    elf_vaddr_to_paddr C (ph.p_vaddr + k) s'.mmu = .ok x ∧
    byte s'.mmu x = if k < ph.p_filesz then byte s.mmu (ph.fileAddr addr k) else 0
  file : ∀ ph ∈ loads phs, ∀ k < ph.p_filesz,
    byte s'.mmu (ph.fileAddr addr k) = byte s.mmu (ph.fileAddr addr k)
  range : Spans (earlier ++ loads phs) s'

/-- When it does. -/
structure LoadsRight (earlier phs : List Elf64_Phdr) : Prop where
  ends : ∀ ph ∈ loads phs, ¬ ph.Stuck
  fits : ∀ ph ∈ loads phs, ph.Fits
  base : 0 ∈ (earlier ++ loads phs).map Elf64_Phdr.vaddr → ∀ ph ∈ (loads phs).getLast?, ph.vaddr = 0

section

variable {C : MmuConsts} {env : MmuEnv} {addr : ℕ} {phs earlier : List Elf64_Phdr} {s s' : Boot}

theorem Loadable.kept (h : Loadable C env addr phs s) :
    ∀ ph ∈ loads phs, FileKept C addr ph s.mmu := by
  intro ph hph k hk hown
  obtain ⟨hfree, htable⟩ := h.file ph hph k hk
  rcases hown with hown | ⟨-, hown⟩
  · exact htable hown
  · refine hfree (hown ⟨?_, ?_⟩)
    · rw [page_eq]
      omega
    · rw [page_eq, show PAGESIZE = 2 ^ 12 from rfl]
      omega

/-- The address space has room for no segment whose size wraps. -/
theorem fits_of_bytes (hC : C.Standard) {ph : Elf64_Phdr} (hw : ph.Wf) {m : Mmu}
    (hbytes : ∀ k < ph.p_memsz, ∃ x, elf_vaddr_to_paddr C (ph.p_vaddr + k) m = .ok x) :
      ph.Fits := by
  by_contra hwrap
  have htop := hw.top
  rw [Elf64_Phdr.Fits, Elf64_Phdr.size] at hwrap
  obtain ⟨x, hx⟩ := hbytes (2 ^ 40 - ph.p_vaddr) (by omega)
  have huser := hC.user
  have hstart := hC.startup
  rw [show ph.p_vaddr + (2 ^ 40 - ph.p_vaddr) = 2 ^ 40 by omega, elf_vaddr_to_paddr_bad (by decide)
    (show ¬ 2 ^ 40 < C.USER_END by omega) fun h => by have := h.1; omega] at hx
  cases hx

/-- The range, from what is loaded. -/
theorem spans_iff (he : Spans earlier s)
    (hbase : s'.boot_vaddr_base = ((loads phs).map Elf64_Phdr.vaddr).foldl lower s.boot_vaddr_base)
    (hend : s'.boot_vaddr_end = ((loads phs).map Elf64_Phdr.top).foldl max s.boot_vaddr_end) :
    Spans (earlier ++ loads phs) s' ↔
      (0 ∈ (earlier ++ loads phs).map Elf64_Phdr.vaddr → ∀ ph ∈ (loads phs).getLast?,
      ph.vaddr = 0) := by
  by_cases hnone : earlier ++ loads phs = []
  · obtain ⟨rfl, hl⟩ := List.append_eq_nil_iff.mp hnone
    have hzero : s.boot_vaddr_base = 0 ∧ s.boot_vaddr_end = 0 :=
      he.elim And.right fun h => by simpa using h.1.1
    rw [hl] at hbase hend ⊢
    exact ⟨fun _ h => absurd h (by simp), fun _ =>
      .inl ⟨rfl, hbase.trans hzero.1, hend.trans hzero.2⟩⟩
  · have hne : ∀ f : Elf64_Phdr → ℕ, earlier.map f ++ (loads phs).map f ≠ [] := by
      intro f
      rw [← List.map_append]
      simpa using hnone
    have hleast := foldl_lower_iff (he.imp (fun h => ⟨by rw [h.1]; rfl, h.2.1⟩) And.left)
      (hne Elf64_Phdr.vaddr)
    have hgreatest := foldl_max (he.imp (fun h => ⟨by rw [h.1]; rfl, h.2.2⟩) And.right)
      (hne Elf64_Phdr.top)
    rw [← hbase, ← List.map_append, List.getLast?_map] at hleast
    rw [← hend, ← List.map_append] at hgreatest
    have hlast : (∀ v ∈ (loads phs).getLast?.map Elf64_Phdr.vaddr, v = 0) ↔
        ∀ ph ∈ (loads phs).getLast?, ph.vaddr = 0 := by simp
    rw [← hlast, ← hleast]
    constructor
    · exact fun h => (h.resolve_left fun h => hnone h.1).1
    · exact fun h => .inr ⟨h, hgreatest⟩

end

/-- **When an image is loaded as it should be**, if the code does not crash for want of memory or of
addresses. -/
theorem load_elf64mmu_iff {C : MmuConsts} (hC : C.Standard) {env : MmuEnv} {addr : ℕ}
    {phs earlier : List Elf64_Phdr}
    {s : Boot} (h : Loadable C env addr phs s) (he : Spans earlier s)
    (hcrash : ∀ c, load_elf64mmu C env addr phs s ≠ .error (.crash c)) :
    (∃ s', load_elf64mmu C env addr phs s = .ok s' ∧ Loaded C addr phs earlier s s') ↔
    LoadsRight earlier phs := by
  rw [load_elf64mmu_loads] at hcrash ⊢
  constructor
  · rintro ⟨s', hload, hloaded⟩
    have hfits : ∀ ph ∈ loads phs, ph.Fits := by
      intro ph hph
      refine fits_of_bytes hC (m := s'.mmu) (h.wf ph hph) fun k hk => ?_
      obtain ⟨x, -, hx, -⟩ := hloaded.bytes ph hph k hk
      exact ⟨x, hx⟩
    have hend := (loads_spec hC h.virt h.tables h.wf hfits h.apart h.kept hload).2.2.2
    exact ⟨loads_not_stuck hload, hfits, (spans_iff he (loads_base hload) hend).mp hloaded.range⟩
  · intro hright
    cases hload : (loads phs).foldlM (fun s ph => loadSegment C env addr ph s) s with
    | error e =>
        cases e with
        | crash c => exact absurd hload (hcrash c)
        | forever =>
            obtain ⟨ph, hph, hstuck⟩ := loads_forever hload
            exact absurd hstuck (hright.ends ph hph)
    | ok s' =>
        obtain ⟨hkeeps, -, hplaced, hend⟩ :=
          loads_spec hC h.virt h.tables h.wf hright.fits h.apart h.kept hload
        refine ⟨s', rfl, fun ph hph k hk => ?_, fun ph hph k hk => ?_, ?_⟩
        · obtain ⟨x, hx, htrans, -, hbyte⟩ := hplaced ph hph k hk
          exact ⟨x, by rw [NULL_PADDR]; omega, htrans, hbyte⟩
        · exact byte_keeps hkeeps (h.kept ph hph k hk)
        · exact (spans_iff he (loads_base hload) hend).mpr hright.base

/-! ### Two images -/

/-- Three pages for the first tables, free RAM behind them, and the image at `0x80000`. -/
def bootState : Boot where
  mmu :=
    { ram := { bootMmu.ram with
        ram := ⟨fun r => if r = 0 then ⟨0x103000, 0xfd000⟩ else ⟨0, 0⟩, 2 * ENTRY_SIZE⟩ }
      mem := fun p i => if p = 0x101000 ∧ i = 1 then 0x102003
        else if p = 0x80000 then 0x0807060504030201 + i else 0
      L1_ttbr0 := 0x100000
      L1_ttbr1 := 0x101000
      free_vaddr := armConsts.STARTUP_BASE }
  boot_vaddr_base := 0
  boot_vaddr_end := 0

theorem bootState_first : FirstTables armConsts bootState.mmu 0x102000 where
  apart := by decide
  low _ := rfl
  high i _ hi := by
    have hmem : ∀ j, bootState.mmu.mem 0x101000 j = if j = 1 then 0x102003 else 0 := by
      intro j
      simp [bootState]
    exact (hmem i).trans (if_neg hi)
  link := by decide
  startup _ _ := rfl

theorem bootState_rep : bootState.mmu.ram.ram.Rep [⟨0x103000, 0x200000⟩] := by
  refine ⟨⟨⟨0, 0⟩, rfl, ?_⟩, rfl, by decide, normal_singleton (by simp), by simp⟩
  rw [List.map_singleton, List.singleton_append, holds_cons, holds_cons]
  exact ⟨rfl, rfl, Holds.nil _ _⟩

theorem bootState_free {x : ℕ} (h : x ∈ bootState.mmu.ram.ram.bytes) :
    0x103000 ≤ x ∧ x < 0x200000 := by
  rw [bootState_rep.bytes] at h
  obtain ⟨u, hu, hx⟩ := h
  obtain rfl := List.mem_singleton.mp hu
  exact hx

theorem bootState_tables : Tables armConsts bootEnv bootState.mmu := by
  have hok : RamOk bootState.mmu.ram :=
    ⟨rfl, ⟨_, bootState_rep⟩, bootMmu_ok.avoid, fun x hx => (bootState_free hx).2.trans (by decide),
      fun hs => absurd hs (by decide)⟩
  refine (bootState_first.tables armConsts_standard hok ⟨by decide, by decide⟩ ?_).1
  have hpage : ∀ p ≤ 0x102000, Disjoint (Set.Ico p (p + PAGESIZE)) bootState.mmu.ram.ram.bytes := by
    intro p hp
    refine Set.disjoint_left.mpr fun x hx hfree => ?_
    have hlo := (bootState_free hfree).1
    have hhi := hx.2
    rw [show PAGESIZE = 0x1000 from rfl] at hhi
    omega
  simp only [List.forall_mem_cons, List.not_mem_nil, false_imp_iff, implies_true, and_true]
  exact ⟨⟨by decide, by decide, hpage _ (by decide)⟩,
    ⟨by decide, by decide, hpage _ (by decide)⟩, by decide, by decide, hpage _ le_rfl⟩

theorem bootState_loadable {phs : List Elf64_Phdr} (hwf : ∀ ph ∈ loads phs, ph.Wf)
    (hapart : (loads phs).Pairwise fun a b => a.vaddr + pages a.size ≤ b.vaddr)
    (hfile : ∀ ph ∈ loads phs, ∀ k < ph.p_filesz, page (ph.fileAddr 0x80000 k) = 0x80000) :
    Loadable armConsts bootEnv 0x80000 phs bootState := by
  refine ⟨rfl, bootState_tables, hwf, hapart.imp fun hle => ?_, fun ph hph k hk =>
    ⟨fun hfree => ?_, ?_⟩⟩
  · refine Set.disjoint_left.mpr fun x hx hy => ?_
    have hlt := hx.2
    have hge := hy.1
    omega
  · have hpage := hfile ph hph k hk
    have hlo := (bootState_free hfree).1
    rw [page_eq] at hpage
    omega
  · rw [hfile ph hph k hk]
    rintro ⟨b, is, hd, hw⟩
    rcases bootState_first.place armConsts_standard hd hw with ⟨-, hp⟩ | ⟨-, -, hp⟩
    · cases b <;> exact absurd hp (by decide)
    · exact absurd hp (by decide)

/-- Text that is in RAM, data with a tail, and a segment to be copied. -/
def threeSegments : List Elf64_Phdr :=
  [⟨PT_LOAD, 5, 0x10, 0x1010, 0x80010, 0x20, 0x20⟩, ⟨PT_LOAD, 6, 0x30, 0x2030, 0x80030, 0x10, 0x40⟩,
    ⟨PT_LOAD, 6, 0x40, 0x3048, 0, 8, 0x10⟩]

/-- One segment at address 0, and one at the next page. -/
def lowSegments : List Elf64_Phdr :=
  [⟨PT_LOAD, 5, 0, 0, 0x80000, 0x10, 0x10⟩, ⟨PT_LOAD, 5, 0x10, 0x1010, 0x80010, 0x20, 0x20⟩]

theorem spans_nil : Spans [] bootState := .inl ⟨rfl, rfl, rfl⟩

theorem threeSegments_loadable : Loadable armConsts bootEnv 0x80000 threeSegments bootState := by
  have hloads : loads threeSegments = threeSegments := by decide
  refine bootState_loadable ?_ ?_ ?_ <;> rw [hloads]
  · simp only [threeSegments, List.forall_mem_cons, List.not_mem_nil, false_imp_iff, implies_true,
      and_true]
    exact ⟨⟨by decide, by decide, by decide, by decide⟩,
      ⟨by decide, by decide, by decide, by decide⟩, by decide, by decide, by decide, by decide⟩
  · decide
  · decide

theorem lowSegments_loadable : Loadable armConsts bootEnv 0x80000 lowSegments bootState := by
  have hloads : loads lowSegments = lowSegments := by decide
  refine bootState_loadable ?_ ?_ ?_ <;> rw [hloads]
  · simp only [lowSegments, List.forall_mem_cons, List.not_mem_nil, false_imp_iff, implies_true,
      and_true]
    exact ⟨⟨by decide, by decide, by decide, by decide⟩, by decide, by decide, by decide, by decide⟩
  · decide
  · decide

theorem load_elf64mmu_threeSegments :
    ∃ s', load_elf64mmu armConsts bootEnv 0x80000 threeSegments bootState = .ok s' ∧
    Loaded armConsts 0x80000 threeSegments [] bootState s' := by
  have hrun : (load_elf64mmu armConsts bootEnv 0x80000 threeSegments
    bootState).toOption.isSome := by decide +kernel
  obtain ⟨s', hs'⟩ := Option.isSome_iff_exists.mp hrun
  have hload := toOption_eq_some.mp hs'
  have hright : LoadsRight [] threeSegments := ⟨by decide, by decide, by decide⟩
  exact (load_elf64mmu_iff armConsts_standard threeSegments_loadable spans_nil fun c hc => by
    rw [hload] at hc
    cases hc).mpr hright

/-- The start of the first segment is forgotten. -/
theorem load_elf64mmu_lowSegments :
    ∃ (phs : List Elf64_Phdr) (s s' : Boot), Loadable armConsts bootEnv 0x80000 phs s ∧
    Spans [] s ∧ load_elf64mmu armConsts bootEnv 0x80000 phs s = .ok s' ∧
    s'.boot_vaddr_base = 0x1000 ∧
    ¬ Loaded armConsts 0x80000 phs [] s s' := by
  have hrun : (load_elf64mmu armConsts bootEnv 0x80000 lowSegments bootState).toOption.map
      Boot.boot_vaddr_base = some 0x1000 := by decide +kernel
  obtain ⟨s', hs', hbase⟩ := Option.map_eq_some_iff.mp hrun
  refine ⟨lowSegments, bootState, s', lowSegments_loadable, spans_nil, toOption_eq_some.mp hs',
    hbase, ?_⟩
  intro hloaded
  rcases hloaded.range with ⟨hnil, -⟩ | ⟨hleast, -⟩
  · exact absurd hnil (by decide)
  · rw [hbase] at hleast
    have hzero : 0x1000 ≤ 0 :=
      hleast.2 (show 0 ∈ ([] ++ loads lowSegments).map Elf64_Phdr.vaddr by decide)
    omega

end Startup.Elf
