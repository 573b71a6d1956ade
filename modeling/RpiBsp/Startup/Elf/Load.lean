import Mathlib.Data.List.Induction
import Mathlib.Order.Bounds.Basic
import RpiBsp.Startup.Elf.Segment

/-!
# Startup — ELF — an image

The segments of an image are loaded one after the other.  What an earlier one got stays: its pages
are not the code's own any more, and the addresses of a later one are others.

* `loads_spec` — what loading does, for segments whose sizes do not wrap;
* `loads_forever`, `loads_not_stuck` — `copy_memory` ends unless a segment is a multiple of 4 GiB;
* `foldl_lower_iff` — `boot_vaddr_base` takes 0 for no address;
* `load_elf64mmu_iff` — when an image is loaded as it should be.
-/

namespace Startup.Elf

open Support

/-- The segments that are loaded. -/
def loads (phs : List Elf64_Phdr) : List Elf64_Phdr := phs.filter fun ph => ph.p_type = PT_LOAD

theorem load_elf64mmu_loads (C : MmuConsts) (env : MmuEnv) (addr : ℕ) (phs : List Elf64_Phdr)
    (s : Boot) :
    load_elf64mmu C env addr phs s =
      (loads phs).foldlM (fun s ph => loadSegment C env addr ph s) s := by
  induction phs generalizing s with
  | nil => rfl
  | cons ph phs ih =>
      by_cases hload : ph.p_type = PT_LOAD
      · rw [load_elf64mmu, if_pos hload, loads, List.filter_cons_of_pos (by simpa using hload),
          List.foldlM_cons]
        exact bind_congr ih
      · rw [load_elf64mmu, if_neg hload, loads, List.filter_cons_of_neg (by simpa using hload)]
        exact ih s

/-! ### The range -/

/-- What becomes of `boot_vaddr_base`. -/
def lower (b v : ℕ) : ℕ := if b = 0 ∨ v < b then v else b

/-- **When the lowest address is found**: 0 is taken for no address, and forgotten unless it comes
last. -/
theorem foldl_lower_iff {E L : List ℕ} {b : ℕ} (hb : E = [] ∧ b = 0 ∨ IsLeast {v | v ∈ E} b)
    (hne : E ++ L ≠ []) :
    IsLeast {v | v ∈ E ++ L} (L.foldl lower b) ↔ (0 ∈ E ++ L → ∀ v ∈ L.getLast?, v = 0) := by
  induction L using List.reverseRecOn with
  | nil =>
      rw [List.append_nil] at hne ⊢
      refine ⟨fun _ _ v hv => absurd hv (by simp), fun _ => ?_⟩
      exact hb.resolve_left fun h => hne h.1
  | append_singleton L v ih =>
      rw [List.foldl_append, List.foldl_cons, List.foldl_nil, List.getLast?_concat]
      constructor
      · rintro ⟨-, hle⟩ hzero w hw
        obtain rfl : v = w := Option.some.inj hw
        have h₀ : lower (L.foldl lower b) v ≤ 0 := hle hzero
        rw [lower] at h₀
        split_ifs at h₀ <;> omega
      · intro h
        by_cases hzero : 0 ∈ E ++ (L ++ [v])
        · obtain rfl := h hzero v rfl
          have h₀ : lower (L.foldl lower b) 0 = 0 := by
            rw [lower]
            split_ifs <;> omega
          rw [h₀]
          exact ⟨hzero, fun _ _ => Nat.zero_le _⟩
        · have hv : v ≠ 0 := fun h₀ => hzero (by simp [h₀])
          have hmem : ∀ x, x ∈ E ++ (L ++ [v]) ↔ x ∈ E ++ L ∨ x = v := by
            intro x
            simp [or_assoc]
          by_cases hfirst : E ++ L = []
          · obtain ⟨rfl, rfl⟩ := List.append_eq_nil_iff.mp hfirst
            have hb₀ : b = 0 := hb.elim And.right fun h => absurd h.1 List.not_mem_nil
            rw [List.foldl_nil, lower, if_pos (.inl hb₀)]
            refine ⟨by simp, fun x hx => ?_⟩
            have hxv : x = v := by simpa using hx
            exact hxv.ge
          · have hrest : 0 ∉ E ++ L := fun h₀ => hzero ((hmem 0).mpr (.inl h₀))
            obtain ⟨hin, hle⟩ := (ih hfirst).mpr fun h₀ => absurd h₀ hrest
            have hpos : L.foldl lower b ≠ 0 := fun h₀ => hrest (h₀ ▸ hin)
            rw [lower]
            split_ifs with hlt
            · refine ⟨(hmem v).mpr (.inr rfl), fun x hx => ?_⟩
              rcases (hmem x).mp hx with hx | rfl
              · have := hle hx
                omega
              · exact le_rfl
            · refine ⟨(hmem _).mpr (.inl hin), fun x hx => ?_⟩
              rcases (hmem x).mp hx with hx | rfl
              · exact hle hx
              · omega

theorem foldl_max {E L : List ℕ} {e : ℕ} (he : E = [] ∧ e = 0 ∨ IsGreatest {v | v ∈ E} e)
    (hne : E ++ L ≠ []) :
    IsGreatest {v | v ∈ E ++ L} (L.foldl max e) := by
  induction L using List.reverseRecOn with
  | nil =>
      rw [List.append_nil] at hne ⊢
      exact he.resolve_left fun h => hne h.1
  | append_singleton L v ih =>
      rw [List.foldl_append, List.foldl_cons, List.foldl_nil]
      have hmem : ∀ x, x ∈ E ++ (L ++ [v]) ↔ x ∈ E ++ L ∨ x = v := by
        intro x
        simp [or_assoc]
      by_cases hfirst : E ++ L = []
      · obtain ⟨rfl, rfl⟩ := List.append_eq_nil_iff.mp hfirst
        have he₀ : e = 0 := he.elim And.right fun h => absurd h.1 List.not_mem_nil
        rw [List.foldl_nil, he₀, Nat.zero_max]
        refine ⟨by simp, fun x hx => ?_⟩
        have hxv : x = v := by simpa using hx
        exact hxv.le
      · obtain ⟨hin, hle⟩ := ih hfirst
        constructor
        · refine (hmem _).mpr ?_
          rcases max_choice (L.foldl max e) v with h | h <;> rw [h]
          · exact .inl hin
          · exact .inr rfl
        · intro x hx
          rcases (hmem x).mp hx with hx | rfl
          · exact (hle hx).trans (le_max_left _ _)
          · exact le_max_right _ _

/-! ### When the copies end -/

namespace Elf64_Phdr

variable (ph : Elf64_Phdr)

/-- The segment is copied, and its size is a multiple of 4 GiB. -/
def Stuck : Prop := ph.p_paddr = 0 ∧ ph.filesz ≠ 0 ∧ ph.filesz % 2 ^ 32 = 0

instance : Decidable ph.Stuck := inferInstanceAs (Decidable (_ ∧ _ ∧ _))

/-- The end of the segment. -/
def top : ℕ := ph.p_vaddr + ph.p_memsz

end Elf64_Phdr

theorem orCrash_forever {α : Type} {x : Except Crash α} : orCrash x ≠ .error .forever := by
  cases x <;> simp [orCrash, Except.mapError]

theorem copy_forever {dst src len : ℕ} {m : Mmu} :
    copy dst src len m = .error .forever ↔ len ≠ 0 ∧ len % 2 ^ 32 = 0 := by
  rw [← maxAmount, ← copy_memory_none, copy]
  cases copy_memory memmove dst src len m <;> simp

section Ends

variable {C : MmuConsts} {env : MmuEnv} {addr : ℕ} {m m' : Mmu}

theorem mapCopied_forever {vaddr room size src len flags : ℕ}
    (h : mapCopied C env vaddr room size src len flags m = .error .forever) :
      len ≠ 0 ∧ len % 2 ^ 32 = 0 := by
  rcases bind_eq_error.mp h with h | ⟨⟨daddr, m₁⟩, -, h⟩
  · exact absurd h orCrash_forever
  rcases bind_eq_error.mp h with h | ⟨m₂, -, h⟩
  · exact copy_forever.mp h
  · exact absurd h orCrash_forever

theorem mapCopied_not_stuck {vaddr room size src len flags : ℕ}
    (h : mapCopied C env vaddr room size src len flags m = .ok m') :
      ¬ (len ≠ 0 ∧ len % 2 ^ 32 = 0) := by
  obtain ⟨⟨daddr, m₁⟩, -, h⟩ := bind_eq_ok.mp h
  obtain ⟨m₂, hcopy, -⟩ := bind_eq_ok.mp h
  intro hstuck
  rw [copy_forever.mpr hstuck] at hcopy
  cases hcopy

/-- Less than a page is left of a segment that is in RAM. -/
theorem loadInPlace_ends {ph : Elf64_Phdr} : loadInPlace C env ph m ≠ .error .forever := by
  intro h
  simp only [loadInPlace] at h
  generalize (if ph.p_memsz = ph.p_filesz then ROUNDPG ph.filesz else ph.filesz) = filesz at h
  generalize (if ph.p_memsz = ph.p_filesz then ROUNDPG ph.filesz else ph.memsz) = memsz at h
  rcases bind_eq_error.mp h with h | ⟨m₁, -, h⟩
  · exact absurd h orCrash_forever
  split_ifs at h
  · obtain ⟨hpos, hmod⟩ := mapCopied_forever h
    rw [Elf64_Phdr.and_pagebits] at hpos hmod
    omega
  · cases h

theorem loadSegment_ok {ph : Elf64_Phdr} {s s' : Boot} (h : loadSegment C env addr ph s = .ok s') :
    ∃ m', loadMemory C env addr ph s.mmu = .ok m' ∧
    s' = { s.cover ph.vaddr ph.memsz₀ with mmu := m' } := by
  obtain ⟨m', hm', h⟩ := bind_eq_ok.mp h
  cases h
  exact ⟨m', hm', rfl⟩

theorem loadSegment_forever {ph : Elf64_Phdr} {s : Boot}
    (h : loadSegment C env addr ph s = .error .forever) :
    ph.Stuck := by
  rcases bind_eq_error.mp h with h | ⟨m', -, h⟩
  · rw [loadMemory] at h
    split_ifs at h with hp
    · exact absurd h loadInPlace_ends
    · exact ⟨not_not.mp hp, mapCopied_forever h⟩
  · cases h

theorem loadSegment_not_stuck {ph : Elf64_Phdr} {s s' : Boot}
    (h : loadSegment C env addr ph s = .ok s') :
    ¬ ph.Stuck := by
  rintro ⟨hp, hstuck⟩
  obtain ⟨m', hm', -⟩ := loadSegment_ok h
  rw [loadMemory, if_neg (not_not.mpr hp)] at hm'
  exact mapCopied_not_stuck hm' hstuck

theorem loads_forever {l : List Elf64_Phdr} {s : Boot}
    (h : l.foldlM (fun s ph => loadSegment C env addr ph s) s = .error .forever) :
      ∃ ph ∈ l, ph.Stuck := by
  induction l generalizing s with
  | nil => cases h
  | cons ph l ih =>
      rw [List.foldlM_cons] at h
      rcases bind_eq_error.mp h with h | ⟨s₁, -, h⟩
      · exact ⟨ph, List.mem_cons_self, loadSegment_forever h⟩
      · obtain ⟨q, hq, hstuck⟩ := ih h
        exact ⟨q, List.mem_cons_of_mem _ hq, hstuck⟩

theorem loads_not_stuck {l : List Elf64_Phdr} {s s' : Boot}
    (h : l.foldlM (fun s ph => loadSegment C env addr ph s) s = .ok s') : ∀ ph ∈ l, ¬ ph.Stuck := by
  induction l generalizing s with
  | nil => simp
  | cons ph l ih =>
      rw [List.foldlM_cons] at h
      obtain ⟨s₁, hseg, h⟩ := bind_eq_ok.mp h
      exact List.forall_mem_cons.mpr ⟨loadSegment_not_stuck hseg, ih h⟩

/-- `boot_vaddr_base`, whatever the sizes are. -/
theorem loads_base {l : List Elf64_Phdr} {s s' : Boot}
    (h : l.foldlM (fun s ph => loadSegment C env addr ph s) s = .ok s') :
    s'.boot_vaddr_base = (l.map Elf64_Phdr.vaddr).foldl lower s.boot_vaddr_base := by
  induction l generalizing s with
  | nil =>
      cases h
      rfl
  | cons ph l ih =>
      rw [List.foldlM_cons] at h
      obtain ⟨s₁, hseg, h⟩ := bind_eq_ok.mp h
      obtain ⟨m', -, rfl⟩ := loadSegment_ok hseg
      rw [ih h]
      rfl

end Ends

/-! ### The segments -/

section Run

variable {C : MmuConsts} {env : MmuEnv} {addr : ℕ}

theorem Placed.keep {file : ℕ → UInt8} {ph : Elf64_Phdr} {m m' : Mmu} (h : Placed C addr file ph m)
    (hkeeps : Keeps C m m') (htrans : ∀ k < ph.p_memsz,
      elf_vaddr_to_paddr C (ph.p_vaddr + k) m' = elf_vaddr_to_paddr C (ph.p_vaddr + k) m) :
    Placed C addr file ph m' := by
  intro k hk
  obtain ⟨x, hx, ht, hfree, hbyte⟩ := h k hk
  exact ⟨x, hx, (htrans k hk).trans ht, fun hown => hfree (hkeeps.own _ hown),
    (byte_keeps hkeeps hfree).trans hbyte⟩

theorem Placed.congr {file file' : ℕ → UInt8} {ph : Elf64_Phdr} {m : Mmu}
    (h : Placed C addr file ph m)
    (hfile : ∀ k < ph.p_filesz, file (ph.fileAddr addr k) = file' (ph.fileAddr addr k)) :
    Placed C addr file' ph m := by
  intro k hk
  obtain ⟨x, hx, ht, hfree, hbyte⟩ := h k hk
  refine ⟨x, hx, ht, hfree, hbyte.trans ?_⟩
  by_cases hkf : k < ph.p_filesz
  · rw [if_pos hkf, if_pos hkf, hfile k hkf]
  · rw [if_neg hkf, if_neg hkf]

theorem mem_span {ph : Elf64_Phdr} (hw : ph.Wf) {k : ℕ} (hk : k < ph.p_memsz) :
    ph.p_vaddr + k ∈ ph.span := by
  have hvaddr := ph.vaddr_eq hw.vaddr
  have hsize : ph.size = ph.p_memsz + ph.p_vaddr % 2 ^ 12 := rfl
  have hround := le_pages ph.size
  exact ⟨by omega, by omega⟩

/-- The bytes of the file are out of the code's reach. -/
def FileKept (C : MmuConsts) (addr : ℕ) (ph : Elf64_Phdr) (m : Mmu) : Prop :=
  ∀ k < ph.p_filesz, ¬ m.Own C (page (ph.fileAddr addr k))

theorem FileKept.keep {ph : Elf64_Phdr} {m m' : Mmu} (h : FileKept C addr ph m)
    (hkeeps : Keeps C m m') :
    FileKept C addr ph m' := fun k hk hown => h k hk (hkeeps.own _ hown)

theorem loadSegment_spec (hC : C.Standard) (hvirt : env.is_virtual = true) {ph : Elf64_Phdr}
    {s s' : Boot}
    (ht : Tables C env s.mmu) (hw : ph.Wf) (hfits : ph.Fits) (hfile : FileKept C addr ph s.mmu)
    (h : loadSegment C env addr ph s = .ok s') :
    Step C env addr ph s.mmu s'.mmu ∧ s'.boot_vaddr_end = max s.boot_vaddr_end ph.top := by
  obtain ⟨m', hm', rfl⟩ := loadSegment_ok h
  have hstep : Step C env addr ph s.mmu m' := by
    rw [loadMemory] at hm'
    split_ifs at hm' with hp
    · exact loadInPlace_spec hC hvirt ht hw hfits hp hfile hm'
    · exact loadCopied_spec hC hvirt ht hw hfits (not_not.mp hp) hfile hm'
  have hend : addW 64 ph.vaddr ph.memsz₀ = ph.top := by
    have htop := hstep.top
    have hround := le_pages ph.size
    have hvaddr := ph.vaddr_eq hw.vaddr
    rw [ph.memsz₀_eq hfits, addW_of_lt (by omega), Elf64_Phdr.size, Elf64_Phdr.top]
    omega
  refine ⟨hstep, ?_⟩
  simp only [Boot.cover, hend]
  split_ifs <;> omega

/-- **What loading does.** -/
theorem loads_spec (hC : C.Standard) (hvirt : env.is_virtual = true) {l : List Elf64_Phdr}
    {s s' : Boot} (ht : Tables C env s.mmu) (hw : ∀ ph ∈ l, ph.Wf) (hfits : ∀ ph ∈ l, ph.Fits)
    (hapart : l.Pairwise fun a b => Disjoint a.span b.span)
    (hfile : ∀ ph ∈ l, FileKept C addr ph s.mmu)
    (h : l.foldlM (fun s ph => loadSegment C env addr ph s) s = .ok s') :
    Keeps C s.mmu s'.mmu ∧
      (∀ u < 2 ^ 64, (∀ ph ∈ l, u ∉ ph.span) →
      elf_vaddr_to_paddr C u s'.mmu = elf_vaddr_to_paddr C u s.mmu) ∧
      (∀ ph ∈ l, Placed C addr (byte s.mmu) ph s'.mmu) ∧
      s'.boot_vaddr_end = (l.map Elf64_Phdr.top).foldl max s.boot_vaddr_end := by
  induction l generalizing s with
  | nil =>
      cases h
      exact ⟨.refl C _, fun _ _ _ => rfl, by simp, rfl⟩
  | cons ph l ih =>
      rw [List.foldlM_cons] at h
      obtain ⟨s₁, hseg, h⟩ := bind_eq_ok.mp h
      rw [List.forall_mem_cons] at hw hfits hfile
      obtain ⟨hfirst, hrest⟩ := List.pairwise_cons.mp hapart
      obtain ⟨hstep, hend⟩ := loadSegment_spec hC hvirt ht hw.1 hfits.1 hfile.1 hseg
      obtain ⟨hkeeps, hframe, hplaced, hends⟩ := ih hstep.tables hw.2 hfits.2 hrest
        (fun q hq => (hfile.2 q hq).keep hstep.keeps) h
      refine ⟨hstep.keeps.trans hkeeps, fun u hu hout => ?_, ?_, ?_⟩
      · rw [List.forall_mem_cons] at hout
        rw [hframe u hu hout.2, hstep.frame u hu hout.1]
      · refine List.forall_mem_cons.mpr ⟨?_, fun q hq => ?_⟩
        · -- What follows is at other addresses.
          refine hstep.placed.keep hkeeps fun k hk => ?_
          have hin := mem_span hw.1 hk
          have htop := hw.1.top
          exact hframe _ (by omega) fun q hq hin' => Set.disjoint_left.mp (hfirst q hq) hin hin'
        · exact (hplaced q hq).congr fun k hk => byte_keeps hstep.keeps (hfile.2 q hq k hk)
      · rw [hends, hend]
        rfl

end Run

end Startup.Elf
